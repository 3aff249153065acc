import FreeLwip.Lib.Run
import FreeLwip.Core.Heap

/-!
# The heap and its users

A run of `mem_malloc`, `mem_free` and `mem_trim` calls, in which nothing is freed or trimmed that
its caller does not hold; in between the callers write into their blocks.
-/

namespace FreeLwip.Core.Mem

open Blocks Heap

structure State where
  heap : Heap
  /-- What was asked for at each pointer that is held. -/
  held : Nat → Option MemSizeT

inductive Action where
  | malloc (size : MemSizeT)
  | free (rmem : Nat)
  | trim (rmem : Nat) (newsize : MemSizeT)
  /-- The holder's own octets, with the headers that they look like. -/
  | write (rmem : Nat) (ram : Nat → StructMem)

/-- `n` octets from `rmem` on are written: a header that reaches into them becomes that of `ram`. -/
def Heap.write (h : Heap) (rmem n : Nat) (ram : Nat → StructMem) : Heap :=
  { h with ram := fun y => if rmem - sizeofStructMem < y ∧ y < rmem + n then ram y else h.ram y }

def State.init (ram : Nat → StructMem) : State := { heap := memInit ram, held := fun _ => none }

def step (s : State) : Action → Option State
  | .malloc size =>
    let (p, heap) := s.heap.memMalloc size
    match p with
    | none => some { s with heap }
    | some rmem => some { heap, held := Function.update s.held rmem (some size) }
  | .free rmem =>
    if (s.held rmem).isSome then
      some { heap := s.heap.memFree (some rmem), held := Function.update s.held rmem none }
    else none
  | .trim rmem newsize =>
    if (s.held rmem).isSome then
      let (p, heap) := s.heap.memTrim rmem newsize
      match p with
      | none => some { s with heap }
      | some _ => some { heap, held := Function.update s.held rmem (some newsize) }
    else none
  | .write rmem ram =>
    (s.held rmem).map fun size => { s with heap := s.heap.write rmem (roundSize size) ram }

/-- The held pointers are those of the blocks in use, and each block has the room asked for. -/
structure Held (held : Nat → Option MemSizeT) (ls : List (Nat × Nat)) : Prop where
  owner : ∀ a n, (a, n) ∈ ls →
    ∃ size, held (a + sizeofStructMem) = some size ∧ roundSize size + sizeofStructMem ≤ n
  block : ∀ rmem size, held rmem = some size →
    ∃ a n, (a, n) ∈ ls ∧ rmem = a + sizeofStructMem ∧ roundSize size + sizeofStructMem ≤ n

structure Inv (s : State) (bs : List Block) : Prop where
  tiles : Tiles s.heap bs
  held : Held s.held (live 0 bs)

theorem init_inv (ram : Nat → StructMem) : Inv (State.init ram) [⟨memSizeAligned, false⟩] where
  tiles := memInit_tiles ram
  held := by
    constructor
    · intro a n h
      cases h
    · intro rmem size h
      cases h

section

variable {held : Nat → Option MemSizeT} {l r : List (Nat × Nat)} {a n : Nat} {size : MemSizeT}

theorem ne_of_pairwise (h : (l ++ (a, n) :: r).Pairwise fun x y => x.1 + x.2 ≤ y.1)
    (hpos : ∀ x ∈ l ++ (a, n) :: r, 0 < x.2) {x : Nat × Nat} (hx : x ∈ l ++ r) : x.1 ≠ a := by
  rw [List.pairwise_append, List.pairwise_cons] at h
  rw [List.mem_append] at hx
  rcases hx with hx | hx
  · have := h.2.2 x hx (a, n) (by simp)
    have := hpos x (by simp [hx])
    omega
  · have := h.2.1.1 x hx
    have := hpos (a, n) (by simp)
    dsimp only at *
    omega

theorem Held.insert (h : Held held (l ++ r)) (hn : roundSize size + sizeofStructMem ≤ n)
    (hne : ∀ x ∈ l ++ r, x.1 ≠ a) :
    Held (Function.update held (a + sizeofStructMem) (some size)) (l ++ (a, n) :: r) := by
  constructor
  · intro b k hb
    have hcases : (b, k) = (a, n) ∨ (b, k) ∈ l ++ r := by
      simp only [List.mem_append, List.mem_cons] at hb ⊢
      tauto
    rcases hcases with heq | hmem
    · obtain ⟨rfl, rfl⟩ := Prod.mk.inj heq
      exact ⟨size, Function.update_self .., hn⟩
    · obtain ⟨z, hz, hle⟩ := h.owner b k hmem
      have := hne _ hmem
      exact ⟨z, (Function.update_of_ne (by dsimp only at this; omega) _ _).trans hz, hle⟩
  · intro rmem z hz
    rw [Function.update_apply] at hz
    split at hz
    · next heq =>
      cases hz
      exact ⟨a, n, by simp, heq, hn⟩
    · obtain ⟨b, k, hmem, hrmem, hle⟩ := h.block rmem z hz
      refine ⟨b, k, ?_, hrmem, hle⟩
      simp only [List.mem_append, List.mem_cons] at hmem ⊢
      tauto

theorem Held.erase (h : Held held (l ++ (a, n) :: r)) (hne : ∀ x ∈ l ++ r, x.1 ≠ a) :
    Held (Function.update held (a + sizeofStructMem) none) (l ++ r) := by
  constructor
  · intro b k hb
    obtain ⟨z, hz, hle⟩ := h.owner b k (by
      simp only [List.mem_append, List.mem_cons] at hb ⊢
      tauto)
    have := hne _ hb
    exact ⟨z, (Function.update_of_ne (by dsimp only at this; omega) _ _).trans hz, hle⟩
  · intro rmem z hz
    rw [Function.update_apply] at hz
    split at hz
    · cases hz
    · next hrmem =>
      obtain ⟨b, k, hmem, rfl, hle⟩ := h.block rmem z hz
      refine ⟨b, k, ?_, rfl, hle⟩
      have hab : (b, k) ≠ (a, n) := by
        rintro heq
        exact hrmem (by rw [(Prod.mk.inj heq).1])
      simp only [List.mem_append, List.mem_cons] at hmem ⊢
      tauto

end

theorem Heap.Tiles.live_pos {h : Heap} {bs : List Block} (ht : Tiles h bs) :
    ∀ x ∈ live 0 bs, sizeofStructMem + minSizeAligned ≤ x.2 := by
  intro x hx
  obtain ⟨l, r, rfl, -⟩ := exists_of_mem_live hx
  exact (ht.big ⟨x.2, true⟩ (by simp)).1

theorem Heap.Tiles.ne_of_live {h : Heap} {bs : List Block} {l r : List (Nat × Nat)} {a n : Nat}
    (ht : Tiles h bs) (heq : live 0 bs = l ++ (a, n) :: r) : ∀ x ∈ l ++ r, x.1 ≠ a := by
  have hsorted := live_pairwise 0 bs
  have hpos := ht.live_pos
  rw [heq] at hsorted hpos
  intro x hx
  refine ne_of_pairwise hsorted (fun y hy => ?_) hx
  have := hpos y hy
  rw [sizeofStructMem_eq] at this
  omega

theorem write_tiles {h : Heap} {bs : List Block} (ht : Tiles h bs) {a n k : Nat}
    (hmem : (a, n) ∈ live 0 bs) (hk : k + sizeofStructMem ≤ n) (ram : Nat → StructMem) :
    Tiles (h.write (a + sizeofStructMem) k ram) bs := by
  have hend : a + n ≤ memSizeAligned := by
    have hle := (live_bounds hmem).2
    rwa [ht.fills, Nat.zero_add] at hle
  have hkeep : ∀ y, y ≤ a ∨ a + n ≤ y → (h.write (a + sizeofStructMem) k ram).ram y = h.ram y := by
    intro y hy
    refine if_neg fun hin => ?_
    rw [Nat.add_sub_cancel] at hin
    omega
  obtain ⟨l, r, rfl, ha⟩ := exists_of_mem_live hmem
  refine ⟨⟨ht.seg.write fun y hy => hkeep y ?_, ht.fills, ?_, ht.big⟩, ht.lfree, ht.plugged⟩
  · dsimp only at ha hy
    omega
  · rw [hkeep ramEnd (.inr hend)]
    exact ht.ramEnd

theorem step_inv {s t : State} {act : Action} {bs : List Block} (hi : Inv s bs)
    (h : step s act = some t) :
    ∃ bs', Inv t bs' ∧ ∀ x ∈ live 0 bs',
      (∀ ram, act ≠ .write (x.1 + sizeofStructMem) ram) →
      ∀ y, x.1 < y → y < x.1 + x.2 → t.heap.ram y = s.heap.ram y := by
  cases act with
  | malloc size =>
    simp only [step] at h
    rcases memMalloc_spec hi.tiles size with
      ⟨hnone, heq⟩ | ⟨bs', l, r, a, n, hp, ht, hl, hl', hn, hsp⟩
    · rw [hnone, heq] at h
      cases h
      exact ⟨bs, hi, fun _ _ _ _ _ _ => rfl⟩
    · rw [hp] at h
      cases h
      refine ⟨bs', ⟨ht, ?_⟩, fun x hx _ => hsp x hx⟩
      rw [hl']
      exact (hl ▸ hi.held).insert hn (ht.ne_of_live hl')
  | free rmem =>
    simp only [step] at h
    split at h
    · next hsome =>
      cases h
      obtain ⟨size, hsize⟩ := Option.isSome_iff_exists.mp hsome
      obtain ⟨a, n, hmem, rfl, hle⟩ := hi.held.block rmem size hsize
      obtain ⟨bs', l, r, ht, hl, hl', hsp⟩ := memFree_spec hi.tiles hmem
      refine ⟨bs', ⟨ht, ?_⟩, fun x hx _ => hsp x hx⟩
      have hheld := hi.held
      rw [hl] at hheld
      rw [hl']
      exact hheld.erase (hi.tiles.ne_of_live hl)
    · cases h
  | trim rmem newsize =>
    simp only [step] at h
    split at h
    · next hsome =>
      obtain ⟨size, hsize⟩ := Option.isSome_iff_exists.mp hsome
      obtain ⟨a, n, hmem, rfl, hle⟩ := hi.held.block rmem size hsize
      rcases memTrim_spec hi.tiles hmem newsize with
        ⟨heq, -⟩ | ⟨bs', l, r, k, hp, ht, hl, hl', hkn, hk, hsp⟩
      · rw [heq] at h
        cases h
        exact ⟨bs, hi, fun _ _ _ _ _ _ => rfl⟩
      · rw [hp] at h
        cases h
        refine ⟨bs', ⟨ht, ?_⟩, fun x hx _ => hsp x hx⟩
        have hheld := hi.held
        rw [hl] at hheld
        have herase := hheld.erase (hi.tiles.ne_of_live hl)
        rw [hl']
        have hinsert := herase.insert hk (ht.ne_of_live hl')
        rw [Function.update_idem] at hinsert
        exact hinsert
    · cases h
  | write rmem ram =>
    simp only [step, Option.map_eq_some_iff] at h
    obtain ⟨size, hsize, rfl⟩ := h
    obtain ⟨a, n, hmem, rfl, hle⟩ := hi.held.block rmem size hsize
    refine ⟨bs, ⟨write_tiles hi.tiles hmem hle ram, hi.held⟩, fun x hx hother y hlt hlt' => ?_⟩
    have hne : x.1 ≠ a := fun heq => hother ram (by rw [heq])
    refine if_neg fun hin => ?_
    rw [Nat.add_sub_cancel] at hin
    rcases live_apart hx hmem hne with hle' | hle' <;> dsimp only at hle' <;> omega

theorem run_inv {ram : Nat → StructMem} {as : List Action} {s : State}
    (h : Run.run step (State.init ram) as = some s) : ∃ bs, Inv s bs :=
  Run.run_invariant (I := fun s => ∃ bs, Inv s bs)
    (fun _ _ _ ⟨_, hi⟩ hstep => (step_inv hi hstep).imp fun _ h => h.1)
    ⟨_, init_inv ram⟩ h

/-! ## What the users can rely on -/

theorem Heap.Tiles.dvd_of_live {h : Heap} {bs : List Block} (ht : Tiles h bs) {a n : Nat}
    (hmem : (a, n) ∈ live 0 bs) : 4 ∣ a := by
  obtain ⟨l, r, rfl, ha⟩ := exists_of_mem_live hmem
  dsimp only at ha
  rw [ha, Nat.zero_add]
  exact dvd_total fun b hb => (ht.big b (by simp [hb])).2

/-- Every block held lies in the heap, is aligned, has the room that was asked for, is not handed
out once more, and none overlaps another one or its header. -/
theorem held_apart {ram : Nat → StructMem} {as : List Action} {s : State}
    (h : Run.run step (State.init ram) as = some s) {p : Nat} {size : MemSizeT}
    (hp : s.held p = some size) :
    4 ∣ p ∧ sizeofStructMem ≤ p ∧ p + roundSize size ≤ memSizeAligned ∧
      (size.toNat ≤ 65532 → size.toNat ≤ roundSize size) ∧
      (∀ size', (s.heap.memMalloc size').1 ≠ some p) ∧
      ∀ q size', s.held q = some size' → p ≠ q →
        p + roundSize size + sizeofStructMem ≤ q ∨ q + roundSize size' + sizeofStructMem ≤ p := by
  obtain ⟨bs, hi⟩ := run_inv h
  obtain ⟨a, n, hmem, rfl, hn⟩ := hi.held.block p size hp
  have hfills := hi.tiles.fills
  have hle := (live_bounds hmem).2
  refine ⟨Nat.dvd_add (hi.tiles.dvd_of_live hmem) (by decide), by omega, ?_,
    (roundSize_spec size).2.2.2, fun size' hagain => ?_, ?_⟩
  · dsimp only at hle
    omega
  · rcases memMalloc_spec hi.tiles size' with
      ⟨hnone, -⟩ | ⟨bs', l, r, b, k, hb, ht, hl, hl', -, -⟩
    · rw [hnone] at hagain
      cases hagain
    · rw [hb, Option.some.injEq] at hagain
      exact ht.ne_of_live hl' _ (hl ▸ hmem) (by dsimp only; omega)
  · intro q size' hq hne
    obtain ⟨b, m, hmem', rfl, hm⟩ := hi.held.block q size' hq
    have hapart := live_apart hmem hmem' fun heq => hne (by dsimp only at heq; rw [heq])
    dsimp only at hapart
    omega

/-- A first run: the second block stands behind the first. -/
theorem held_apart_two :
    let s := (Run.run step (State.init fun _ => ⟨0, 0, false⟩) [.malloc 16, .malloc 100]).get
      (by decide +kernel)
    s.held 32 = some 100 ∧ 32 + roundSize 100 ≤ memSizeAligned ∧
      (8 + roundSize 16 + sizeofStructMem ≤ 32) := by
  intro s
  have h : Run.run step (State.init fun _ => ⟨0, 0, false⟩) [.malloc 16, .malloc 100] = some s :=
    (Option.some_get _).symm
  have h₁ : s.held 8 = some 16 := by decide +kernel
  have h₂ : s.held 32 = some 100 := by decide +kernel
  refine ⟨h₂, (held_apart h h₂).2.2.1, ?_⟩
  rcases (held_apart h h₁).2.2.2.2.2 32 100 h₂ (by decide) with hle | hle
  · exact hle
  · exact absurd hle (by decide +kernel)

/-- A held block's octets are the caller's: no call writes a header into them, except the one that
frees the block, and no other caller's write reaches them. -/
theorem run_spares (ram : Nat → StructMem) (as : List Action) :
    Run.EveryStep step (fun s act t => ∀ p size, t.held p = some size →
      (∀ ram', act ≠ .write p ram') →
      ∀ y, p - sizeofStructMem < y → y < p + roundSize size → t.heap.ram y = s.heap.ram y)
      (State.init ram) as := by
  apply Run.everyStep_of_invariant (I := fun s => ∃ bs, Inv s bs) _ as ⟨_, init_inv ram⟩
  rintro s act t ⟨bs, hi⟩ hstep
  obtain ⟨bs', hi', hsp⟩ := step_inv hi hstep
  refine ⟨fun p size hp hother y hlt hle => ?_, bs', hi'⟩
  obtain ⟨a, n, hmem, rfl, hn⟩ := hi'.held.block p size hp
  exact hsp (a, n) hmem hother y (by dsimp only; omega) (by dsimp only; omega)

/-- `mem_malloc` is a first fit: it takes the lowest block with room, and fails only where there is
none. -/
theorem malloc_first_fit {ram : Nat → StructMem} {as : List Action} {s : State}
    (h : Run.run step (State.init ram) as = some s) :
    ∃ bs, Tiles s.heap bs ∧ ∀ size p, (s.heap.memMalloc size).1 = some p ↔ size ≠ 0 ∧
      ∃ l b r, bs = l ++ b :: r ∧ p = total l + sizeofStructMem ∧ Fits (roundSize size) b ∧
        ∀ c ∈ l, ¬ Fits (roundSize size) c := by
  obtain ⟨bs, hi⟩ := run_inv h
  exact ⟨bs, hi.tiles, memMalloc_some_iff hi.tiles⟩

theorem malloc_first_fit_two :
    ∃ s, Run.run step (State.init fun _ => ⟨0, 0, false⟩) [.malloc 16, .malloc 100, .free 8] =
      some s ∧ ∃ bs, Tiles s.heap bs ∧ ∃ l b r, bs = l ++ b :: r ∧ 8 = total l + sizeofStructMem ∧
        Fits (roundSize 14) b := by
  have h : Run.run step (State.init fun _ => ⟨0, 0, false⟩) [.malloc 16, .malloc 100, .free 8] =
      some ((Run.run step (State.init fun _ => ⟨0, 0, false⟩)
        [.malloc 16, .malloc 100, .free 8]).get (by decide +kernel)) := (Option.some_get _).symm
  obtain ⟨bs, ht, hiff⟩ := malloc_first_fit h
  obtain ⟨-, l, b, r, hbs, hp, hfits, -⟩ := (hiff 14 8).mp (by decide +kernel)
  exact ⟨_, h, bs, ht, l, b, r, hbs, hp, hfits⟩

/-- When everything is given back, in whatever order, the heap is as large as it was at first. -/
theorem all_freed {ram : Nat → StructMem} {as : List Action} {s : State}
    (h : Run.run step (State.init ram) as = some s) (hfreed : ∀ p, s.held p = none) :
    Tiles s.heap [⟨memSizeAligned, false⟩] ∧
      ∀ size, (s.heap.memMalloc size).1 =
        if size = 0 ∨ memSizeAligned < roundSize size + sizeofStructMem then none
        else some sizeofStructMem := by
  obtain ⟨bs, hi⟩ := run_inv h
  have hnone : live 0 bs = [] := by
    apply List.eq_nil_iff_forall_not_mem.mpr
    rintro ⟨a, n⟩ hmem
    obtain ⟨size, hsome, -⟩ := hi.held.owner a n hmem
    rw [hfreed] at hsome
    cases hsome
  have hne : bs ≠ [] := by
    rintro rfl
    have := hi.tiles.fills
    cases this
  have hone := hi.tiles.plugged.eq_singleton hnone hne
  rw [hi.tiles.fills] at hone
  have ht := hi.tiles
  rw [hone] at ht
  refine ⟨ht, fun size => ?_⟩
  have hiff := memMalloc_some_iff ht size
  split
  · next hfull =>
    apply Option.eq_none_iff_forall_ne_some.mpr
    intro p hp
    obtain ⟨h0, l, b, r, heq, -, hfits, -⟩ := (hiff p).mp hp
    have hb : b ∈ [⟨memSizeAligned, false⟩] := heq ▸ by simp
    rw [List.mem_singleton.mp hb] at hfits
    have hle : roundSize size + sizeofStructMem ≤ memSizeAligned := hfits.2
    rcases hfull with hzero | hlt
    · exact h0 hzero
    · omega
  · next hroom =>
    rw [not_or] at hroom
    refine (hiff _).mpr ⟨hroom.1, [], _, [], rfl, by simp, ⟨rfl, ?_⟩, by simp⟩
    exact Nat.not_lt.mp hroom.2

theorem all_freed_two :
    ∃ s, Run.run step (State.init fun _ => ⟨0, 0, false⟩)
        [.malloc 16, .malloc 100, .free 8, .free 32] = some s ∧
      Tiles s.heap [⟨memSizeAligned, false⟩] := by
  have h : Run.run step (State.init fun _ => ⟨0, 0, false⟩)
      [.malloc 16, .malloc 100, .free 8, .free 32] =
      some ((Run.run step (State.init fun _ => ⟨0, 0, false⟩)
        [.malloc 16, .malloc 100, .free 8, .free 32]).get (by decide +kernel)) :=
    (Option.some_get _).symm
  refine ⟨_, h, (all_freed h ?_).1⟩
  have hheld : ((Run.run step (State.init fun _ => ⟨0, 0, false⟩)
      [.malloc 16, .malloc 100, .free 8, .free 32]).get (by decide +kernel)).held =
      Function.update (Function.update (Function.update (Function.update (fun _ => none) 8
        (some 16)) 32 (some 100)) 8 none) 32 none := rfl
  intro p
  rw [hheld]
  simp only [Function.update_apply]
  split_ifs <;> rfl

end FreeLwip.Core.Mem
