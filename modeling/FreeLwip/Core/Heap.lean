import FreeLwip.Lib.Run
import FreeLwip.Core.Mem

/-!
# The heap over whole runs

A heap is tiled by its blocks: no gap, no overlap, no two unused ones in a row, and `lfree` at the
first unused one. Each function keeps that, and changes the blocks in use as its caller expects.
-/

namespace FreeLwip.Core.Mem

open Blocks

/-- Every block has room for its header and `MIN_SIZE_ALIGNED` octets. -/
def Big (b : Block) : Prop := sizeofStructMem + minSizeAligned ≤ b.size ∧ 4 ∣ b.size

/-- The headers are those of a row of blocks; `lfree` aside, and the holes. -/
structure Heap.Cut (h : Heap) (bs : List Block) : Prop where
  seg : Seg h.ram 0 0 bs
  fills : total bs = memSizeAligned
  ramEnd : (h.ram Heap.ramEnd).used = true
  big : ∀ b ∈ bs, Big b

structure Heap.Tiles (h : Heap) (bs : List Block) : Prop extends Heap.Cut h bs where
  lfree : h.lfree = firstFree 0 bs
  plugged : Plugged bs

theorem memSizeAligned_eq : memSizeAligned = 32768 := rfl
theorem sizeofStructMem_eq : sizeofStructMem = 8 := rfl
theorem minSizeAligned_eq : minSizeAligned = 12 := rfl

namespace Heap

theorem memInit_tiles (ram : Nat → StructMem) :
    Tiles (memInit ram) [⟨memSizeAligned, false⟩] where
  seg := ⟨by simp [memInit, memSizeAligned_eq], by decide, trivial⟩
  fills := by simp
  ramEnd := by simp [memInit]
  big := by simp [Big, memSizeAligned_eq, sizeofStructMem_eq, minSizeAligned_eq]
  plugged := List.isChain_singleton _
  lfree := rfl

/-! ## The rounded size -/

theorem and_not_three (x : BitVec 32) : x &&& ~~~3#32 = (x >>> 2) <<< 2 := by
  have h3 : ∀ i, (3#32).getLsbD i = decide (i < 2) := fun i =>
    Nat.testBit_two_pow_sub_one 2 i
  apply BitVec.eq_of_getLsbD_eq
  intro i hi
  simp only [BitVec.getLsbD_and, BitVec.getLsbD_not, h3, BitVec.getLsbD_shiftLeft,
    BitVec.getLsbD_ushiftRight]
  rcases Nat.lt_or_ge i 2 with h | h
  · simp [h]
  · rw [show 2 + (i - 2) = i by omega]
    simp [hi, Nat.not_lt.mpr h]

theorem lwipMemAlignSize_toNat (size : MemSizeT) :
    (lwipMemAlignSize (size.setWidth 32)).toNat = (size.toNat + 3) / 4 * 4 := by
  have hsize := size.isLt
  rw [lwipMemAlignSize, and_not_three, BitVec.toNat_shiftLeft, BitVec.toNat_ushiftRight,
    BitVec.toNat_add, BitVec.toNat_setWidth, Nat.shiftLeft_eq, Nat.shiftRight_eq_div_pow,
    BitVec.toNat_ofNat]
  omega

/-- What a caller gets at least; the last three sizes wrap around. -/
theorem roundSize_spec (size : MemSizeT) :
    roundSize size % 4 = 0 ∧ minSizeAligned ≤ roundSize size ∧ roundSize size < 65536 ∧
      (size.toNat ≤ 65532 → size.toNat ≤ roundSize size) := by
  have hsize := size.isLt
  simp only [roundSize, BitVec.toNat_setWidth, lwipMemAlignSize_toNat, minSizeAligned_eq]
  split <;> omega

/-! ## The two loops of `mem_malloc` -/

/-- A block that `mem_malloc` takes for `size` octets. -/
def Fits (size : Nat) (b : Block) : Prop := b.used = false ∧ size + sizeofStructMem ≤ b.size

theorem findFit_spec {h : Heap} (size : Nat) (hzero : 0 < size)
    (hsize : size ≤ memSizeAligned) {p a : Nat}
    {bs : List Block} (hseg : Seg h.ram p a bs) (hend : a + total bs = memSizeAligned)
    {fuel : Nat} (hfuel : bs.length < fuel) :
    (h.findFit size fuel a = none ∧ ∀ b ∈ bs, ¬ Fits size b) ∨
      ∃ l b r, bs = l ++ b :: r ∧ h.findFit size fuel a = some (a + total l) ∧ Fits size b ∧
        ∀ c ∈ l, ¬ Fits size c := by
  induction bs generalizing p a fuel with
  | nil =>
    obtain ⟨fuel, rfl⟩ := Nat.exists_eq_add_of_lt hfuel
    rw [total_nil] at hend
    exact .inl ⟨by rw [findFit, if_neg (by omega)], by simp⟩
  | cons b bs ih =>
    obtain ⟨fuel, rfl⟩ : ∃ k, fuel = k + 1 := ⟨fuel - 1, by omega⟩
    obtain ⟨hb, hpos, hrest⟩ := hseg
    rw [total_cons] at hend
    rw [findFit, hb]
    have hsz := sizeofStructMem_eq
    split
    · dsimp only
      split
      · next hfit =>
        refine .inr ⟨[], b, bs, rfl, rfl, ⟨by simpa using hfit.1, ?_⟩, by simp⟩
        have := hfit.2
        omega
      · next hfit =>
        have hnot : ¬ Fits size b := by
          rintro ⟨hused, hle⟩
          exact hfit ⟨by simp [hused], by omega⟩
        rcases ih hrest (by omega) (by simpa using hfuel) with
          ⟨hnone, hall⟩ | ⟨l, c, r, rfl, hsome, hfits, hl⟩
        · exact .inl ⟨hnone, List.forall_mem_cons.mpr ⟨hnot, hall⟩⟩
        · refine .inr ⟨b :: l, c, r, rfl, ?_, hfits, List.forall_mem_cons.mpr ⟨hnot, hl⟩⟩
          rw [hsome, total_cons, Nat.add_assoc]
    · next hlt =>
      refine .inl ⟨rfl, ?_⟩
      have hsmall : ∀ cs : List Block, total cs ≤ size → ∀ c ∈ cs, ¬ Fits size c := by
        intro cs hcs c hc hfits
        have hle := size_le_total hc
        have := hfits.2
        omega
      exact hsmall (b :: bs) (by rw [total_cons]; omega)

theorem nextFree_spec {h : Heap} {p a : Nat} {bs : List Block} (hseg : Seg h.ram p a bs)
    (hend : a + total bs = memSizeAligned) {fuel : Nat} (hfuel : bs.length < fuel) :
    h.nextFree fuel a = firstFree a bs := by
  induction bs generalizing p a fuel with
  | nil =>
    obtain ⟨fuel, rfl⟩ : ∃ k, fuel = k + 1 := ⟨fuel - 1, by omega⟩
    rw [total_nil, Nat.add_zero] at hend
    rw [nextFree, if_neg (by simp [hend]), firstFree]
  | cons b bs ih =>
    obtain ⟨fuel, rfl⟩ : ∃ k, fuel = k + 1 := ⟨fuel - 1, by omega⟩
    obtain ⟨hb, hpos, hrest⟩ := hseg
    rw [total_cons] at hend
    rw [nextFree, firstFree, hb]
    have hne : a ≠ ramEnd := by
      unfold ramEnd
      omega
    simp only [hne, ne_eq, not_false_eq_true, and_true]
    split
    · exact ih hrest (by omega) (by simpa using hfuel)
    · rfl

/-! ## Edits of the row -/

section

variable {h : Heap} {l r : List Block}

theorem linkFree_ram (h : Heap) {ptr ptr2 next : Nat} (hlt : ptr < ptr2) (hnext : ptr2 < next)
    (x : Nat) :
    (h.linkFree ptr ptr2 next).ram x =
      if x = ptr then { h.ram ptr with next := ptr2 }
      else if x = ptr2 then ⟨next, ptr, false⟩
      else if x = next ∧ next ≠ memSizeAligned then { h.ram next with prev := ptr2 }
      else h.ram x := by
  unfold linkFree
  simp only [setPrev, setNext, setMem]
  split <;> simp only [Function.update_apply] <;> split_ifs <;>
    first | rfl | omega

/-- The row after `linkFree`: the block at `ptr` ends at `ptr2`, and an unused one takes what is
left up to `next`, whatever was there before. -/
theorem linkFree_seg {u : Bool} {n m q : Nat} (hn : 0 < n) (hm : 0 < m) (hl : Seg h.ram 0 0 l)
    (hprev : (h.ram (total l)).prev = last 0 0 l) (hused : (h.ram (total l)).used = u)
    (hr : Seg h.ram q (total l + n + m) r)
    (hend : total l + n + m + total r = memSizeAligned) :
    Seg (h.linkFree (total l) (total l + n) (total l + n + m)).ram 0 0
      (l ++ ⟨n, u⟩ :: ⟨m, false⟩ :: r) := by
  have hram := linkFree_ram h (show total l < total l + n by omega)
    (show total l + n < total l + n + m by omega)
  rw [seg_append, Nat.zero_add]
  simp only [Seg]
  refine ⟨hl.congr fun x _ hx => ?_, ?_, hn, ?_, hm, hr.relink _ (fun hne => ?_) fun x hx _ => ?_⟩
  · rw [hram, if_neg (by omega), if_neg (by omega), if_neg (by omega)]
  · rw [hram, if_pos rfl, ← hprev, ← hused]
  · rw [hram, if_neg (by omega), if_pos rfl]
  · have hlt : total l + n + m ≠ memSizeAligned := by
      cases r with
      | nil => exact absurd rfl hne
      | cons b r =>
        have := hr.2.1
        rw [total_cons] at hend
        omega
    rw [hram, if_neg (by omega), if_neg (by omega), if_pos ⟨rfl, hlt⟩]
  · rw [hram, if_neg (by omega), if_neg (by omega), if_neg (by omega)]

theorem setUsed_seg {b : Block} (u : Bool) (hseg : Seg h.ram 0 0 (l ++ b :: r)) :
    Seg (h.setUsed (total l) u).ram 0 0 (l ++ ⟨b.size, u⟩ :: r) := by
  rw [seg_append, Nat.zero_add] at hseg ⊢
  obtain ⟨hl, hb, hpos, hr⟩ := hseg
  refine ⟨hl.update _ (by omega), ?_, hpos, hr.update _ (by omega)⟩
  simp [setUsed, setMem, hb]

theorem merge_seg {b c : Block} (hseg : Seg h.ram 0 0 (l ++ b :: c :: r)) :
    Seg ((h.setNext (total l) (total l + b.size + c.size)).setPrev
      (total l + b.size + c.size) (total l)).ram 0 0 (l ++ ⟨b.size + c.size, b.used⟩ :: r) := by
  rw [seg_append, Nat.zero_add] at hseg ⊢
  obtain ⟨hl, hb, hbpos, hc, hcpos, hr⟩ := hseg
  have hram : ∀ x, ((h.setNext (total l) (total l + b.size + c.size)).setPrev
      (total l + b.size + c.size) (total l)).ram x =
      if x = total l + b.size + c.size then { h.ram x with prev := total l }
      else if x = total l then { h.ram x with next := total l + b.size + c.size }
      else h.ram x := by
    intro x
    simp only [setPrev, setNext, setMem, Function.update_apply]
    split_ifs <;> first | rfl | omega | simp_all
  refine ⟨hl.congr fun x _ hx => ?_, ?_, by simp only; omega, ?_⟩
  · rw [hram, if_neg (by omega), if_neg (by omega)]
  · rw [hram, if_neg (by omega), if_pos rfl, hb]
    simp [Nat.add_assoc]
  · rw [← Nat.add_assoc]
    refine hr.relink _ (fun _ => ?_) fun x hx _ => ?_
    · rw [hram, if_pos rfl]
    · rw [hram, if_neg (by omega), if_neg (by omega)]

end

section

variable {h : Heap} {l r : List Block}

theorem Cut.at {b : Block} (hcut : Cut h (l ++ b :: r)) :
    h.ram (total l) = ⟨total l + b.size, last 0 0 l, b.used⟩ ∧ Seg h.ram 0 0 l ∧
      Seg h.ram (total l) (total l + b.size) r ∧
      total l + b.size + total r = memSizeAligned ∧ 0 < b.size := by
  have hseg := seg_append.mp hcut.seg
  have htotal := hcut.fills
  rw [total_append, total_cons] at htotal
  rw [Nat.zero_add] at hseg
  obtain ⟨hl, hb, hpos, hr⟩ := hseg
  exact ⟨hb, hl, hr, by omega, hpos⟩

theorem Cut.length_lt {bs : List Block} (hcut : Cut h bs) : bs.length < memSizeAligned := by
  have hlen := length_mul_le_total fun b hb => (hcut.big b hb).1
  rw [hcut.fills] at hlen
  simp only [memSizeAligned_eq, sizeofStructMem_eq, minSizeAligned_eq] at *
  omega

theorem Cut.link {b : Block} {mid : List Block} {n m : Nat} (hcut : Cut h (l ++ b :: (mid ++ r)))
    (hsum : n + m = b.size + total mid) (hn : Big ⟨n, b.used⟩) (hm : Big ⟨m, false⟩) :
    Cut (h.linkFree (total l) (total l + n) (total l + b.size + total mid))
      (l ++ ⟨n, b.used⟩ :: ⟨m, false⟩ :: r) := by
  obtain ⟨hb, hl, hrest, hend, hpos⟩ := hcut.at
  have hbig := hcut.big
  have hr := (seg_append.mp hrest).2
  rw [total_append] at hend
  have hnext : total l + b.size + total mid = total l + n + m := by omega
  have hsz : 0 < sizeofStructMem := by decide
  have hn1 : sizeofStructMem + minSizeAligned ≤ n := hn.1
  have hm1 : sizeofStructMem + minSizeAligned ≤ m := hm.1
  rw [hnext] at hr ⊢
  have hend' : total l + n + m + total r = memSizeAligned := by omega
  refine ⟨linkFree_seg (by omega) (by omega) hl (by rw [hb]) (by rw [hb]) hr hend', ?_, ?_, ?_⟩
  · simp only [total_append, total_cons]
    omega
  · have hram := linkFree_ram h (show total l < total l + n by omega)
      (show total l + n < total l + n + m by omega) Heap.ramEnd
    rw [hram, if_neg (by unfold Heap.ramEnd; omega), if_neg (by unfold Heap.ramEnd; omega), if_neg]
    · exact hcut.ramEnd
    · rintro ⟨heq, hne⟩
      exact hne heq.symm
  · simp only [List.forall_mem_append, List.forall_mem_cons] at hbig ⊢
    exact ⟨hbig.1, hn, hm, hbig.2.2.2⟩

theorem Cut.setUsed {b : Block} (u : Bool) (hcut : Cut h (l ++ b :: r)) :
    Cut (h.setUsed (total l) u) (l ++ ⟨b.size, u⟩ :: r) := by
  obtain ⟨-, -, -, hend, hpos⟩ := hcut.at
  have hbig := hcut.big
  refine ⟨setUsed_seg u hcut.seg, ?_, ?_, ?_⟩
  · simp only [total_append, total_cons]
    omega
  · have hne : Heap.ramEnd ≠ total l := by
      unfold Heap.ramEnd
      omega
    simp only [Heap.setUsed, setMem, Function.update_of_ne hne]
    exact hcut.ramEnd
  · simp only [List.forall_mem_append, List.forall_mem_cons] at hbig ⊢
    exact hbig

theorem Cut.merge {b c : Block} (hcut : Cut h (l ++ b :: c :: r)) :
    Cut ((h.setNext (total l) (total l + b.size + c.size)).setPrev
      (total l + b.size + c.size) (total l)) (l ++ ⟨b.size + c.size, b.used⟩ :: r) := by
  obtain ⟨-, -, -, hend, hpos⟩ := hcut.at
  have hbig := hcut.big
  rw [total_cons] at hend
  refine ⟨merge_seg hcut.seg, ?_, ?_, ?_⟩
  · simp only [total_append, total_cons]
    omega
  · have hne : Heap.ramEnd ≠ total l := by
      unfold Heap.ramEnd
      omega
    have hold := hcut.ramEnd
    simp only [setPrev, setNext, setMem, Function.update_apply]
    split_ifs <;> simp_all
  · simp only [List.forall_mem_append, List.forall_mem_cons] at hbig ⊢
    obtain ⟨hl, hb, hc, hr⟩ := hbig
    exact ⟨hl, ⟨Nat.le_add_right_of_le hb.1, Nat.dvd_add hb.2 hc.2⟩, hr⟩

end

/-! ## What is not written -/

/-- The headers that could lie in a block of `ls` stay as they were. -/
def Spares (h h' : Heap) (ls : List (Nat × Nat)) : Prop :=
  ∀ x ∈ ls, ∀ y, x.1 < y → y < x.1 + x.2 → h'.ram y = h.ram y

theorem Spares.trans {h h' h'' : Heap} {ls : List (Nat × Nat)} (h₁ : Spares h h' ls)
    (h₂ : Spares h' h'' ls) : Spares h h'' ls :=
  fun x hx y hlt hle => (h₂ x hx y hlt hle).trans (h₁ x hx y hlt hle)

theorem Spares.of_ram_eq {h h' : Heap} (heq : h'.ram = h.ram) (ls : List (Nat × Nat)) :
    Spares h h' ls := fun _ _ _ _ _ => by rw [heq]

theorem setMem_spares (h : Heap) {bs l : List Block} (hbs : l <+: bs) {x : Nat}
    (hx : x = total l) (v : StructMem) : Spares h (h.setMem x v) (live 0 bs) := by
  intro p hp y hlt hle
  obtain ⟨r, rfl⟩ := hbs
  have hcut := not_across_of_mem_live hp
  rw [Nat.zero_add] at hcut
  have hne : y ≠ x := by
    rintro rfl
    exact hcut ⟨hx ▸ hlt, hx ▸ hle⟩
  exact Function.update_of_ne hne v h.ram

theorem setNext_spares (h : Heap) {bs l : List Block} (hbs : l <+: bs) {x : Nat}
    (hx : x = total l) (next : Nat) : Spares h (h.setNext x next) (live 0 bs) :=
  setMem_spares h hbs hx _

theorem setPrev_spares (h : Heap) {bs l : List Block} (hbs : l <+: bs) {x : Nat}
    (hx : x = total l) (prev : Nat) : Spares h (h.setPrev x prev) (live 0 bs) :=
  setMem_spares h hbs hx _

theorem setUsed_spares (h : Heap) {bs l : List Block} (hbs : l <+: bs) (used : Bool) :
    Spares h (h.setUsed (total l) used) (live 0 bs) :=
  setMem_spares h hbs rfl _

theorem merge_spares (h : Heap) (l r : List Block) {b : Block} {next : Nat}
    (hnext : next = total l + b.size) (v w : Nat) :
    Spares h ((h.setNext (total l) v).setPrev next w) (live 0 (l ++ b :: r)) := by
  have h₁ : Spares h (h.setNext (total l) v) (live 0 (l ++ b :: r)) :=
    setNext_spares h (List.prefix_append l _) rfl v
  have hcut : l ++ [b] <+: l ++ b :: r := ⟨r, by simp⟩
  exact h₁.trans (setPrev_spares _ hcut (by simpa using hnext) w)

theorem linkFree_spares (h : Heap) (l r : List Block) {b c : Block} {next : Nat}
    (hnext : next = total l + b.size + c.size) :
    Spares h (h.linkFree (total l) (total l + b.size) next) (live 0 (l ++ b :: c :: r)) := by
  unfold linkFree
  dsimp only
  have hcut : l ++ [b] <+: l ++ b :: c :: r := ⟨c :: r, by simp⟩
  have hcut' : l ++ [b, c] <+: l ++ b :: c :: r := ⟨r, by simp⟩
  have hmid : total l + b.size = total (l ++ [b]) := by simp
  have h₁ := setMem_spares h hcut hmid ⟨next, total l, false⟩
  have h₂ := h₁.trans (setNext_spares _ (List.prefix_append l _) rfl (total l + b.size))
  split
  · refine h₂.trans (setPrev_spares _ hcut' ?_ _)
    simpa [Nat.add_assoc] using hnext
  · exact h₂

/-! ## `mem_malloc` -/

theorem linkFree_lfree (h : Heap) (ptr ptr2 next : Nat) :
    (h.linkFree ptr ptr2 next).lfree = h.lfree := by
  unfold linkFree
  dsimp only
  split <;> rfl

theorem takeFit_spec {h : Heap} {l r : List Block} {b : Block} {size : Nat}
    (ht : Tiles h (l ++ b :: r)) (hfits : Fits size b) (hmod : size % 4 = 0)
    (hmin : minSizeAligned ≤ size) :
    ∃ n mid, size + sizeofStructMem ≤ n ∧ live (total l + n) mid = [] ∧
      n + total mid = b.size ∧ Cut (h.takeFit size (total l)) (l ++ ⟨n, true⟩ :: (mid ++ r)) ∧
      Plugged (l ++ ⟨n, true⟩ :: (mid ++ r)) ∧ (h.takeFit size (total l)).lfree = h.lfree ∧
      Spares h (h.takeFit size (total l)) (live 0 (l ++ ⟨n, true⟩ :: (mid ++ r))) := by
  obtain ⟨hb, -, -, hend, -⟩ := ht.toCut.at
  obtain ⟨hfree, hle⟩ := hfits
  obtain ⟨hbbig, hbmod⟩ := ht.big b (by simp)
  have hafter : ∀ y ∈ r.head?, y.used = true := fun y hy => by
    simpa [hfree] using (plugged_append_cons.mp ht.plugged).2.2.2 y hy
  have h8 := sizeofStructMem_eq
  have h12 := minSizeAligned_eq
  unfold takeFit
  rw [hb]
  dsimp only
  split
  · next hroom =>
    have hcut : Cut h (l ++ b :: ([] ++ r)) := ht.toCut
    have hn : Big ⟨size + sizeofStructMem, b.used⟩ := ⟨by dsimp only; omega, by dsimp only; omega⟩
    have hm : Big ⟨b.size - (size + sizeofStructMem), false⟩ :=
      ⟨by dsimp only; omega, by dsimp only; omega⟩
    have hlink := (hcut.link (by simp only [total_nil]; omega) hn hm).setUsed true
    rw [total_nil, Nat.add_zero, Nat.add_comm size, ← Nat.add_assoc] at hlink
    refine ⟨sizeofStructMem + size, [⟨b.size - (sizeofStructMem + size), false⟩], by omega, rfl,
      by simp only [total_cons, total_nil]; omega, hlink, ht.plugged.split rfl hafter,
      linkFree_lfree h _ _ _, ?_⟩
    have hend' : total l + b.size =
        total l + (sizeofStructMem + size) + (b.size - (sizeofStructMem + size)) := by omega
    have hspare := linkFree_spares h l r (b := ⟨sizeofStructMem + size, true⟩)
      (c := ⟨b.size - (sizeofStructMem + size), false⟩) hend'
    rw [Nat.add_assoc]
    exact hspare.trans (setUsed_spares _ (List.prefix_append l _) true)
  · exact ⟨b.size, [], hle, rfl, by simp, ht.toCut.setUsed true, ht.plugged.setUsed rfl, rfl,
      setUsed_spares h (List.prefix_append l _) true⟩

theorem adjustLfree_tiles {h : Heap} {l₀ l r : List Block} {c : Block}
    (hcut : Cut h (l₀ ++ l ++ c :: r)) (hplugged : Plugged (l₀ ++ l ++ c :: r))
    (hl₀ : ∀ b ∈ l₀, b.used = true) (hl : ∀ b ∈ l.head?, b.used = false)
    (hlfree : h.lfree = total l₀) :
    Tiles (h.adjustLfree (total (l₀ ++ l))) (l₀ ++ l ++ c :: r) := by
  have hlen := hcut.length_lt
  unfold adjustLfree
  cases l with
  | nil =>
    rw [List.append_nil] at hcut hplugged hlen ⊢
    have hseg := seg_append.mp hcut.seg
    have hfills := hcut.fills
    rw [total_append] at hfills
    rw [Nat.zero_add] at hseg
    rw [List.length_append] at hlen
    rw [if_pos hlfree.symm, hlfree]
    refine ⟨⟨hcut.seg, hcut.fills, hcut.ramEnd, hcut.big⟩, ?_, hplugged⟩
    rw [firstFree_of_used hl₀, Nat.zero_add]
    exact nextFree_spec hseg.2 hfills (by omega)
  | cons b l =>
    have hb := hl b rfl
    have hpos : 0 < b.size := by
      have := (hcut.big b (by simp)).1
      rw [sizeofStructMem_eq] at this
      omega
    have hne : total (l₀ ++ b :: l) ≠ h.lfree := by
      rw [hlfree, total_append, total_cons]
      omega
    rw [if_neg hne]
    refine ⟨hcut, ?_, hplugged⟩
    rw [hlfree, List.append_assoc, firstFree_of_used hl₀, Nat.zero_add, List.cons_append, firstFree,
      hb]
    rfl

theorem adjustLfree_ram (h : Heap) (mem : Nat) : (h.adjustLfree mem).ram = h.ram := by
  unfold adjustLfree
  split <;> rfl

/-- The search from `lfree` misses nothing: no block in front of it fits. -/
theorem findFit_lfree {h : Heap} {bs : List Block} (ht : Tiles h bs) {size : Nat}
    (hzero : 0 < size) (hsize : size ≤ memSizeAligned) :
    (h.findFit size memSizeAligned h.lfree = none ∧ ∀ b ∈ bs, ¬ Fits size b) ∨
      ∃ l₀ l b r, bs = l₀ ++ l ++ b :: r ∧
        h.findFit size memSizeAligned h.lfree = some (total (l₀ ++ l)) ∧ Fits size b ∧
        (∀ c ∈ l₀ ++ l, ¬ Fits size c) ∧ (∀ c ∈ l₀, c.used = true) ∧
        (∀ c ∈ l.head?, c.used = false) ∧ h.lfree = total l₀ := by
  obtain ⟨l₀, r₀, rfl, hl₀, hfirst, hhead⟩ := exists_firstFree 0 bs
  have hlen := ht.length_lt
  rw [List.length_append] at hlen
  have hseg := seg_append.mp ht.seg
  have hfills := ht.fills
  rw [total_append] at hfills
  rw [Nat.zero_add] at hseg hfirst
  have hlfree : h.lfree = total l₀ := ht.lfree.trans hfirst
  have hnot : ∀ b ∈ l₀, ¬ Fits size b := fun b hb hfits => by
    rw [Fits, hl₀ b hb] at hfits
    exact absurd hfits.1 (by decide)
  rw [hlfree]
  rcases findFit_spec size hzero hsize hseg.2 hfills
    (show r₀.length < memSizeAligned by omega) with ⟨hnone, hall⟩ | ⟨l, b, r, rfl, hsome, hfits, hl⟩
  · refine .inl ⟨hnone, fun b hb => ?_⟩
    rcases List.mem_append.mp hb with hb | hb
    · exact hnot b hb
    · exact hall b hb
  · refine .inr ⟨l₀, l, b, r, (List.append_assoc ..).symm, by rw [hsome, total_append], hfits,
      List.forall_mem_append.mpr ⟨hnot, hl⟩, hl₀, fun c hc => ?_, rfl⟩
    rw [Option.mem_def] at hc
    exact hhead c (by rw [List.head?_append, hc, Option.some_or])

/-- `mem_malloc` takes a block that was free and has the room, and leaves the others as they were,
or it changes nothing. -/
theorem memMalloc_spec {h : Heap} {bs : List Block} (ht : Tiles h bs) (size : MemSizeT) :
    (h.memMalloc size).1 = none ∧ (h.memMalloc size).2 = h ∨
      ∃ bs' l r a n, (h.memMalloc size).1 = some (a + sizeofStructMem) ∧
        Tiles (h.memMalloc size).2 bs' ∧ live 0 bs = l ++ r ∧ live 0 bs' = l ++ (a, n) :: r ∧
        roundSize size + sizeofStructMem ≤ n ∧ Spares h (h.memMalloc size).2 (live 0 bs') := by
  unfold memMalloc
  split
  · exact .inl ⟨rfl, rfl⟩
  dsimp only
  split
  · exact .inl ⟨rfl, rfl⟩
  next hsize hle =>
  obtain ⟨hmod, hmin, -, -⟩ := roundSize_spec size
  have h12 := minSizeAligned_eq
  rcases findFit_lfree ht (show 0 < roundSize size by omega) (by omega) with
    ⟨hnone, -⟩ | ⟨l₀, l, b, r, rfl, hsome, hfits, -, hl₀, hl, hlfree⟩
  · rw [hnone]
    exact .inl ⟨rfl, rfl⟩
  · rw [hsome]
    obtain ⟨k, mid, hk, hmid, hsum, hcut, hplugged, hkeep, hspare⟩ :=
      takeFit_spec ht hfits hmod hmin
    have hfree := adjustLfree_tiles hcut hplugged hl₀ hl (hkeep.trans hlfree)
    refine .inr ⟨_, live 0 (l₀ ++ l), live (total (l₀ ++ l) + b.size) r, total (l₀ ++ l), k, rfl,
      hfree, ?_, ?_, hk, hspare.trans (.of_ram_eq (adjustLfree_ram _ _) _)⟩
    · rw [live_append 0 (l₀ ++ l), live, hfits.1, Nat.zero_add]
      rfl
    · rw [live_append 0 (l₀ ++ l), live, if_pos rfl, live_append _ mid, Nat.zero_add, hmid,
        Nat.add_assoc, hsum]
      rfl

theorem memMalloc_some_iff {h : Heap} {bs : List Block} (ht : Tiles h bs) (size : MemSizeT)
    (p : Nat) :
    (h.memMalloc size).1 = some p ↔ size ≠ 0 ∧ ∃ l b r, bs = l ++ b :: r ∧
      p = total l + sizeofStructMem ∧ Fits (roundSize size) b ∧
      ∀ c ∈ l, ¬ Fits (roundSize size) c := by
  obtain ⟨-, hmin, -, -⟩ := roundSize_spec size
  have h12 := minSizeAligned_eq
  unfold memMalloc
  split
  · next h0 => simp [h0]
  dsimp only
  split
  · next hbig =>
    have hnone : ∀ b ∈ bs, ¬ Fits (roundSize size) b := fun b hb hfits => by
      have := size_le_total hb
      have := ht.fills
      have := hfits.2
      omega
    simp only [reduceCtorEq, false_iff]
    rintro ⟨-, l, b, r, rfl, -, hfits, -⟩
    exact hnone b (by simp) hfits
  next hsize hle =>
  rcases findFit_lfree ht (show 0 < roundSize size by omega) (by omega) with
    ⟨hnone, hall⟩ | ⟨l₀, l, b, r, rfl, hsome, hfits, hl, -⟩
  · rw [hnone]
    simp only [reduceCtorEq, false_iff]
    rintro ⟨-, l, b, r, rfl, -, hfits, -⟩
    exact hall b (by simp) hfits
  · rw [hsome]
    simp only [Option.some.injEq]
    constructor
    · rintro rfl
      exact ⟨hsize, l₀ ++ l, b, r, rfl, rfl, hfits, hl⟩
    · rintro ⟨-, l', b', r', heq, rfl, hfits', hl'⟩
      rw [eq_of_first hfits hl hfits' hl' heq]

/-! ## `mem_free` and `mem_trim` -/

theorem plugHoleForward_spec {h : Heap} {l r : List Block} {n : Nat}
    (hcut : Cut h (l ++ ⟨n, false⟩ :: r)) (hlfree : h.lfree = firstFree 0 (l ++ ⟨n, false⟩ :: r))
    (hr : Plugged r) :
    ∃ m r', Cut (h.plugHoleForward (total l)) (l ++ ⟨m, false⟩ :: r') ∧
      (h.plugHoleForward (total l)).lfree = h.lfree ∧ Plugged r' ∧
      (∀ y ∈ r'.head?, y.used = true) ∧ live (total l + m) r' = live (total l + n) r ∧
      Spares h (h.plugHoleForward (total l)) (live 0 (l ++ ⟨m, false⟩ :: r')) := by
  obtain ⟨hb, hl, hrest, hend, hpos⟩ := hcut.at
  have hle : h.lfree ≤ total l := by
    have := firstFree_le (a := 0) l r (b := ⟨n, false⟩) rfl
    omega
  unfold plugHoleForward
  rw [hb]
  dsimp only at *
  cases r with
  | nil =>
    have hlast : total l + n = ramEnd := by simpa [ramEnd] using hend
    rw [if_neg (by simp [hlast])]
    exact ⟨n, [], hcut, rfl, hr, by simp, rfl, .of_ram_eq rfl _⟩
  | cons c r =>
    obtain ⟨hc, hcpos, -⟩ := hrest
    rw [total_cons] at hend
    have hin : total l + n ≠ ramEnd := by
      unfold ramEnd
      omega
    rw [hc]
    split
    · next hfree =>
      rw [if_neg (by omega)]
      have hnext : (h.setNext (total l) (total l + n + c.size)).ram (total l + n) =
          h.ram (total l + n) := by
        simp only [setNext, setMem]
        exact Function.update_of_ne (by omega) _ _
      rw [hc, hnext, hc]
      refine ⟨n + c.size, r, hcut.merge, rfl, ?_, fun y hy => ?_, ?_,
        merge_spares h l r (by dsimp only; omega) _ _⟩
      · exact (plugged_append_cons.mp (show Plugged ([] ++ c :: r) from hr)).2.1
      · have := (plugged_append_cons.mp (show Plugged ([] ++ c :: r) from hr)).2.2.2 y hy
        simpa [show c.used = false from hfree.2.1] using this
      · rw [live, if_neg (by simp [show c.used = false from hfree.2.1]), Nat.add_assoc]
    · next hused =>
      refine ⟨n, c :: r, hcut, rfl, hr, fun y hy => ?_, rfl, .of_ram_eq rfl _⟩
      cases hy
      by_contra hfree
      exact hused ⟨by omega, by simpa using hfree, hin⟩

theorem plugHoleBackward_spec {h : Heap} {l r : List Block} {n : Nat}
    (hcut : Cut h (l ++ ⟨n, false⟩ :: r)) (hlfree : h.lfree = firstFree 0 (l ++ ⟨n, false⟩ :: r))
    (hl : Plugged l) (hr : Plugged r) (hafter : ∀ y ∈ r.head?, y.used = true) :
    ∃ bs, Tiles (h.plugHoleBackward (total l)) bs ∧
      live 0 bs = live 0 l ++ live (total l + n) r ∧
      Spares h (h.plugHoleBackward (total l)) (live 0 bs) := by
  obtain ⟨hb, hlseg, hrest, hend, hpos⟩ := hcut.at
  unfold plugHoleBackward
  rw [hb]
  dsimp only at *
  rcases List.eq_nil_or_concat l with rfl | ⟨l, c, rfl⟩
  · rw [if_neg (by simp [last])]
    refine ⟨⟨n, false⟩ :: r, ⟨hcut, hlfree, ?_⟩, by simp [live], .of_ram_eq rfl _⟩
    exact plugged_append_cons.mpr ⟨.nil, hr, by simp, fun y hy => .inr (hafter y hy)⟩
  · rw [List.concat_eq_append] at *
    have hlast : last 0 0 (l ++ [c]) = total l := by
      rw [last_append, Nat.zero_add]
      rfl
    have hc := seg_append.mp hlseg
    rw [Nat.zero_add] at hc
    obtain ⟨-, hc, hcpos, -⟩ := hc
    rw [hlast, hc]
    have htotal : total (l ++ [c]) = total l + c.size := by simp
    split
    · next hfree =>
      have hcfree : c.used = false := hfree.2
      have hmem : h.lfree ≠ total (l ++ [c]) := by
        have := firstFree_le (a := 0) l (⟨n, false⟩ :: r) hcfree
        rw [List.append_assoc] at hlfree
        simp only [List.cons_append, List.nil_append] at hlfree
        omega
      rw [if_neg hmem]
      have hnext : (h.setNext (total l) (total (l ++ [c]) + n)).ram (total (l ++ [c])) =
          h.ram (total (l ++ [c])) := by
        simp only [setNext, setMem]
        exact Function.update_of_ne (by omega) _ _
      rw [hb, hnext, hb, htotal]
      have hcut' : Cut h (l ++ c :: ⟨n, false⟩ :: r) := by
        rw [List.append_assoc] at hcut
        exact hcut
      have hplug := plugged_append_cons.mp hl
      refine ⟨_, ⟨hcut'.merge, ?_, ?_⟩, ?_, merge_spares h l r (by dsimp only; omega) _ _⟩
      · refine hlfree.trans ?_
        rw [List.append_assoc]
        exact firstFree_congr l hcfree (c := ⟨c.size + n, c.used⟩) hcfree _ _
      · exact plugged_append_cons.mpr ⟨hplug.1, hr, hplug.2.2.1, fun y hy => .inr (hafter y hy)⟩
      · rw [live_append, live_append, live, live, hcfree, Nat.zero_add]
        simp [live, Nat.add_assoc]
    · next hused =>
      have hcused : c.used = true := by
        by_contra hfree
        exact hused ⟨by omega, by simpa using hfree⟩
      refine ⟨_, ⟨hcut, hlfree, ?_⟩, ?_, .of_ram_eq rfl _⟩
      · refine plugged_append_cons.mpr ⟨hl, hr, fun x hx => ?_, fun y hy => .inr (hafter y hy)⟩
        rw [List.getLast?_concat, Option.mem_some_iff] at hx
        exact .inl (hx ▸ hcused)
      · rw [live_append, Nat.zero_add, live]
        rfl

theorem memFree_spec {h : Heap} {bs : List Block} (ht : Tiles h bs) {a n : Nat}
    (ha : (a, n) ∈ live 0 bs) :
    ∃ bs' l r, Tiles (h.memFree (some (a + sizeofStructMem))) bs' ∧
      live 0 bs = l ++ (a, n) :: r ∧ live 0 bs' = l ++ r ∧
      Spares h (h.memFree (some (a + sizeofStructMem))) (live 0 bs') := by
  obtain ⟨l, r, rfl, hla⟩ := exists_of_mem_live ha
  rw [Nat.zero_add] at hla
  obtain rfl : a = total l := hla
  obtain ⟨hb, hlseg, hrest, hend, hpos⟩ := ht.toCut.at
  have hbig := (ht.big ⟨n, true⟩ (by simp)).1
  have hplug := plugged_append_cons.mp ht.plugged
  have h8 := sizeofStructMem_eq
  have h12 := minSizeAligned_eq
  dsimp only at *
  have hlegal : ¬ ramEnd ≤ total l + sizeofStructMem := by
    unfold ramEnd
    omega
  unfold memFree
  dsimp only
  rw [if_neg hlegal, Nat.add_sub_cancel]
  -- the struct is unused, and `lfree` at the first unused one
  set h₀ := (h.setUsed (total l) false).lowerLfree (total l) with hh₀
  have hcut : Cut h₀ (l ++ ⟨n, false⟩ :: r) := by
    have h1 : Cut (h.setUsed (total l) false) (l ++ ⟨n, false⟩ :: r) := ht.toCut.setUsed false
    rw [hh₀]
    unfold lowerLfree
    split
    · exact ⟨h1.seg, h1.fills, h1.ramEnd, h1.big⟩
    · exact h1
  have hlow : h₀.lfree = firstFree 0 (l ++ ⟨n, false⟩ :: r) := by
    have hins := firstFree_insert (a := 0) l [] (b := ⟨n, true⟩) (c := ⟨n, false⟩) r r (by simp) rfl
      rfl hpos
    rw [List.nil_append, total_nil, Nat.add_zero, Nat.zero_add, ← ht.lfree] at hins
    rw [hins, hh₀]
    unfold lowerLfree
    have hkeep : (h.setUsed (total l) false).lfree = h.lfree := rfl
    rw [hkeep]
    split
    · rfl
    · rfl
  have hspare : Spares h h₀ (live 0 (l ++ ⟨n, false⟩ :: r)) := by
    refine (setUsed_spares h (List.prefix_append l _) false).trans (.of_ram_eq ?_ _)
    rw [hh₀]
    unfold lowerLfree
    split <;> rfl
  obtain ⟨m, r', hcut', hlf, hplug', hafter, hlive, hspare'⟩ :=
    plugHoleForward_spec hcut hlow hplug.2.1
  have hlow' : (h₀.plugHoleForward (total l)).lfree = firstFree 0 (l ++ ⟨m, false⟩ :: r') :=
    hlf.trans (hlow.trans (firstFree_congr l (b := ⟨n, false⟩) (c := ⟨m, false⟩) rfl rfl r r'))
  obtain ⟨bs', ht', hlive', hspare''⟩ := plugHoleBackward_spec hcut' hlow' hplug.1 hplug' hafter
  have hkeep : ∀ m r', live (total l + m) r' = live (total l + n) r →
      live 0 (l ++ ⟨m, false⟩ :: r') = live 0 bs' := fun m r' hr => by
    rw [hlive', hlive, live_append, live, if_neg (by simp), Nat.zero_add, hr]
  rw [hkeep n r rfl] at hspare
  rw [hkeep m r' hlive] at hspare'
  refine ⟨bs', live 0 l, live (total l + n) r, ht', ?_, hlive'.trans (by rw [hlive]),
    (hspare.trans hspare').trans hspare''⟩
  rw [live_append, live, if_pos rfl, Nat.zero_add]

section

variable {h : Heap} {l r : List Block} {n k : Nat}

theorem trimBeforeFree_tiles {c : Block} (ht : Tiles h (l ++ ⟨n, true⟩ :: c :: r))
    (hfree : c.used = false) (hk : Big ⟨sizeofStructMem + k, true⟩)
    (hlt : sizeofStructMem + k < n) :
    ∃ m, sizeofStructMem + k + m = n + c.size ∧
      Tiles ((if h.lfree = total l + n then { h with lfree := total l + sizeofStructMem + k }
        else h).linkFree (total l) (total l + sizeofStructMem + k) (total l + n + c.size))
        (l ++ ⟨sizeofStructMem + k, true⟩ :: ⟨m, false⟩ :: r) ∧
      Spares h ((if h.lfree = total l + n then { h with lfree := total l + sizeofStructMem + k }
        else h).linkFree (total l) (total l + sizeofStructMem + k) (total l + n + c.size))
        (live 0 (l ++ ⟨sizeofStructMem + k, true⟩ :: ⟨m, false⟩ :: r)) := by
  have hplug : Plugged ((l ++ [⟨n, true⟩]) ++ c :: r) := by simpa using ht.plugged
  have hafter : ∀ y ∈ r.head?, y.used = true := fun y hy => by
    simpa [hfree] using (plugged_append_cons.mp hplug).2.2.2 y hy
  have hcut : Cut (if h.lfree = total l + n then
      { h with lfree := total l + sizeofStructMem + k } else h) (l ++ ⟨n, true⟩ :: ([c] ++ r)) := by
    split
    · exact ⟨ht.seg, ht.fills, ht.ramEnd, ht.big⟩
    · exact ht.toCut
  obtain ⟨m, hm⟩ : ∃ m, sizeofStructMem + k + m = n + c.size :=
    ⟨n + c.size - (sizeofStructMem + k), by omega⟩
  have hmbig : Big ⟨m, false⟩ := by
    obtain ⟨hc, hcmod⟩ := ht.big c (by simp)
    obtain ⟨-, hnmod⟩ := ht.big ⟨n, true⟩ (by simp)
    obtain ⟨-, hkmod⟩ := hk
    exact ⟨by dsimp only; omega, by dsimp only at *; omega⟩
  have hlink := hcut.link (by simpa using hm) hk hmbig
  simp only [total_cons, total_nil, Nat.add_zero, ← Nat.add_assoc] at hlink
  have hspare : ∀ h₁ : Heap, h₁.ram = h.ram → Spares h (h₁.linkFree (total l)
      (total l + sizeofStructMem + k) (total l + n + c.size))
      (live 0 (l ++ ⟨sizeofStructMem + k, true⟩ :: ⟨m, false⟩ :: r)) := fun h₁ heq => by
    refine (Spares.of_ram_eq heq _).trans ?_
    rw [Nat.add_assoc]
    exact linkFree_spares h₁ l r (by dsimp only; omega)
  refine ⟨m, hm, ⟨hlink, ?_, ?_⟩, hspare _ (by split <;> rfl)⟩
  · have hshrink := firstFree_shrink (a := 0) l r (b := ⟨n, true⟩)
      (d := ⟨sizeofStructMem + k, true⟩) (c := c) (e := ⟨m, false⟩) (by dsimp only; omega)
      rfl rfl hfree rfl
    rw [hshrink, linkFree_lfree, ← ht.lfree, Nat.zero_add, Nat.add_assoc]
    split <;> rfl
  · have hfirst : Plugged (l ++ ⟨sizeofStructMem + k, true⟩ :: c :: r) := ht.plugged.resize rfl
    have hsplit : Plugged ((l ++ [⟨sizeofStructMem + k, true⟩]) ++ c :: r) := by simpa using hfirst
    simpa using hsplit.resize (c := ⟨m, false⟩) hfree.symm

theorem trimBeforeUsed_tiles (ht : Tiles h (l ++ ⟨n, true⟩ :: r))
    (hafter : ∀ y ∈ r.head?, y.used = true) (hk : Big ⟨sizeofStructMem + k, true⟩)
    (hlt : k + sizeofStructMem + minSizeAligned ≤ n - sizeofStructMem) :
    ∃ m, sizeofStructMem + k + m = n ∧
      Tiles ((h.lowerLfree (total l + sizeofStructMem + k)).linkFree (total l)
        (total l + sizeofStructMem + k) (total l + n))
        (l ++ ⟨sizeofStructMem + k, true⟩ :: ⟨m, false⟩ :: r) ∧
      Spares h ((h.lowerLfree (total l + sizeofStructMem + k)).linkFree (total l)
        (total l + sizeofStructMem + k) (total l + n))
        (live 0 (l ++ ⟨sizeofStructMem + k, true⟩ :: ⟨m, false⟩ :: r)) := by
  have h8 := sizeofStructMem_eq
  obtain ⟨m, hm⟩ : ∃ m, sizeofStructMem + k + m = n := ⟨n - (sizeofStructMem + k), by omega⟩
  have hmbig : Big ⟨m, false⟩ := by
    obtain ⟨-, hnmod⟩ := ht.big ⟨n, true⟩ (by simp)
    obtain ⟨-, hkmod⟩ := hk
    exact ⟨by dsimp only; omega, by dsimp only at *; omega⟩
  have hcut : Cut (h.lowerLfree (total l + sizeofStructMem + k)) (l ++ ⟨n, true⟩ :: ([] ++ r)) := by
    unfold lowerLfree
    split
    · exact ⟨ht.seg, ht.fills, ht.ramEnd, ht.big⟩
    · exact ht.toCut
  have hlink := hcut.link (by simpa using hm) hk hmbig
  simp only [total_nil, Nat.add_zero, ← Nat.add_assoc] at hlink
  have hspare : ∀ h₁ : Heap, h₁.ram = h.ram → Spares h (h₁.linkFree (total l)
      (total l + sizeofStructMem + k) (total l + n))
      (live 0 (l ++ ⟨sizeofStructMem + k, true⟩ :: ⟨m, false⟩ :: r)) := fun h₁ heq => by
    refine (Spares.of_ram_eq heq _).trans ?_
    rw [Nat.add_assoc]
    exact linkFree_spares h₁ l r (by dsimp only; omega)
  refine ⟨m, hm, ⟨hlink, ?_, ht.plugged.split rfl hafter⟩,
    hspare _ (by unfold lowerLfree; split <;> rfl)⟩
  have hins := firstFree_insert (a := 0) l [⟨sizeofStructMem + k, true⟩] (b := ⟨n, true⟩)
    (c := ⟨m, false⟩) r r (by simp) rfl rfl (by simp; omega)
  rw [← ht.lfree, Nat.zero_add, total_cons, total_nil, Nat.add_zero] at hins
  rw [linkFree_lfree]
  refine Eq.trans ?_ hins.symm
  unfold lowerLfree
  rw [Nat.add_assoc]
  split <;> rfl

end

/-- `mem_trim` gives back the tail of a block, or nothing when it is too small for a struct. -/
theorem memTrim_spec {h : Heap} {bs : List Block} (ht : Tiles h bs) {a n : Nat}
    (ha : (a, n) ∈ live 0 bs) (newsize : MemSizeT) :
    (h.memTrim (a + sizeofStructMem) newsize = (none, h) ∧
        n < roundSize newsize + sizeofStructMem) ∨
      ∃ bs' l r n', (h.memTrim (a + sizeofStructMem) newsize).1 = some (a + sizeofStructMem) ∧
        Tiles (h.memTrim (a + sizeofStructMem) newsize).2 bs' ∧ live 0 bs = l ++ (a, n) :: r ∧
        live 0 bs' = l ++ (a, n') :: r ∧ n' ≤ n ∧ roundSize newsize + sizeofStructMem ≤ n' ∧
        Spares h (h.memTrim (a + sizeofStructMem) newsize).2 (live 0 bs') := by
  obtain ⟨l, r, rfl, hla⟩ := exists_of_mem_live ha
  rw [Nat.zero_add] at hla
  obtain rfl : a = total l := hla
  obtain ⟨hb, -, hrest, hend, hpos⟩ := ht.toCut.at
  obtain ⟨hbig, hbmod⟩ := ht.big ⟨n, true⟩ (by simp)
  obtain ⟨hmod, hmin, -, -⟩ := roundSize_spec newsize
  have h8 := sizeofStructMem_eq
  have h12 := minSizeAligned_eq
  have hlive : ∀ n' r', live 0 (l ++ ⟨n', true⟩ :: r') =
      live 0 l ++ (total l, n') :: live (total l + n') r' := fun n' r' => by
    rw [live_append, live, if_pos rfl, Nat.zero_add]
  dsimp only at *
  have hlegal : ¬ ramEnd ≤ total l + sizeofStructMem := by
    unfold ramEnd
    omega
  unfold memTrim
  dsimp only
  rw [if_neg hlegal, Nat.add_sub_cancel, hb]
  dsimp only
  set k := roundSize newsize with hk
  split
  · exact .inl ⟨rfl, by omega⟩
  split
  · exact .inl ⟨rfl, by omega⟩
  refine .inr ?_
  split
  · exact ⟨_, live 0 l, live (total l + n) r, n, rfl, ht, hlive n r, hlive n r, le_rfl, by omega,
      .of_ram_eq rfl _⟩
  next hle hne =>
  have hkbig : Big ⟨sizeofStructMem + k, true⟩ := ⟨by dsimp only; omega, by dsimp only; omega⟩
  split
  · next hfree =>
    cases r with
    | nil =>
      have hlast : total l + n = ramEnd := by simpa [ramEnd] using hend
      rw [hlast, ht.ramEnd] at hfree
      cases hfree
    | cons c r =>
      obtain ⟨hc, -, -⟩ := hrest
      rw [hc] at hfree ⊢
      dsimp only at hfree ⊢
      obtain ⟨m, hm, htiles, hspare⟩ := trimBeforeFree_tiles ht hfree hkbig (by omega)
      refine ⟨_, live 0 l, live (total l + n) (c :: r), sizeofStructMem + k, rfl, htiles,
        hlive _ _, ?_, by omega, by omega, hspare⟩
      have hcut : total l + (sizeofStructMem + k) + m = total l + n + c.size := by omega
      rw [hlive, live, live, hfree, hcut]
      rfl
  · next hused =>
    split
    · next hroom =>
      have hafter : ∀ y ∈ r.head?, y.used = true := fun y hy => by
        cases r with
        | nil => cases hy
        | cons c r =>
          cases hy
          rw [hrest.1] at hused
          simpa using hused
      obtain ⟨m, hm, htiles, hspare⟩ := trimBeforeUsed_tiles ht hafter hkbig (by omega)
      refine ⟨_, live 0 l, live (total l + n) r, sizeofStructMem + k, rfl, htiles, hlive _ _, ?_,
        by omega, by omega, hspare⟩
      have hcut : total l + (sizeofStructMem + k) + m = total l + n := by omega
      rw [hlive, live, hcut]
      rfl
    · exact ⟨_, live 0 l, live (total l + n) r, n, rfl, ht, hlive n r, hlive n r, le_rfl, by omega,
      .of_ram_eq rfl _⟩

end Heap

end FreeLwip.Core.Mem
