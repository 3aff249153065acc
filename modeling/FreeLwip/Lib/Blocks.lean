import Mathlib.Data.List.Basic
import Mathlib.Data.List.Chain
import Mathlib.Logic.Function.Basic

/-!
# Rows of blocks

A region of memory cut into blocks that follow one another. Each starts with a header: where the
next block starts, where the one before starts, and whether the block is in use. `Seg` says that
the headers in a memory are those of a list of blocks.
-/

namespace FreeLwip.Blocks

structure Header where
  next : Nat
  prev : Nat
  used : Bool
  deriving DecidableEq, Repr

/-- A block with its size, header included. -/
structure Block where
  size : Nat
  used : Bool
  deriving DecidableEq, Repr

def total : List Block → Nat
  | [] => 0
  | b :: bs => b.size + total bs

/-- Where the last block starts; `p` if there is none. -/
def last : Nat → Nat → List Block → Nat
  | p, _, [] => p
  | _, a, b :: bs => last a (a + b.size) bs

/-- The blocks `bs` stand in memory from `a` on, and the block before them starts at `p`. -/
def Seg (ram : Nat → Header) : Nat → Nat → List Block → Prop
  | _, _, [] => True
  | p, a, b :: bs => ram a = ⟨a + b.size, p, b.used⟩ ∧ 0 < b.size ∧ Seg ram a (a + b.size) bs

@[simp] theorem total_nil : total [] = 0 := rfl

@[simp] theorem total_cons (b : Block) (bs : List Block) : total (b :: bs) = b.size + total bs :=
  rfl

@[simp] theorem total_append (bs cs : List Block) : total (bs ++ cs) = total bs + total cs := by
  induction bs with
  | nil => simp
  | cons b bs ih => simp [ih, Nat.add_assoc]

theorem size_le_total {b : Block} {bs : List Block} (h : b ∈ bs) : b.size ≤ total bs := by
  obtain ⟨l, r, rfl⟩ := List.append_of_mem h
  rw [total_append, total_cons]
  omega

theorem dvd_total {k : Nat} {bs : List Block} (h : ∀ b ∈ bs, k ∣ b.size) : k ∣ total bs := by
  induction bs with
  | nil => simp
  | cons b bs ih =>
    rw [List.forall_mem_cons] at h
    rw [total_cons]
    exact Nat.dvd_add h.1 (ih h.2)

theorem length_mul_le_total {k : Nat} {bs : List Block} (h : ∀ b ∈ bs, k ≤ b.size) :
    bs.length * k ≤ total bs := by
  induction bs with
  | nil => simp
  | cons b bs ih =>
    rw [List.forall_mem_cons] at h
    have := ih h.2
    rw [List.length_cons, total_cons, Nat.succ_mul]
    omega

theorem last_append (p a : Nat) (bs cs : List Block) :
    last p a (bs ++ cs) = last (last p a bs) (a + total bs) cs := by
  induction bs generalizing p a with
  | nil => rfl
  | cons b bs ih => simp [last, ih, Nat.add_assoc]

section

variable {ram ram' : Nat → Header} {p a : Nat}

theorem seg_append {bs cs : List Block} :
    Seg ram p a (bs ++ cs) ↔ Seg ram p a bs ∧ Seg ram (last p a bs) (a + total bs) cs := by
  induction bs generalizing p a with
  | nil => simp [Seg, last]
  | cons b bs ih => simp [Seg, last, ih, and_assoc, Nat.add_assoc]

theorem Seg.congr {bs : List Block} (h : Seg ram p a bs)
    (heq : ∀ x, a ≤ x → x < a + total bs → ram' x = ram x) : Seg ram' p a bs := by
  induction bs generalizing p a with
  | nil => trivial
  | cons b bs ih =>
    obtain ⟨hb, hpos, hrest⟩ := h
    rw [total_cons] at heq
    refine ⟨(heq a le_rfl (by omega)).trans hb, hpos, ih hrest fun x hx hlt => ?_⟩
    exact heq x (by omega) (by omega)

theorem Seg.write {l r : List Block} {b : Block} (h : Seg ram p a (l ++ b :: r))
    (heq : ∀ x, x ≤ a + total l ∨ a + total l + b.size ≤ x → ram' x = ram x) :
    Seg ram' p a (l ++ b :: r) := by
  obtain ⟨hl, hb, hpos, hr⟩ := seg_append.mp h
  refine seg_append.mpr ⟨hl.congr fun x _ hlt => heq x (by omega), (heq _ (by omega)).trans hb,
    hpos, hr.congr fun x hle _ => heq x (by omega)⟩

theorem Seg.update {bs : List Block} (h : Seg ram p a bs) {x : Nat} (v : Header)
    (hx : x < a ∨ a + total bs ≤ x) : Seg (Function.update ram x v) p a bs := by
  apply h.congr
  intro y hy hlt
  have hne : y ≠ x := by omega
  exact Function.update_of_ne hne v ram

theorem Seg.relink {bs : List Block} (h : Seg ram p a bs) (q : Nat)
    (hq : bs ≠ [] → ram' a = { ram a with prev := q })
    (heq : ∀ x, a < x → x < a + total bs → ram' x = ram x) : Seg ram' q a bs := by
  cases bs with
  | nil => trivial
  | cons b bs =>
    obtain ⟨hb, hpos, hrest⟩ := h
    rw [total_cons] at heq
    refine ⟨?_, hpos, hrest.congr fun x hx hlt => heq x (by omega) (by omega)⟩
    rw [hq (List.cons_ne_nil _ _), hb]

end

/-! ## The blocks in use -/

/-- Address and size of each block in use. -/
def live : Nat → List Block → List (Nat × Nat)
  | _, [] => []
  | a, b :: bs => if b.used then (a, b.size) :: live (a + b.size) bs else live (a + b.size) bs

theorem live_append (a : Nat) (bs cs : List Block) :
    live a (bs ++ cs) = live a bs ++ live (a + total bs) cs := by
  induction bs generalizing a with
  | nil => rfl
  | cons b bs ih =>
    simp only [List.cons_append, live, total_cons, ih, Nat.add_assoc]
    split <;> rfl

theorem live_bounds {a : Nat} {bs : List Block} {x : Nat × Nat} (h : x ∈ live a bs) :
    a ≤ x.1 ∧ x.1 + x.2 ≤ a + total bs := by
  induction bs generalizing a with
  | nil => cases h
  | cons b bs ih =>
    rw [live] at h
    rw [total_cons]
    have hrest : x ∈ live (a + b.size) bs → a ≤ x.1 ∧ x.1 + x.2 ≤ a + (b.size + total bs) := by
      intro hx
      have := ih hx
      omega
    split at h
    · rcases List.mem_cons.mp h with rfl | h
      · simp
      · exact hrest h
    · exact hrest h

theorem live_pairwise (a : Nat) (bs : List Block) :
    (live a bs).Pairwise fun x y => x.1 + x.2 ≤ y.1 := by
  induction bs generalizing a with
  | nil => exact .nil
  | cons b bs ih =>
    rw [live]
    split
    · exact List.pairwise_cons.mpr ⟨fun y hy => (live_bounds hy).1, ih _⟩
    · exact ih _

theorem live_apart {a : Nat} {bs : List Block} {x y : Nat × Nat} (hx : x ∈ live a bs)
    (hy : y ∈ live a bs) (hne : x.1 ≠ y.1) : x.1 + x.2 ≤ y.1 ∨ y.1 + y.2 ≤ x.1 := by
  have hsorted := live_pairwise a bs
  generalize live a bs = ls at *
  induction ls with
  | nil => cases hx
  | cons z ls ih =>
    rw [List.pairwise_cons] at hsorted
    rcases List.mem_cons.mp hx with rfl | hx' <;> rcases List.mem_cons.mp hy with rfl | hy'
    · exact absurd rfl hne
    · exact .inl (hsorted.1 y hy')
    · exact .inr (hsorted.1 x hx')
    · exact ih hx' hy' hsorted.2

theorem not_across_of_mem_live {a : Nat} {l r : List Block} {x : Nat × Nat}
    (h : x ∈ live a (l ++ r)) : ¬ (x.1 < a + total l ∧ a + total l < x.1 + x.2) := by
  rw [live_append, List.mem_append] at h
  rcases h with h | h
  · have := (live_bounds h).2
    omega
  · have := (live_bounds h).1
    omega

theorem exists_of_mem_live {a : Nat} {bs : List Block} {x : Nat × Nat} (h : x ∈ live a bs) :
    ∃ l r, bs = l ++ ⟨x.2, true⟩ :: r ∧ x.1 = a + total l := by
  induction bs generalizing a with
  | nil => cases h
  | cons b bs ih =>
    rw [live] at h
    have hrest : x ∈ live (a + b.size) bs →
        ∃ l r, b :: bs = l ++ ⟨x.2, true⟩ :: r ∧ x.1 = a + total l := by
      intro hx
      obtain ⟨l, r, rfl, hx1⟩ := ih hx
      exact ⟨b :: l, r, rfl, by rw [hx1, total_cons, Nat.add_assoc]⟩
    split at h
    · next hb =>
      rcases List.mem_cons.mp h with rfl | h
      · exact ⟨[], bs, by rw [← hb]; rfl, rfl⟩
      · exact hrest h
    · exact hrest h

/-! ## The first free block -/

/-- Where the first free block starts, or the end of the row. -/
def firstFree : Nat → List Block → Nat
  | a, [] => a
  | a, b :: bs => if b.used then firstFree (a + b.size) bs else a

theorem firstFree_of_used {a : Nat} {l : List Block} (h : ∀ b ∈ l, b.used = true)
    (r : List Block) : firstFree a (l ++ r) = firstFree (a + total l) r := by
  induction l generalizing a with
  | nil => rfl
  | cons b l ih =>
    rw [List.forall_mem_cons] at h
    simp [firstFree, h.1, ih h.2, Nat.add_assoc]

theorem firstFree_bounds (a : Nat) (bs : List Block) :
    a ≤ firstFree a bs ∧ firstFree a bs ≤ a + total bs := by
  induction bs generalizing a with
  | nil => simp [firstFree]
  | cons b bs ih =>
    have := ih (a + b.size)
    rw [firstFree, total_cons]
    split <;> omega

theorem firstFree_of_mem {a : Nat} {l : List Block} (h : ∃ b ∈ l, b.used = false)
    (r s : List Block) : firstFree a (l ++ r) = firstFree a (l ++ s) := by
  induction l generalizing a with
  | nil => simp at h
  | cons b l ih =>
    simp only [List.cons_append, firstFree]
    split
    · next hb =>
      apply ih
      simpa [hb] using h
    · rfl

theorem firstFree_le {a : Nat} (l r : List Block) {b : Block} (hb : b.used = false) :
    firstFree a (l ++ b :: r) ≤ a + total l := by
  induction l generalizing a with
  | nil => simp [firstFree, hb]
  | cons c l ih =>
    have := ih (a := a + c.size)
    rw [List.cons_append, firstFree, total_cons]
    split <;> omega

theorem firstFree_congr {a : Nat} (l : List Block) {b c : Block} (hb : b.used = false)
    (hc : c.used = false) (r s : List Block) :
    firstFree a (l ++ b :: r) = firstFree a (l ++ c :: s) := by
  induction l generalizing a with
  | nil => simp [firstFree, hb, hc]
  | cons d l ih => simp only [List.cons_append, firstFree, ih]

theorem firstFree_insert {a : Nat} (l mid : List Block) {b c : Block} (r s : List Block)
    (hmid : ∀ x ∈ mid, x.used = true) (hb : b.used = true) (hc : c.used = false)
    (hlt : total mid < b.size) :
    firstFree a (l ++ (mid ++ c :: s)) =
      if a + total l + total mid < firstFree a (l ++ b :: r) then a + total l + total mid
      else firstFree a (l ++ b :: r) := by
  by_cases hl : ∃ x ∈ l, x.used = false
  · rw [firstFree_of_mem hl (mid ++ c :: s) (b :: r), if_neg]
    obtain ⟨x, hx, hfree⟩ := hl
    obtain ⟨l₁, l₂, rfl⟩ := List.append_of_mem hx
    have := firstFree_le (a := a) l₁ (l₂ ++ b :: r) hfree
    rw [List.append_assoc, List.cons_append, total_append]
    omega
  · have hused : ∀ x ∈ l, x.used = true := fun x hx => by
      by_contra hx'
      exact hl ⟨x, hx, by simpa using hx'⟩
    have hfirst : firstFree (a + total l) (b :: r) = firstFree (a + total l + b.size) r := by
      rw [firstFree, if_pos hb]
    have := (firstFree_bounds (a + total l + b.size) r).1
    rw [firstFree_of_used hused, firstFree_of_used hmid, firstFree_of_used hused, hfirst,
      if_pos (by omega), firstFree, hc]
    rfl

theorem firstFree_shrink {a : Nat} (l r : List Block) {b d c e : Block} (hpos : 0 < b.size)
    (hb : b.used = true) (hd : d.used = true) (hc : c.used = false) (he : e.used = false) :
    firstFree a (l ++ d :: e :: r) =
      if firstFree a (l ++ b :: c :: r) = a + total l + b.size then a + total l + d.size
      else firstFree a (l ++ b :: c :: r) := by
  by_cases hl : ∃ x ∈ l, x.used = false
  · rw [firstFree_of_mem hl (d :: e :: r) (b :: c :: r), if_neg]
    obtain ⟨x, hx, hfree⟩ := hl
    obtain ⟨l₁, l₂, rfl⟩ := List.append_of_mem hx
    have := firstFree_le (a := a) l₁ (l₂ ++ b :: c :: r) hfree
    rw [List.append_assoc, List.cons_append, total_append]
    omega
  · have hused : ∀ x ∈ l, x.used = true := fun x hx => by
      by_contra hx'
      exact hl ⟨x, hx, by simpa using hx'⟩
    rw [firstFree_of_used hused, firstFree_of_used hused]
    simp [firstFree, hb, hd, hc, he]

theorem exists_firstFree (a : Nat) (bs : List Block) :
    ∃ l r, bs = l ++ r ∧ (∀ b ∈ l, b.used = true) ∧ firstFree a bs = a + total l ∧
      ∀ b, r.head? = some b → b.used = false := by
  induction bs generalizing a with
  | nil => exact ⟨[], [], rfl, by simp, rfl, by simp⟩
  | cons b bs ih =>
    rw [firstFree]
    split
    · next hb =>
      obtain ⟨l, r, rfl, hl, hfirst, hr⟩ := ih (a + b.size)
      refine ⟨b :: l, r, rfl, List.forall_mem_cons.mpr ⟨hb, hl⟩, ?_, hr⟩
      rw [hfirst, total_cons, Nat.add_assoc]
    · next hb => exact ⟨[], b :: bs, rfl, by simp, rfl, by simpa using hb⟩

/-! ## No two free blocks in a row -/

def Plugged (bs : List Block) : Prop := bs.IsChain fun x y => x.used = true ∨ y.used = true

theorem plugged_append_cons {l r : List Block} {b : Block} :
    Plugged (l ++ b :: r) ↔ Plugged l ∧ Plugged r ∧
      (∀ x ∈ l.getLast?, x.used = true ∨ b.used = true) ∧
      ∀ y ∈ r.head?, b.used = true ∨ y.used = true := by
  unfold Plugged
  rw [List.isChain_append, List.isChain_cons]
  simp only [List.head?_cons, Option.mem_some_iff, forall_eq']
  tauto

theorem Plugged.setUsed {l r : List Block} {b c : Block} (h : Plugged (l ++ b :: r))
    (hc : c.used = true) : Plugged (l ++ c :: r) := by
  rw [plugged_append_cons] at h ⊢
  exact ⟨h.1, h.2.1, fun _ _ => .inr hc, fun _ _ => .inl hc⟩

theorem Plugged.resize {l r : List Block} {b c : Block} (h : Plugged (l ++ b :: r))
    (hc : c.used = b.used) : Plugged (l ++ c :: r) := by
  rw [plugged_append_cons] at h ⊢
  rw [hc]
  exact h

theorem Plugged.split {l r : List Block} {b c d : Block} (h : Plugged (l ++ b :: r))
    (hc : c.used = true) (hr : ∀ y ∈ r.head?, y.used = true) : Plugged (l ++ c :: d :: r) := by
  rw [plugged_append_cons] at h ⊢
  refine ⟨h.1, ?_, fun _ _ => .inr hc, fun _ _ => .inl hc⟩
  have hd : Plugged ([] ++ d :: r) :=
    plugged_append_cons.mpr ⟨.nil, h.2.1, by simp, fun y hy => .inr (hr y hy)⟩
  exact hd

theorem Plugged.eq_singleton {bs : List Block} (h : Plugged bs) (hfree : live 0 bs = [])
    (hne : bs ≠ []) : bs = [⟨total bs, false⟩] := by
  have hall : ∀ a (cs : List Block), live a cs = [] → ∀ b ∈ cs, b.used = false := by
    intro a cs
    induction cs generalizing a with
    | nil => simp
    | cons c cs ih =>
      rw [live]
      split
      · intro h
        cases h
      · next hc => exact fun h => List.forall_mem_cons.mpr ⟨by simpa using hc, ih _ h⟩
  have hused := hall 0 bs hfree
  match bs, hne with
  | [b], _ =>
    have hb := hused b (List.mem_singleton.mpr rfl)
    cases b
    simp_all
  | b :: c :: cs, _ =>
    have hb := hused b (by simp)
    have hc := hused c (by simp)
    have := (List.isChain_cons_cons.mp h).1
    simp_all

theorem eq_of_first {α : Type*} {P : α → Prop} {b b' : α} {l l' r r' : List α} (hb : P b)
    (hl : ∀ c ∈ l, ¬ P c) (hb' : P b') (hl' : ∀ c ∈ l', ¬ P c) (h : l ++ b :: r = l' ++ b' :: r') :
    l = l' := by
  induction l generalizing l' with
  | nil =>
    cases l' with
    | nil => rfl
    | cons c l' =>
      obtain ⟨rfl, -⟩ := List.cons.inj h
      exact absurd hb (hl' b (by simp))
  | cons c l ih =>
    cases l' with
    | nil =>
      obtain ⟨rfl, -⟩ := List.cons.inj h
      exact absurd hb' (hl c (by simp))
    | cons d l' =>
      obtain ⟨rfl, heq⟩ := List.cons.inj h
      rw [List.forall_mem_cons] at hl hl'
      rw [ih hl.2 hl'.2 heq]

end FreeLwip.Blocks
