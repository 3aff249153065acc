import Mathlib.Data.List.Basic
import Mathlib.Data.List.Chain

/-!
# Pieces of a whole

Things that reach from a start to a stop. A row is a whole that was cut: every piece starts where
the one before it stops. Some of its pieces, in their order, are a sublist of it; what is missing
shows where two neighbours are not joined.
-/

namespace FreeLwip.Pieces

variable {α : Type*} (start stop : α → Nat)

/-- Every piece starts where the one before it stops. -/
def Adjoined (l : List α) : Prop := l.IsChain fun a b => stop a = start b

structure Row (l : List α) : Prop where
  joined : Adjoined start stop l
  nonempty : ∀ a ∈ l, start a < stop a

variable {start stop} {l r A B : List α} {a b x : α}

@[simp] theorem adjoined_nil : Adjoined start stop [] := .nil

@[simp] theorem adjoined_singleton : Adjoined start stop [a] := .singleton a

@[simp] theorem adjoined_cons_cons :
    Adjoined start stop (a :: b :: l) ↔ stop a = start b ∧ Adjoined start stop (b :: l) :=
  List.isChain_cons_cons

theorem adjoined_append : Adjoined start stop (l ++ r) ↔
    Adjoined start stop l ∧ Adjoined start stop r ∧
    ∀ a ∈ l.getLast?, ∀ b ∈ r.head?, stop a = start b :=
  List.isChain_append

theorem Row.of_cons (h : Row start stop (a :: l)) : Row start stop l where
  joined := h.joined.tail
  nonempty := fun b hb => h.nonempty b (List.mem_cons_of_mem _ hb)

theorem Row.append_left (h : Row start stop (l ++ r)) : Row start stop l where
  joined := (adjoined_append.mp h.joined).1
  nonempty := fun a ha => h.nonempty a (List.mem_append_left _ ha)

theorem Row.append_right (h : Row start stop (l ++ r)) : Row start stop r where
  joined := (adjoined_append.mp h.joined).2.1
  nonempty := fun a ha => h.nonempty a (List.mem_append_right _ ha)

theorem Row.le_of_mem (h : Row start stop (a :: l)) (hb : b ∈ l) : stop a ≤ start b := by
  induction l generalizing a with
  | nil => cases hb
  | cons c l ih =>
    have hac := (adjoined_cons_cons.mp h.joined).1
    rcases List.mem_cons.mp hb with rfl | hb
    · exact hac.le
    · have hc := h.nonempty c (by simp)
      have := ih h.of_cons hb
      omega

theorem Row.pairwise (h : Row start stop l) : l.Pairwise fun a b => stop a ≤ start b := by
  induction l with
  | nil => exact .nil
  | cons a l ih => exact List.pairwise_cons.mpr ⟨fun _ hb => h.le_of_mem hb, ih h.of_cons⟩

theorem Row.nodup (h : Row start stop l) : l.Nodup := by
  induction l with
  | nil => exact .nil
  | cons a l ih =>
    refine List.nodup_cons.mpr ⟨fun ha => ?_, ih h.of_cons⟩
    have := h.le_of_mem ha
    have := h.nonempty a (by simp)
    omega

theorem Row.prefix_of_joined (h : Row start stop (x :: B)) (hl : (x :: l).Sublist (x :: B))
    (hj : Adjoined start stop (x :: l)) : x :: l <+: x :: B := by
  induction l generalizing x B with
  | nil => exact ⟨B, rfl⟩
  | cons y l ih =>
    have hsub := List.cons_sublist_cons.mp hl
    have hxy := (adjoined_cons_cons.mp hj).1
    cases B with
    | nil => cases hsub
    | cons z B =>
      have hxz := (adjoined_cons_cons.mp h.joined).1
      -- the next piece of the row starts there, and no other one does
      obtain rfl : y = z := by
        rcases List.mem_cons.mp (hsub.subset (by simp) : y ∈ z :: B) with rfl | hy
        · rfl
        · have := h.of_cons.le_of_mem hy
          have := h.nonempty z (by simp)
          omega
      exact (List.prefix_cons_inj x).mpr (ih h.of_cons hsub hj.tail)

theorem Row.eq_of_joined (h : Row start stop (x :: B)) (hl : (x :: l).Sublist (x :: B))
    (hj : Adjoined start stop (x :: l)) (hlast : (x :: B).getLast (by simp) ∈ x :: l) : l = B := by
  obtain ⟨t, ht⟩ := h.prefix_of_joined hl hj
  have hnodup := h.nodup
  rw [← List.dropLast_append_getLast (List.cons_ne_nil x B)] at ht hnodup
  rcases List.eq_nil_or_concat t with rfl | ⟨t, z, rfl⟩
  · rw [List.append_nil, List.dropLast_append_getLast] at ht
    exact (List.cons.inj ht).2
  · -- something behind the joined ones would be the last piece a second time
    rw [List.concat_eq_append, ← List.append_assoc] at ht
    obtain ⟨hfront, hz⟩ := List.append_inj' ht rfl
    rw [← hfront] at hnodup
    have := (List.nodup_append.mp hnodup).2.2
    exact absurd rfl (this _ (List.mem_append_left _ hlast) _ (by simp))

/-- The pieces `l ++ x :: r` of a row, all joined except in front of `x`, from the first of the row
to the last: only what is in front of `x` can be missing. -/
theorem Row.exists_hole (h : Row start stop (A ++ x :: B)) (hl : l.Sublist A) (hr : r.Sublist B)
    (hjl : Adjoined start stop l) (hjr : Adjoined start stop (x :: r))
    (hlast : (A ++ x :: B).getLast (by simp) ∈ x :: r)
    (hfirst : ∀ a ∈ (A ++ x :: B).head?, ∀ b ∈ (l ++ x :: r).head?, start b = start a)
    (hend : r = [] → Adjoined start stop (l ++ [x])) :
    r = B ∧ ∃ hole, A = l ++ hole ∧ (hole ≠ [] → l ≠ [] ∧ r ≠ []) := by
  have hxB := h.append_right
  have hrB : r = B := by
    refine hxB.eq_of_joined (List.cons_sublist_cons.mpr hr) hjr ?_
    rwa [List.getLast_append_of_ne_nil] at hlast
  refine ⟨hrB, ?_⟩
  cases l with
  | nil =>
    cases A with
    | nil => exact ⟨[], rfl, by simp⟩
    | cons a A =>
      have hax := h.le_of_mem (show x ∈ A ++ x :: B by simp)
      have ha := h.nonempty a (by simp)
      have := hfirst a (by simp) x (by simp)
      omega
  | cons y l =>
    cases A with
    | nil => cases hl
    | cons a A =>
      obtain rfl : y = a := by
        have heq := hfirst a (by simp) y (by simp)
        rcases List.mem_cons.mp (hl.subset (by simp) : y ∈ a :: A) with rfl | hy
        · rfl
        · have := h.append_left.le_of_mem hy
          have := h.nonempty a (by simp)
          omega
      obtain ⟨hole, hhole⟩ := h.append_left.prefix_of_joined hl hjl
      refine ⟨hole, hhole.symm, fun hne => ⟨by simp, fun hnil => hne ?_⟩⟩
      -- at the end of the row the gap would have been seen
      subst hrB
      rw [hnil] at h hend
      have hall := h.eq_of_joined (l := l ++ [x])
        (by simpa using hl.append (List.Sublist.refl [x])) (hend rfl) (by simp)
      have hlA : l = A := by simpa using hall
      rw [hlA] at hhole
      simpa using hhole

theorem Row.start_lt (h : Row start stop (A ++ x :: B)) (ha : a ∈ A) : start a < start x := by
  have := (List.pairwise_append.mp h.pairwise).2.2 a ha x (by simp)
  have := h.nonempty a (by simp [ha])
  omega

theorem Row.lt_start (h : Row start stop (A ++ x :: B)) (hb : b ∈ B) : start x < start b := by
  have := h.append_right.le_of_mem hb
  have := h.nonempty x (by simp)
  omega

theorem Row.sublist_left (h : Row start stop (A ++ x :: B)) (hl : l.Sublist (A ++ x :: B))
    (hlt : ∀ a ∈ l, start a < start x) : l.Sublist A := by
  obtain ⟨l₁, l₂, rfl, h₁, h₂⟩ := List.sublist_append_iff.mp hl
  cases l₂ with
  | nil => simpa using h₁
  | cons b l₂ =>
    have hb := hlt b (by simp)
    rcases List.mem_cons.mp (h₂.subset (by simp) : b ∈ x :: B) with rfl | hmem
    · omega
    · have := h.lt_start hmem
      omega

theorem Row.sublist_right (h : Row start stop (A ++ x :: B)) (hr : r.Sublist (A ++ x :: B))
    (hlt : ∀ b ∈ r, start x < start b) : r.Sublist B := by
  obtain ⟨r₁, r₂, rfl, h₁, h₂⟩ := List.sublist_append_iff.mp hr
  cases r₁ with
  | nil =>
    rcases List.sublist_cons_iff.mp h₂ with h₂ | ⟨r, rfl, -⟩
    · simpa using h₂
    · have := hlt x (by simp)
      omega
  | cons a r₁ =>
    have ha := hlt a (by simp)
    have := h.start_lt (h₁.subset (by simp) : a ∈ A)
    omega

end FreeLwip.Pieces
