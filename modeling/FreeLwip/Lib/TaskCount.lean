import Mathlib.Data.Fintype.Basic
import Mathlib.Algebra.BigOperators.Group.Finset.Piecewise
import Mathlib.Algebra.BigOperators.Ring.Finset
import Mathlib.Logic.Function.Basic

/-!
# The number of tasks in a state

How many of the tasks `α`, each in a state of `β`, satisfy a predicate, and how that changes
when one of them moves.
-/

namespace FreeLwip.TaskCount

variable {α β : Type*} [Fintype α]

def count (P : β → Prop) [DecidablePred P] (f : α → β) : Nat :=
  (Finset.univ.filter fun x => P (f x)).card

section Lemmas

variable {P : β → Prop} [DecidablePred P] {f : α → β}

theorem count_pos {a : α} (h : P (f a)) : 0 < count P f :=
  Finset.card_pos.mpr ⟨a, by simpa using h⟩

theorem count_eq_zero : count P f = 0 ↔ ∀ a, ¬ P (f a) := by
  simp [count, Finset.filter_eq_empty_iff]

theorem count_congr {γ : Type*} {Q : γ → Prop} [DecidablePred Q] {g : α → γ}
    (h : ∀ a, P (f a) ↔ Q (g a)) : count P f = count Q g :=
  congrArg Finset.card (Finset.filter_congr fun a _ => h a)

theorem count_update [DecidableEq α] (a : α) (b : β) :
    count P (Function.update f a b) + (if P (f a) then 1 else 0) =
      count P f + (if P b then 1 else 0) := by
  unfold count
  rw [Finset.card_filter, Finset.card_filter, ← Finset.add_sum_erase _ _ (Finset.mem_univ a),
    ← Finset.add_sum_erase (f := fun x => if P (f x) then 1 else 0) _ (Finset.mem_univ a),
    Function.update_self]
  have hrest : ∑ x ∈ Finset.univ.erase a, (if P (Function.update f a b x) then 1 else 0) =
      ∑ x ∈ Finset.univ.erase a, if P (f x) then 1 else 0 :=
    Finset.sum_congr rfl fun x hx => by rw [Function.update_of_ne (Finset.ne_of_mem_erase hx)]
  rw [hrest]
  omega

theorem count_update_enter [DecidableEq α] {a : α} {b : β} (ha : ¬ P (f a)) (hb : P b) :
    count P (Function.update f a b) = count P f + 1 := by
  have hmove := count_update (P := P) (f := f) a b
  rwa [if_neg ha, if_pos hb] at hmove

theorem count_update_leave [DecidableEq α] {a : α} {b : β} (ha : P (f a)) (hb : ¬ P b) :
    count P (Function.update f a b) + 1 = count P f := by
  have hmove := count_update (P := P) (f := f) a b
  rwa [if_pos ha, if_neg hb] at hmove

theorem count_update_of_iff [DecidableEq α] {a : α} {b : β} (h : P b ↔ P (f a)) :
    count P (Function.update f a b) = count P f := by
  have hmove := count_update (P := P) (f := f) a b
  simp only [h] at hmove
  omega

end Lemmas

end FreeLwip.TaskCount
