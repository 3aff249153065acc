import Mathlib.Data.List.Infix

/-!
# Parts of a stream

A text `p` that stands at position `k` of a stream.
-/

namespace FreeLwip.Text

variable {α : Type*}

def At (S : List α) (k : Nat) (p : List α) : Prop := k ≤ S.length ∧ p <+: S.drop k

variable {S T p q : List α} {k m : Nat}

theorem At.length_le (h : At S k p) : k + p.length ≤ S.length := by
  have hle := h.2.length_le
  have hk := h.1
  rw [List.length_drop] at hle
  omega

theorem At.nil (h : k ≤ S.length) : At S k [] := ⟨h, List.nil_prefix⟩

theorem At.take (h : At S k p) (m : Nat) : At S k (p.take m) :=
  ⟨h.1, (List.take_prefix m p).trans h.2⟩

theorem At.drop (h : At S k p) (hm : m ≤ p.length) : At S (k + m) (p.drop m) := by
  have hle := h.length_le
  obtain ⟨t, ht⟩ := h.2
  refine ⟨by omega, t, ?_⟩
  rw [← List.drop_drop, ← ht, List.drop_append_of_le_length hm]

theorem At.take_append (h : At S k p) : S.take k ++ p = S.take (k + p.length) := by
  rw [List.take_add, List.prefix_iff_eq_take.mp h.2, List.length_take,
    Nat.min_eq_left h.2.length_le]

theorem At.append (hp : At S k p) (hq : At S (k + p.length) q) : At S k (p ++ q) := by
  obtain ⟨t, ht⟩ := hp.2
  refine ⟨hp.1, ?_⟩
  have hrest : S.drop (k + p.length) = t := by
    rw [← List.drop_drop, ← ht, List.drop_left]
  rw [← ht, List.prefix_append_right_inj, ← hrest]
  exact hq.2

theorem At.mono (h : At S k p) (hST : S <+: T) : At T k p := by
  obtain ⟨t, rfl⟩ := hST
  refine ⟨h.1.trans (by simp), ?_⟩
  rw [List.drop_append_of_le_length h.1]
  exact h.2.trans (List.prefix_append _ _)

end FreeLwip.Text
