import Mathlib.Data.List.Range
import Mathlib.Data.List.Nodup
import Mathlib.Data.Nat.ModEq

/-!
# Ring indices

An index that is incremented and set back to 0 at the end of the ring, and the slots that
a head and a count cover.
-/

namespace FreeLwip.RingIndex

/-- The slot after `i`. -/
def next (n i : Nat) : Nat :=
  if i + 1 ≥ n then 0 else i + 1

/-- The slots from `head` on, in order. -/
def window (n head count : Nat) : List Nat :=
  (List.range count).map fun k => (head + k) % n

variable {n head count : Nat}

theorem next_eq_mod (h : head < n) : next n head = (head + 1) % n := by
  unfold next
  split
  · have : head + 1 = n := by omega
    rw [this, Nat.mod_self]
  · rw [Nat.mod_eq_of_lt (by omega)]

theorem next_lt (h : 0 < n) (i : Nat) : next n i < n := by
  unfold next
  split <;> omega

theorem next_add_mod (h : head < n) (k : Nat) : (next n head + k) % n = (head + (k + 1)) % n := by
  rw [next_eq_mod h, Nat.mod_add_mod]
  congr 1
  omega

theorem window_push : window n head (count + 1) = window n head count ++ [(head + count) % n] := by
  rw [window, List.range_succ, List.map_append]
  rfl

theorem window_pop (h : head < n) :
    window n head (count + 1) = head :: window n (next n head) count := by
  rw [window, List.range_succ_eq_map, List.map_cons, List.map_map, window, Nat.add_zero,
    Nat.mod_eq_of_lt h]
  congr 1
  refine List.map_congr_left fun k _ => ?_
  exact (next_add_mod h k).symm

theorem lt_of_mem_window (hn : 0 < n) {i : Nat} (h : i ∈ window n head count) : i < n := by
  obtain ⟨k, -, rfl⟩ := List.mem_map.mp h
  exact Nat.mod_lt _ hn

theorem window_nodup (h : count ≤ n) : (window n head count).Nodup := by
  refine List.Nodup.map_on (fun i hi j hj hij => ?_) List.nodup_range
  rw [List.mem_range] at hi hj
  have hmod : i % n = j % n := Nat.ModEq.add_left_cancel' head hij
  rwa [Nat.mod_eq_of_lt (by omega), Nat.mod_eq_of_lt (by omega)] at hmod

theorem end_not_mem_window (h : count < n) : (head + count) % n ∉ window n head count := by
  have hnodup : (window n head (count + 1)).Nodup := window_nodup h
  rw [window_push, List.nodup_append] at hnodup
  intro hmem
  exact hnodup.2.2 _ hmem _ (List.mem_singleton.mpr rfl) rfl

end FreeLwip.RingIndex
