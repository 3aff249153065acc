import Mathlib.Data.List.Basic

/-!
# Delta lists

A list of timers in which each entry has the time it waits after the one before it.
-/

namespace FreeLwip.DeltaList

variable {α : Type*}

/-- The entries with the times at which they expire, if nothing is charged any more. -/
def expiries : Nat → List (Nat × α) → List (Nat × α)
  | _, [] => []
  | base, (d, a) :: rest => (base + d, a) :: expiries (base + d) rest

/-- A new entry goes behind those that expire at the same time. -/
def insertEntry (m : Nat) (a : α) : List (Nat × α) → List (Nat × α)
  | [] => [(m, a)]
  | (d, b) :: rest =>
    if m < d then (m, a) :: (d - m, b) :: rest else (d, b) :: insertEntry (m - d) a rest

/-- The time of the first entry with `p` goes to the one after it. -/
def removeEntry (p : α → Bool) : List (Nat × α) → List (Nat × α)
  | [] => []
  | (d, a) :: rest =>
    if p a then
      match rest with
      | [] => []
      | (e, b) :: rest => (e + d, b) :: rest
    else
      (d, a) :: removeEntry p rest

/-- Time that has passed comes off the first entry. -/
def charge (elapsed : Nat) : List (Nat × α) → List (Nat × α)
  | [] => []
  | (d, a) :: rest => (d - elapsed, a) :: rest

/-- No entry expires after this time. -/
def span : List (Nat × α) → Nat
  | [] => 0
  | (d, _) :: rest => d + span rest

@[simp] theorem expiries_nil (base : Nat) : expiries base ([] : List (Nat × α)) = [] := rfl

@[simp] theorem expiries_cons (base d : Nat) (a : α) (rest : List (Nat × α)) :
    expiries base ((d, a) :: rest) = (base + d, a) :: expiries (base + d) rest := rfl

theorem insertEntry_of_lt {m d : Nat} (h : m < d) (a b : α) (rest : List (Nat × α)) :
    insertEntry m a ((d, b) :: rest) = (m, a) :: (d - m, b) :: rest := by
  rw [insertEntry, if_pos h]

theorem insertEntry_of_le {m d : Nat} (h : d ≤ m) (a b : α) (rest : List (Nat × α)) :
    insertEntry m a ((d, b) :: rest) = (d, b) :: insertEntry (m - d) a rest := by
  rw [insertEntry, if_neg (Nat.not_lt.mpr h)]

theorem mem_expiries_zero {base x : Nat} {a : α} {l : List (Nat × α)} :
    (x, a) ∈ expiries base l ↔ ∃ w, (w, a) ∈ expiries 0 l ∧ x = base + w := by
  induction l generalizing base x with
  | nil => simp
  | cons e rest ih =>
    obtain ⟨d, b⟩ := e
    simp only [expiries_cons, List.mem_cons]
    constructor
    · rintro (heq | hrest)
      · cases heq
        exact ⟨0 + d, .inl rfl, by omega⟩
      · obtain ⟨w, hw, rfl⟩ := ih.mp hrest
        exact ⟨0 + d + w, .inr (ih.mpr ⟨w, hw, rfl⟩), by omega⟩
    · rintro ⟨w, hw, rfl⟩
      rcases hw with heq | hrest
      · cases heq
        exact .inl (by rw [Nat.zero_add])
      · obtain ⟨v, hv, rfl⟩ := ih.mp hrest
        exact .inr (ih.mpr ⟨v, hv, by omega⟩)

theorem mem_expiries_mono {base now k x : Nat} {a : α} {l : List (Nat × α)} (hle : base ≤ now + k)
    (h : (x, a) ∈ expiries now l) : ∃ y ≤ x + k, (y, a) ∈ expiries base l := by
  obtain ⟨w, hw, rfl⟩ := mem_expiries_zero.mp h
  exact ⟨base + w, by omega, mem_expiries_zero.mpr ⟨w, hw, rfl⟩⟩

theorem expiries_sooner {base base' k : Nat} (hle : base' + k ≤ base) (l : List (Nat × α)) :
    List.Forall₂ (fun x y => x.1 + k ≤ y.1 ∧ x.2 = y.2) (expiries base' l) (expiries base l) := by
  induction l generalizing base base' with
  | nil => exact .nil
  | cons e rest ih =>
    obtain ⟨d, a⟩ := e
    exact .cons ⟨by simp only; omega, rfl⟩ (ih (by omega))

/-! ## The operations -/

theorem mem_expiries_insert {base m : Nat} {a : α} {l : List (Nat × α)} {y : Nat × α} :
    y ∈ expiries base (insertEntry m a l) ↔ y = (base + m, a) ∨ y ∈ expiries base l := by
  induction l generalizing base m with
  | nil => simp [insertEntry]
  | cons e rest ih =>
    obtain ⟨d, b⟩ := e
    unfold insertEntry
    split
    · next hlt =>
      have hsum : base + m + (d - m) = base + d := by omega
      rw [expiries_cons, expiries_cons, hsum, ← expiries_cons base d b rest, List.mem_cons]
    · next hle =>
      have hsum : base + d + (m - d) = base + m := by omega
      rw [expiries_cons, List.mem_cons, ih, hsum, expiries_cons, List.mem_cons]
      exact or_left_comm

theorem expiries_insert (base m : Nat) (a : α) (l : List (Nat × α)) :
    expiries base (insertEntry m a l) =
      (expiries base l).take ((expiries base l).findIdx fun y => base + m < y.1) ++
        (base + m, a) ::
          (expiries base l).drop ((expiries base l).findIdx fun y => base + m < y.1) := by
  induction l generalizing base m with
  | nil => rfl
  | cons e rest ih =>
    obtain ⟨d, b⟩ := e
    unfold insertEntry
    split
    · next hlt =>
      have hsum : base + m + (d - m) = base + d := by omega
      have hlater : base + m < base + d := by omega
      simp [hsum, List.findIdx_cons, hlater]
    · next hle =>
      have hsum : base + d + (m - d) = base + m := by omega
      have hearlier : ¬ base + m < base + d := by omega
      simp [ih, hsum, List.findIdx_cons, hearlier]

theorem span_insert (m : Nat) (a : α) (l : List (Nat × α)) :
    span (insertEntry m a l) = max m (span l) := by
  induction l generalizing m with
  | nil => simp [insertEntry, span]
  | cons e rest ih =>
    obtain ⟨d, b⟩ := e
    unfold insertEntry
    split
    · simp only [span]
      omega
    · simp only [span]
      rw [ih]
      omega

theorem expiries_remove (p : α → Bool) (base : Nat) (l : List (Nat × α)) :
    expiries base (removeEntry p l) = (expiries base l).eraseP fun y => p y.2 := by
  induction l generalizing base with
  | nil => rfl
  | cons e rest ih =>
    obtain ⟨d, a⟩ := e
    unfold removeEntry
    cases hp : p a with
    | true =>
      rw [expiries_cons, List.eraseP_cons_of_pos (by simpa using hp)]
      cases rest with
      | nil => rfl
      | cons n rest =>
        obtain ⟨f, b⟩ := n
        have hsum : base + (f + d) = base + d + f := by omega
        simp only [if_pos, expiries_cons]
        rw [hsum]
    | false =>
      rw [expiries_cons, List.eraseP_cons_of_neg (by simpa using hp)]
      simp only [Bool.false_eq_true, if_false, expiries_cons]
      rw [ih]

theorem span_remove_le (p : α → Bool) (l : List (Nat × α)) : span (removeEntry p l) ≤ span l := by
  induction l with
  | nil => exact Nat.le_refl 0
  | cons e rest ih =>
    obtain ⟨d, a⟩ := e
    unfold removeEntry
    split
    · cases rest with
      | nil => exact Nat.zero_le _
      | cons n rest =>
        simp only [span]
        omega
    · simp only [span]
      omega

/-- When `k` more is charged than has passed, things expire by at most `k` earlier. -/
theorem mem_expiries_charge {base elapsed now k x : Nat} {a : α} {l : List (Nat × α)}
    (hnow : base + elapsed ≤ now + k)
    (h : (x, a) ∈ expiries now (charge elapsed l)) : ∃ y ≤ x + k, (y, a) ∈ expiries base l := by
  cases l with
  | nil => cases h
  | cons e rest =>
    obtain ⟨d, b⟩ := e
    have hle : base + d ≤ now + (d - elapsed) + k := by omega
    rw [charge, expiries_cons] at h
    rw [expiries_cons]
    rcases List.mem_cons.mp h with heq | hrest
    · cases heq
      exact ⟨base + d, hle, List.mem_cons_self⟩
    · obtain ⟨y, hy, hmem⟩ := mem_expiries_mono hle hrest
      exact ⟨y, hy, List.mem_cons_of_mem _ hmem⟩

theorem span_charge_le (elapsed : Nat) (l : List (Nat × α)) : span (charge elapsed l) ≤ span l := by
  cases l with
  | nil => exact Nat.le_refl 0
  | cons e rest =>
    unfold charge span
    omega

end FreeLwip.DeltaList
