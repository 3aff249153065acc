import Mathlib.Data.Nat.Find

/-!
# Loops

A loop is a function `turn : S → S ⊕ R`: one turn goes on with another state, or leaves the
loop with a result. `run` makes at most `fuel` turns; `Ends` says that some fuel is enough.
-/

namespace FreeLwip.Loop

variable {S R : Type*} {turn : S → S ⊕ R}

def run (turn : S → S ⊕ R) : Nat → S → Option R
  | 0, _ => none
  | fuel + 1, s =>
    match turn s with
    | .inl t => run turn fuel t
    | .inr r => some r

/-- The state after `n` turns, if the loop is not left before. -/
def after (turn : S → S ⊕ R) : Nat → S → Option S
  | 0, s => some s
  | n + 1, s =>
    match turn s with
    | .inl t => after turn n t
    | .inr _ => none

/-- The loop, entered with `s`, is left with `r`. -/
def Ends (turn : S → S ⊕ R) (s : S) (r : R) : Prop := ∃ fuel, run turn fuel s = some r

theorem run_inl {s t : S} (h : turn s = .inl t) (fuel : Nat) :
    run turn (fuel + 1) s = run turn fuel t := by
  rw [run, h]

theorem run_inr {s : S} {r : R} (h : turn s = .inr r) (fuel : Nat) :
    run turn (fuel + 1) s = some r := by
  rw [run, h]

theorem run_succ {fuel : Nat} {s : S} {r : R} (h : run turn fuel s = some r) :
    run turn (fuel + 1) s = some r := by
  induction fuel generalizing s with
  | zero => simp [run] at h
  | succ fuel ih =>
    rcases hs : turn s with t | x
    · rw [run_inl hs] at h ⊢
      exact ih h
    · rw [run_inr hs] at h ⊢
      exact h

theorem run_mono {fuel more : Nat} (hle : fuel ≤ more) {s : S} {r : R}
    (h : run turn fuel s = some r) : run turn more s = some r := by
  induction hle with
  | refl => exact h
  | step _ ih => exact run_succ ih

theorem Ends.unique {s : S} {r x : R} (hr : Ends turn s r) (hx : Ends turn s x) : r = x := by
  obtain ⟨m, hm⟩ := hr
  obtain ⟨n, hn⟩ := hx
  have hm' := run_mono (Nat.le_max_left m n) hm
  have hn' := run_mono (Nat.le_max_right m n) hn
  rw [hm'] at hn'
  exact Option.some.inj hn'

theorem ends_inl {s t : S} (h : turn s = .inl t) {r : R} : Ends turn s r ↔ Ends turn t r := by
  constructor
  · rintro ⟨_ | fuel, hrun⟩
    · simp [run] at hrun
    · exact ⟨fuel, run_inl h fuel ▸ hrun⟩
  · rintro ⟨fuel, hrun⟩
    exact ⟨fuel + 1, (run_inl h fuel).trans hrun⟩

theorem ends_inr {s : S} {x : R} (h : turn s = .inr x) {r : R} : Ends turn s r ↔ r = x := by
  constructor
  · rintro ⟨_ | fuel, hrun⟩
    · simp [run] at hrun
    · rw [run_inr h] at hrun
      exact (Option.some.inj hrun).symm
  · rintro rfl
    exact ⟨1, run_inr h 0⟩

/-- What every turn keeps and the last turn turns into `Q` is true of the result. -/
theorem Ends.post {I : S → Prop} {Q : R → Prop} (hkeep : ∀ s t, I s → turn s = .inl t → I t)
    (hleave : ∀ s r, I s → turn s = .inr r → Q r) {s : S} {r : R} (h : Ends turn s r)
    (hs : I s) : Q r := by
  obtain ⟨fuel, hrun⟩ := h
  induction fuel generalizing s with
  | zero => simp [run] at hrun
  | succ fuel ih =>
    rcases hturn : turn s with t | x
    · rw [run_inl hturn] at hrun
      exact ih (hkeep s t hs hturn) hrun
    · rw [run_inr hturn, Option.some.injEq] at hrun
      exact hleave s r hs (hrun ▸ hturn)

/-- A loop is left if each of its turns lowers a measure. -/
theorem ends_of_measure {I : S → Prop} (μ : S → Nat)
    (hlower : ∀ s t, I s → turn s = .inl t → I t ∧ μ t < μ s) {s : S} (hs : I s) :
    ∃ r, Ends turn s r := by
  induction hμ : μ s using Nat.strong_induction_on generalizing s with
  | _ n ih =>
    rcases hturn : turn s with t | x
    · obtain ⟨ht, hlt⟩ := hlower s t hs hturn
      obtain ⟨r, hr⟩ := ih (μ t) (hμ ▸ hlt) ht rfl
      exact ⟨r, (ends_inl hturn).mpr hr⟩
    · exact ⟨x, (ends_inr hturn).mpr rfl⟩

theorem not_ends {I : S → Prop} (hgo : ∀ s, I s → ∃ t, turn s = .inl t ∧ I t) {s : S}
    (hs : I s) (r : R) : ¬ Ends turn s r := by
  rintro ⟨fuel, hrun⟩
  induction fuel generalizing s with
  | zero => simp [run] at hrun
  | succ fuel ih =>
    obtain ⟨t, hturn, ht⟩ := hgo s hs
    exact ih ht (run_inl hturn fuel ▸ hrun)

/-! ## The states one after the other -/

section

variable {f : Nat → S} {go : Nat → Prop} {out : Nat → R}

theorem ends_after (hgo : ∀ k, go k → turn (f k) = .inl (f (k + 1))) {n : Nat}
    (hn : ∀ k < n, go k) {r : R} : Ends turn (f 0) r ↔ Ends turn (f n) r := by
  induction n with
  | zero => exact Iff.rfl
  | succ n ih =>
    rw [ih fun k hk => hn k (by omega)]
    exact ends_inl (hgo n (hn n (by omega)))

theorem ends_trace (hgo : ∀ k, go k → turn (f k) = .inl (f (k + 1)))
    (hout : ∀ k, ¬ go k → turn (f k) = .inr (out k)) {r : R} :
    Ends turn (f 0) r ↔ ∃ n, ¬ go n ∧ (∀ k < n, go k) ∧ r = out n := by
  constructor
  · intro hends
    have hleft : ∃ n, ¬ go n := by
      by_contra hall
      refine not_ends (I := fun s => ∃ k, s = f k) ?_ ⟨0, rfl⟩ r hends
      rintro _ ⟨k, rfl⟩
      exact ⟨f (k + 1), hgo k (not_not.mp (not_exists.mp hall k)), k + 1, rfl⟩
    -- it is left at the first state at which it does not go on
    classical
    have hfirst := Nat.find_spec hleft
    have hbefore : ∀ k < Nat.find hleft, go k := fun k hk => not_not.mp (Nat.find_min hleft hk)
    exact ⟨_, hfirst, hbefore, (ends_inr (hout _ hfirst)).mp ((ends_after hgo hbefore).mp hends)⟩
  · rintro ⟨n, hn, hbefore, rfl⟩
    exact (ends_after hgo hbefore).mpr ((ends_inr (hout n hn)).mpr rfl)

theorem after_trace (hgo : ∀ k, go k → turn (f k) = .inl (f (k + 1)))
    (hout : ∀ k, ¬ go k → turn (f k) = .inr (out k)) {n : Nat} {s : S} :
    after turn n (f 0) = some s ↔ (∀ k < n, go k) ∧ s = f n := by
  suffices hfrom : ∀ k, after turn n (f k) = some s ↔ (∀ j < n, go (k + j)) ∧ s = f (k + n) by
    simpa using hfrom 0
  induction n with
  | zero => simp [after, eq_comm]
  | succ n ih =>
    intro k
    by_cases hk : go k
    · rw [after, hgo k hk]
      simp only
      rw [ih (k + 1), Nat.forall_lt_succ_left]
      simp only [Nat.add_zero, hk, true_and, Nat.add_assoc, Nat.add_comm 1]
    · rw [after, hout k hk]
      simp only [reduceCtorEq, false_iff, not_and]
      exact fun hall => absurd (hall 0 (by omega)) hk

end

end FreeLwip.Loop
