import Mathlib.Data.List.Basic
import Mathlib.Logic.Function.Basic

/-!
# Runs of a partial step function

A system is a function `step : S → A → Option S`. A run takes the actions of a list one
after the other, and stops at the first action that is not possible.
-/

namespace FreeLwip.Run

variable {S A : Type*} {step : S → A → Option S}

/-- The state after all the actions, if each of them was possible. -/
def run (step : S → A → Option S) : S → List A → Option S
  | s, [] => some s
  | s, a :: as => (step s a).bind fun t => run step t as

/-- Each step that the actions take has the property `P`. -/
def EveryStep (step : S → A → Option S) (P : S → A → S → Prop) : S → List A → Prop
  | _, [] => True
  | s, a :: as => ∀ t, step s a = some t → P s a t ∧ EveryStep step P t as

instance EveryStep.decidable {P : S → A → S → Prop} [∀ s a t, Decidable (P s a t)] (s : S)
    (as : List A) : Decidable (EveryStep step P s as) :=
  match as with
  | [] => inferInstanceAs (Decidable True)
  | a :: as =>
    match h : step s a with
    | none => .isTrue fun t ht => by rw [h] at ht; cases ht
    | some u =>
      have := EveryStep.decidable (P := P) u as
      decidable_of_iff (P s a u ∧ EveryStep step P u as)
        ⟨fun hu t ht => by rw [h] at ht; cases ht; exact hu, fun hall => hall u h⟩

@[simp] theorem run_nil (s : S) : run step s [] = some s := rfl

theorem run_cons (s : S) (a : A) (as : List A) :
    run step s (a :: as) = (step s a).bind fun t => run step t as := rfl

theorem run_cons_some {s u : S} {a : A} {as : List A} :
    run step s (a :: as) = some u ↔ ∃ t, step s a = some t ∧ run step t as = some u := by
  rw [run_cons, Option.bind_eq_some_iff]

theorem run_append (s : S) (as bs : List A) :
    run step s (as ++ bs) = (run step s as).bind fun t => run step t bs := by
  induction as generalizing s with
  | nil => rfl
  | cons a as ih =>
    rw [List.cons_append, run_cons, run_cons, Option.bind_assoc]
    exact congrArg _ (funext fun t => ih t)

/-! ## Invariants -/

theorem run_invariant {I : S → Prop} (hstep : ∀ s a t, I s → step s a = some t → I t)
    {s t : S} {as : List A} (hs : I s) (h : run step s as = some t) : I t := by
  induction as generalizing s with
  | nil =>
    rw [run_nil, Option.some.injEq] at h
    exact h ▸ hs
  | cons a as ih =>
    obtain ⟨u, hu, hrest⟩ := run_cons_some.mp h
    exact ih (hstep s a u hs hu) hrest

theorem run_invariant_under {I : S → Prop} {P : S → A → S → Prop}
    (hstep : ∀ s a t, I s → step s a = some t → P s a t → I t)
    {s t : S} {as : List A} (hs : I s) (hP : EveryStep step P s as)
    (h : run step s as = some t) : I t := by
  induction as generalizing s with
  | nil =>
    rw [run_nil, Option.some.injEq] at h
    exact h ▸ hs
  | cons a as ih =>
    obtain ⟨u, hu, hrest⟩ := run_cons_some.mp h
    obtain ⟨hPu, hPrest⟩ := hP u hu
    exact ih (hstep s a u hs hu hPu) hPrest hrest

theorem everyStep_of_forall {P : S → A → S → Prop} {as : List A}
    (h : ∀ a ∈ as, ∀ s t, P s a t) (s : S) : EveryStep step P s as := by
  induction as generalizing s with
  | nil => trivial
  | cons a as ih =>
    rw [List.forall_mem_cons] at h
    exact fun t _ => ⟨h.1 s t, ih h.2 t⟩

theorem everyStep_append {P : S → A → S → Prop} {s t : S} {as bs : List A}
    (h : EveryStep step P s (as ++ bs)) (hrun : run step s as = some t) :
    EveryStep step P s as ∧ EveryStep step P t bs := by
  induction as generalizing s with
  | nil =>
    cases hrun
    exact ⟨trivial, h⟩
  | cons a as ih =>
    obtain ⟨u, hu, hrest⟩ := run_cons_some.mp hrun
    refine ⟨fun v hv => ?_, (ih (h u hu).2 hrest).2⟩
    rw [hu] at hv
    cases hv
    exact ⟨(h u hu).1, (ih (h u hu).2 hrest).1⟩

theorem everyStep_of_invariant {I : S → Prop} {P : S → A → S → Prop}
    (hstep : ∀ s a t, I s → step s a = some t → P s a t ∧ I t)
    {s : S} (as : List A) (hs : I s) : EveryStep step P s as := by
  induction as generalizing s with
  | nil => trivial
  | cons a as ih =>
    intro t ht
    obtain ⟨hP, hI⟩ := hstep s a t hs ht
    exact ⟨hP, ih hI⟩

/-- And so it is for a property that the steps need another one for. -/
theorem everyStep_of_invariant_under {I : S → Prop} {P Q : S → A → S → Prop}
    (hstep : ∀ s a t, I s → step s a = some t → P s a t → Q s a t ∧ I t)
    {s : S} (as : List A) (hs : I s) (hP : EveryStep step P s as) : EveryStep step Q s as := by
  induction as generalizing s with
  | nil => trivial
  | cons a as ih =>
    intro t ht
    obtain ⟨hPt, hrest⟩ := hP t ht
    obtain ⟨hQ, hI⟩ := hstep s a t hs ht hPt
    exact ⟨hQ, ih hI hrest⟩

theorem everyStep_and {P Q : S → A → S → Prop} {s : S} {as : List A} :
    EveryStep step (fun s a t => P s a t ∧ Q s a t) s as ↔
      EveryStep step P s as ∧ EveryStep step Q s as := by
  induction as generalizing s with
  | nil => exact (and_self_iff).symm
  | cons a as ih =>
    simp only [EveryStep, ih]
    constructor
    · intro h
      exact ⟨fun t ht => ⟨(h t ht).1.1, (h t ht).2.1⟩, fun t ht => ⟨(h t ht).1.2, (h t ht).2.2⟩⟩
    · rintro ⟨hP, hQ⟩ t ht
      exact ⟨⟨(hP t ht).1, (hQ t ht).1⟩, (hP t ht).2, (hQ t ht).2⟩

/-- Two step properties that agree as long as they hold, agree over every run. The
invariant may need the property itself: it is only asked for up to the first step that
fails. -/
theorem everyStep_congr {I : S → Prop} {P Q : S → A → S → Prop}
    (hiff : ∀ s a t, I s → step s a = some t → (P s a t ↔ Q s a t))
    (hkeep : ∀ s a t, I s → step s a = some t → P s a t → I t)
    {s : S} (as : List A) (hs : I s) : EveryStep step P s as ↔ EveryStep step Q s as := by
  induction as generalizing s with
  | nil => exact Iff.rfl
  | cons a as ih =>
    constructor
    · intro h t ht
      obtain ⟨hP, hrest⟩ := h t ht
      exact ⟨(hiff s a t hs ht).mp hP, (ih (hkeep s a t hs ht hP)).mp hrest⟩
    · intro h t ht
      obtain ⟨hQ, hrest⟩ := h t ht
      have hP := (hiff s a t hs ht).mpr hQ
      exact ⟨hP, (ih (hkeep s a t hs ht hP)).mpr hrest⟩

/-- The same in a run whose steps have a third property. -/
theorem everyStep_congr_under {I : S → Prop} {P Q R : S → A → S → Prop}
    (hiff : ∀ s a t, I s → step s a = some t → R s a t → (P s a t ↔ Q s a t))
    (hkeep : ∀ s a t, I s → step s a = some t → R s a t → I t)
    {s : S} (as : List A) (hs : I s) (hR : EveryStep step R s as) :
    EveryStep step P s as ↔ EveryStep step Q s as := by
  induction as generalizing s with
  | nil => exact Iff.rfl
  | cons a as ih =>
    refine forall₂_congr fun t ht => ?_
    obtain ⟨hRt, hrest⟩ := hR t ht
    exact and_congr (hiff s a t hs ht hRt) (ih (hkeep s a t hs ht hRt) hrest)

/-! ## One task of many -/

theorem update_cases {α β : Type*} [DecidableEq α] {f : α → β} {a x : α} {b : β} (P : β → Prop)
    (h : P (Function.update f a b x)) : (x = a ∧ P b) ∨ (x ≠ a ∧ P (f x)) := by
  by_cases hx : x = a
  · rw [hx, Function.update_self] at h
    exact .inl ⟨hx, h⟩
  · rw [Function.update_of_ne hx] at h
    exact .inr ⟨hx, h⟩

end FreeLwip.Run
