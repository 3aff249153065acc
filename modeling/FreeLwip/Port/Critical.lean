import Mathlib.Logic.Function.Basic
import FreeLwip.Lib.Run
import FreeLwip.Port.Irq

/-!
# Critical sections, yields and interrupts

The nesting counts live in the TCBs and PIE travels in the saved estatus of each task, but
all tasks share the one `lastContext`.
-/

namespace FreeLwip.Port

open Run

/-- Which of these came last: the disable of `vTaskStartScheduler`, an outermost enter that took
an interrupt enable away, or an enable. -/
inductive Edge
  | start | opened | closed
  deriving DecidableEq, Repr

structure System (Task : Type*) where
  irq : IrqState
  pxCurrentTCB : Task
  uxCriticalNesting : Task → BitVec 32
  /-- The estatus in the frame that the TCB's stack pointer points to. -/
  estatus : Task → AltIrqContext
  /-- How many hardware interrupts have been entered and not left. -/
  depth : Nat
  -- The history of the run; the code reads neither.
  pieOnEntry : Task → Bool
  lastEdge : Edge

def portInitialEstatus : AltIrqContext := 1

variable {Task : Type*} [DecidableEq Task]

namespace System

/-! ## The functions of the port and the kernel -/

def vTaskEnterCritical (s : System Task) : System Task :=
  let t := s.pxCurrentTCB
  let irq := enhAltIrqDisableAll s.irq
  let nesting := Function.update s.uxCriticalNesting t (s.uxCriticalNesting t + 1)
  if s.uxCriticalNesting t = 0 then
    { s with
      irq := irq, uxCriticalNesting := nesting
      pieOnEntry := Function.update s.pieOnEntry t (pie s.irq.status)
      lastEdge := if pie s.irq.status then .opened else s.lastEdge }
  else
    { s with irq := irq, uxCriticalNesting := nesting }

def vTaskExitCritical (s : System Task) : System Task :=
  let t := s.pxCurrentTCB
  if s.uxCriticalNesting t > 0 then
    let s' := { s with
      uxCriticalNesting := Function.update s.uxCriticalNesting t (s.uxCriticalNesting t - 1) }
    if s'.uxCriticalNesting t = 0 then
      { s' with irq := enhAltIrqEnableAll s.irq, lastEdge := .closed }
    else
      s'
  else
    s

/-- The pair around the slot exchange of `low_level_input` and around the count of
`tse_mac_rcv`. Nothing between its two calls can switch tasks. -/
def maskedRegion (s : System Task) : System Task :=
  { s with irq := enhAltIrqEnableAll (enhAltIrqDisableAll s.irq), lastEdge := .closed }

/-- Exception entry: the CPU moves status to estatus and clears PIE, and `save_context`
stores estatus into the frame of `pxCurrentTCB`. -/
def saveContext (s : System Task) : System Task :=
  { s with
    estatus := Function.update s.estatus s.pxCurrentTCB s.irq.status
    irq := { s.irq with status := s.irq.status &&& ~~~nios2StatusPieMsk } }

/-- `restore_context` up to its `eret`. -/
def restoreContext (s : System Task) : System Task :=
  { s with irq := { s.irq with status := s.estatus s.pxCurrentTCB } }

/-- The tasks are made with nesting 0 and with PIE set in their first frame. -/
def vTaskStartScheduler (first : Task) (irq : IrqState) : System Task :=
  restoreContext
    { irq := enhAltIrqDisableAll irq
      pxCurrentTCB := first
      uxCriticalNesting := fun _ => 0
      estatus := fun _ => portInitialEstatus
      depth := 0
      pieOnEntry := fun _ => false
      lastEdge := if pie irq.status || pie irq.lastContext then .start else .closed }

end System

inductive Action (Task : Type*)
  | portEnterCritical
  | portExitCritical
  | lowLevelInput
  /-- `portYIELD`, with the task that `vTaskSwitchContext` picks. -/
  | portYield (next : Task)
  | interrupt
  | tseMacRcv
  /-- `vTaskSwitchContext` in an interrupt (the tick, `portEND_SWITCHING_ISR`). -/
  | vTaskSwitchContext (next : Task)
  | eret
  deriving DecidableEq, Repr

/-- One action. The driver's task calls `low_level_input` outside critical sections. A
second interrupt entered in a handler (depth 2) has overwritten the stack pointer in the
TCB, and the run is not followed further; nor is it where a nesting count would wrap. -/
def step (s : System Task) : Action Task → Option (System Task)
  | .portEnterCritical =>
    if s.depth = 0 ∧ s.uxCriticalNesting s.pxCurrentTCB ≠ BitVec.allOnes 32 then
      some s.vTaskEnterCritical
    else
      none
  | .portExitCritical => if s.depth = 0 then some s.vTaskExitCritical else none
  | .lowLevelInput =>
    if s.depth = 0 ∧ s.uxCriticalNesting s.pxCurrentTCB = 0 then some s.maskedRegion else none
  | .portYield next =>
    if s.depth = 0 then some { s.saveContext with pxCurrentTCB := next }.restoreContext else none
  | .interrupt =>
    if s.depth < 2 ∧ pie s.irq.status then some { s.saveContext with depth := s.depth + 1 }
    else none
  | .tseMacRcv => if s.depth = 1 then some s.maskedRegion else none
  | .vTaskSwitchContext next =>
    if s.depth = 1 then some { s with pxCurrentTCB := next } else none
  | .eret => if s.depth = 1 then some { s.restoreContext with depth := 0 } else none

inductive Moves (s : System Task) : Action Task → System Task → Prop
  | portEnterCritical (inTask : s.depth = 0)
      (fits : s.uxCriticalNesting s.pxCurrentTCB ≠ BitVec.allOnes 32) :
      Moves s .portEnterCritical s.vTaskEnterCritical
  | portExitCritical (inTask : s.depth = 0) : Moves s .portExitCritical s.vTaskExitCritical
  | lowLevelInput (inTask : s.depth = 0) (outside : s.uxCriticalNesting s.pxCurrentTCB = 0) :
      Moves s .lowLevelInput s.maskedRegion
  | portYield {next : Task} (inTask : s.depth = 0) :
      Moves s (.portYield next) { s.saveContext with pxCurrentTCB := next }.restoreContext
  | interrupt (depth : s.depth < 2) (enabled : pie s.irq.status = true) :
      Moves s .interrupt { s.saveContext with depth := s.depth + 1 }
  | tseMacRcv (inHandler : s.depth = 1) : Moves s .tseMacRcv s.maskedRegion
  | vTaskSwitchContext {next : Task} (inHandler : s.depth = 1) :
      Moves s (.vTaskSwitchContext next) { s with pxCurrentTCB := next }
  | eret (inHandler : s.depth = 1) : Moves s .eret { s.restoreContext with depth := 0 }

theorem moves_of_step {s s' : System Task} {a : Action Task} (h : step s a = some s') :
    Moves s a s' := by
  cases a <;> simp only [step, Option.ite_none_right_eq_some, Option.some.injEq] at h <;>
    obtain ⟨h, rfl⟩ := h
  case portEnterCritical => exact .portEnterCritical h.1 h.2
  case portExitCritical => exact .portExitCritical h
  case lowLevelInput => exact .lowLevelInput h.1 h.2
  case portYield => exact .portYield h
  case interrupt => exact .interrupt h.1 h.2
  case tseMacRcv => exact .tseMacRcv h
  case vTaskSwitchContext => exact .vTaskSwitchContext h
  case eret => exact .eret h

/-! ## What each function does to PIE -/

section Effects

variable (s : System Task)

/-- The PIE bit that task `t` runs with, or will run with when it is switched in. -/
def System.taskPie (t : Task) : Bool :=
  if s.depth = 0 ∧ t = s.pxCurrentTCB then pie s.irq.status else pie (s.estatus t)

theorem taskPie_current (h : s.depth = 0) : s.taskPie s.pxCurrentTCB = pie s.irq.status := by
  simp [System.taskPie, h]

theorem nesting_cases (n : BitVec 32) : n = 0 ∨ n = 1 ∨ n ≠ 0 ∧ n - 1 ≠ 0 := by
  by_cases h0 : n = 0
  · exact .inl h0
  · by_cases h1 : n = 1
    · exact .inr (.inl h1)
    · exact .inr (.inr ⟨h0, fun h => h1 (sub_eq_zero.mp h)⟩)

theorem nesting_succ {n : BitVec 32} (h : n ≠ BitVec.allOnes 32) : n + 1 ≠ 0 := by
  intro hzero
  refine h (BitVec.eq_of_toNat_eq ?_)
  have hsum := congrArg BitVec.toNat hzero
  rw [BitVec.toNat_add] at hsum
  have hlt := n.isLt
  simp at hsum ⊢
  omega

theorem enter_outermost (h : s.uxCriticalNesting s.pxCurrentTCB = 0) :
    s.vTaskEnterCritical = { s with
      irq := enhAltIrqDisableAll s.irq
      uxCriticalNesting := Function.update s.uxCriticalNesting s.pxCurrentTCB 1
      pieOnEntry := Function.update s.pieOnEntry s.pxCurrentTCB (pie s.irq.status)
      lastEdge := if pie s.irq.status then .opened else s.lastEdge } := by
  simp [System.vTaskEnterCritical, h]

theorem enter_nested (h : s.uxCriticalNesting s.pxCurrentTCB ≠ 0) :
    s.vTaskEnterCritical = { s with
      irq := enhAltIrqDisableAll s.irq
      uxCriticalNesting := Function.update s.uxCriticalNesting s.pxCurrentTCB
        (s.uxCriticalNesting s.pxCurrentTCB + 1) } :=
  if_neg h

theorem exit_outside (h : s.uxCriticalNesting s.pxCurrentTCB = 0) : s.vTaskExitCritical = s := by
  simp [System.vTaskExitCritical, h]

theorem exit_outermost (h : s.uxCriticalNesting s.pxCurrentTCB = 1) :
    s.vTaskExitCritical = { s with
      irq := enhAltIrqEnableAll s.irq
      uxCriticalNesting := Function.update s.uxCriticalNesting s.pxCurrentTCB 0
      lastEdge := .closed } := by
  simp [System.vTaskExitCritical, h]

theorem exit_nested (h : s.uxCriticalNesting s.pxCurrentTCB ≠ 0)
    (h' : s.uxCriticalNesting s.pxCurrentTCB - 1 ≠ 0) :
    s.vTaskExitCritical = { s with
      uxCriticalNesting := Function.update s.uxCriticalNesting s.pxCurrentTCB
        (s.uxCriticalNesting s.pxCurrentTCB - 1) } := by
  have hpos : s.uxCriticalNesting s.pxCurrentTCB > 0 := (BitVec.pos_iff_ne_zero _).mpr h
  unfold System.vTaskExitCritical
  dsimp only
  rw [if_pos hpos]
  simp only [Function.update_self, h', if_false]

@[simp] theorem enter_depth : s.vTaskEnterCritical.depth = s.depth := by
  unfold System.vTaskEnterCritical
  dsimp only
  split <;> rfl

@[simp] theorem exit_depth : s.vTaskExitCritical.depth = s.depth := by
  unfold System.vTaskExitCritical
  dsimp only
  split_ifs <;> rfl

end Effects

/-! ## Where PIE is -/

section TaskPie

variable {s : System Task}

theorem taskPie_yield (h0 : s.depth = 0) (next t : Task) :
    System.taskPie { s.saveContext with pxCurrentTCB := next }.restoreContext t = s.taskPie t := by
  have hsave : pie (s.saveContext.estatus t) = s.taskPie t := by
    by_cases h : t = s.pxCurrentTCB
    · simp [System.taskPie, System.saveContext, h, h0]
    · simp [System.taskPie, System.saveContext, h]
  rw [← hsave]
  by_cases h : t = next
  · simp [System.taskPie, System.restoreContext, h]
  · simp [System.taskPie, System.restoreContext, h]

theorem taskPie_interrupt (h0 : s.depth = 0) (t : Task) :
    System.taskPie { s.saveContext with depth := s.depth + 1 } t = s.taskPie t := by
  by_cases h : t = s.pxCurrentTCB
  · simp [System.taskPie, System.saveContext, h, h0]
  · simp [System.taskPie, System.saveContext, h]

theorem taskPie_switch (h1 : s.depth = 1) (next t : Task) :
    System.taskPie { s with pxCurrentTCB := next } t = s.taskPie t := by
  simp [System.taskPie, h1]

theorem taskPie_eret (h1 : s.depth = 1) (t : Task) :
    System.taskPie { s.restoreContext with depth := 0 } t = s.taskPie t := by
  by_cases h : t = s.pxCurrentTCB
  · simp [System.taskPie, System.restoreContext, h, h1]
  · simp [System.taskPie, System.restoreContext, h]

end TaskPie

/-- A task has PIE set only outside its sections, and `lastContext` holds a PIE exactly after a
disable that took one away. -/
structure Stashed (s : System Task) : Prop where
  outside : ∀ t, s.taskPie t = true → s.uxCriticalNesting t = 0
  lastContext : pie s.irq.lastContext = true ↔ s.lastEdge ≠ .closed

theorem stashed_start (first : Task) (irq : IrqState) :
    Stashed (System.vTaskStartScheduler first irq) where
  outside _ _ := rfl
  lastContext := by
    simp only [System.vTaskStartScheduler, System.restoreContext, disable_lastContext]
    cases pie irq.status <;> cases pie irq.lastContext <;> simp

namespace Stashed

variable {s : System Task}

theorem clear_inside (hs : Stashed s) (h0 : s.depth = 0)
    (hn : s.uxCriticalNesting s.pxCurrentTCB ≠ 0) : pie s.irq.status = false := by
  rw [← taskPie_current s h0, ← Bool.not_eq_true]
  exact fun hset => hn (hs.outside _ hset)

theorem enter (hs : Stashed s) (h0 : s.depth = 0) : Stashed s.vTaskEnterCritical := by
  by_cases hn : s.uxCriticalNesting s.pxCurrentTCB = 0
  · rw [enter_outermost s hn]
    refine ⟨fun t ht => ?_, ?_⟩
    · by_cases h : t = s.pxCurrentTCB
      · simp [System.taskPie, h0, h] at ht
      · simpa [h] using hs.outside t (by simpa [System.taskPie, h] using ht)
    · simp only [disable_lastContext, Bool.or_eq_true, hs.lastContext]
      cases pie s.irq.status <;> simp
  · have hlive := hs.clear_inside h0 hn
    rw [enter_nested s hn]
    refine ⟨fun t ht => ?_, by simpa [hlive] using hs.lastContext⟩
    by_cases h : t = s.pxCurrentTCB
    · simp [System.taskPie, h0, h] at ht
    · simpa [h] using hs.outside t (by simpa [System.taskPie, h] using ht)

theorem exit (hs : Stashed s) (h0 : s.depth = 0) : Stashed s.vTaskExitCritical := by
  rcases nesting_cases (s.uxCriticalNesting s.pxCurrentTCB) with hn | hn | ⟨hn, hn'⟩
  · rwa [exit_outside s hn]
  · rw [exit_outermost s hn]
    refine ⟨fun t ht => ?_, by simp⟩
    by_cases h : t = s.pxCurrentTCB
    · simp [h]
    · simpa [h] using hs.outside t (by simpa [System.taskPie, h] using ht)
  · have hlive := hs.clear_inside h0 hn
    rw [exit_nested s hn hn']
    refine ⟨fun t ht => ?_, hs.lastContext⟩
    by_cases h : t = s.pxCurrentTCB
    · simp [System.taskPie, h0, h, hlive] at ht
    · simpa [h] using hs.outside t (by simpa [System.taskPie, h] using ht)

theorem congr {s' : System Task} (hs : Stashed s) (hn : s'.uxCriticalNesting = s.uxCriticalNesting)
    (he : s'.lastEdge = s.lastEdge) (hc : s'.irq.lastContext = s.irq.lastContext)
    (hp : ∀ t, s'.taskPie t = s.taskPie t) : Stashed s' := by
  refine ⟨fun t => ?_, ?_⟩
  · rw [hp, hn]
    exact hs.outside t
  · rw [he, hc]
    exact hs.lastContext

theorem maskedRegion (hs : Stashed s) (h : s.depth = 0 → s.uxCriticalNesting s.pxCurrentTCB = 0) :
    Stashed s.maskedRegion := by
  refine ⟨fun t ht => ?_, by simp [System.maskedRegion]⟩
  by_cases hcur : s.depth = 0 ∧ t = s.pxCurrentTCB
  · rw [hcur.2]
    exact h hcur.1
  · exact hs.outside t (by simpa [System.taskPie, System.maskedRegion, hcur] using ht)

end Stashed

/-- Nothing is known once an interrupt handler has been interrupted. -/
def StashedInv (s : System Task) : Prop :=
  s.depth ≤ 1 → Stashed s

theorem stashedInv_step (s : System Task) (a : Action Task) (s' : System Task) (hs : StashedInv s)
    (h : step s a = some s') : StashedInv s' := by
  intro h1
  cases moves_of_step h with
  | portEnterCritical h0 => exact (hs (by omega)).enter h0
  | portExitCritical h0 => exact (hs (by omega)).exit h0
  | lowLevelInput h0 hn => exact (hs (by omega)).maskedRegion fun _ => hn
  | portYield h0 => exact (hs (by omega)).congr rfl rfl rfl (taskPie_yield h0 _)
  | interrupt =>
    have h0 : s.depth = 0 := by simpa using h1
    exact (hs (by omega)).congr rfl rfl rfl (taskPie_interrupt h0)
  | tseMacRcv hd => exact (hs (by omega)).maskedRegion fun h0 => absurd hd (by omega)
  | vTaskSwitchContext hd => exact (hs (by omega)).congr rfl rfl rfl (taskPie_switch hd _)
  | eret hd => exact (hs (by omega)).congr rfl rfl rfl (taskPie_eret hd)

/-! ## Critical sections -/

/-- As long as critical sections restore PIE, a task runs with PIE set exactly outside its
sections. -/
structure Sections (s : System Task) : Prop extends Stashed s where
  enabled : ∀ t, s.uxCriticalNesting t = 0 → s.taskPie t = true
  pieOnEntry : ∀ t, s.uxCriticalNesting t ≠ 0 → s.pieOnEntry t = true
  start : s.lastEdge = .start → ∀ t, s.uxCriticalNesting t = 0

def SectionsInv (s : System Task) : Prop :=
  s.depth ≤ 1 → Sections s

/-- An exit that brings the nesting count back to 0 leaves PIE as the matching enter found
it. -/
def RestoresPie (s : System Task) : Action Task → System Task → Prop
  | .portExitCritical, s' =>
    s.uxCriticalNesting s.pxCurrentTCB = 1 → pie s'.irq.status = s.pieOnEntry s.pxCurrentTCB
  | _, _ => True

/-- An exit that brings the nesting count back to 0 finds that, since the last enable, some
task has entered an outermost critical section with interrupts enabled. -/
def OpenedSinceEnable (s : System Task) : Action Task → System Task → Prop
  | .portExitCritical, _ => s.uxCriticalNesting s.pxCurrentTCB = 1 → s.lastEdge = .opened
  | _, _ => True

theorem sections_start (first : Task) (irq : IrqState) :
    Sections (System.vTaskStartScheduler first irq) where
  toStashed := stashed_start first irq
  enabled t _ := by
    by_cases h : t = first
    · simp [System.taskPie, System.vTaskStartScheduler, System.restoreContext, portInitialEstatus,
        pie, h]
    · simp [System.taskPie, System.vTaskStartScheduler, System.restoreContext, portInitialEstatus,
        pie, h]
  pieOnEntry t h := absurd rfl h
  start _ _ := rfl

namespace Sections

variable {s : System Task}

theorem enter (hs : Sections s) (h0 : s.depth = 0)
    (hfits : s.uxCriticalNesting s.pxCurrentTCB ≠ BitVec.allOnes 32) :
    Sections s.vTaskEnterCritical := by
  have hstashed := hs.toStashed.enter h0
  by_cases hn : s.uxCriticalNesting s.pxCurrentTCB = 0
  · have hlive : pie s.irq.status = true := taskPie_current s h0 ▸ hs.enabled _ hn
    rw [enter_outermost s hn] at hstashed ⊢
    refine ⟨hstashed, fun t ht => ?_, fun t ht => ?_, by simp [hlive]⟩
    · have hne : t ≠ s.pxCurrentTCB := fun h => by simp [h] at ht
      simpa [System.taskPie, hne] using hs.enabled t (by simpa [hne] using ht)
    · by_cases h : t = s.pxCurrentTCB
      · simp [h, hlive]
      · simpa [h] using hs.pieOnEntry t (by simpa [h] using ht)
  · rw [enter_nested s hn] at hstashed ⊢
    refine ⟨hstashed, fun t ht => ?_, fun t ht => ?_, fun hstart => ?_⟩
    · have hne : t ≠ s.pxCurrentTCB := fun h => nesting_succ hfits (by simpa [h] using ht)
      simpa [System.taskPie, hne] using hs.enabled t (by simpa [hne] using ht)
    · by_cases h : t = s.pxCurrentTCB
      · exact hs.pieOnEntry t (h ▸ hn)
      · exact hs.pieOnEntry t (by simpa [h] using ht)
    · exact absurd (hs.start hstart s.pxCurrentTCB) hn

theorem exit (hs : Sections s) (h0 : s.depth = 0)
    (hr : RestoresPie s .portExitCritical s.vTaskExitCritical) :
    Sections s.vTaskExitCritical := by
  have hstashed := hs.toStashed.exit h0
  rcases nesting_cases (s.uxCriticalNesting s.pxCurrentTCB) with hn | hn | ⟨hn, hn'⟩
  · rwa [exit_outside s hn]
  · have hpie := hr hn
    rw [hs.pieOnEntry _ (by rw [hn]; decide)] at hpie
    rw [exit_outermost s hn] at hpie hstashed ⊢
    refine ⟨hstashed, fun t ht => ?_, fun t ht => ?_, by simp⟩
    · by_cases h : t = s.pxCurrentTCB
      · simpa [System.taskPie, h0, h] using hpie
      · simpa [System.taskPie, h] using hs.enabled t (by simpa [h] using ht)
    · by_cases h : t = s.pxCurrentTCB
      · simp [h] at ht
      · exact hs.pieOnEntry t (by simpa [h] using ht)
  · rw [exit_nested s hn hn'] at hstashed ⊢
    refine ⟨hstashed, fun t ht => ?_, fun t ht => ?_, fun hstart => ?_⟩
    · have hne : t ≠ s.pxCurrentTCB := fun h => hn' (by simpa [h] using ht)
      simpa [System.taskPie, hne] using hs.enabled t (by simpa [hne] using ht)
    · by_cases h : t = s.pxCurrentTCB
      · exact hs.pieOnEntry t (h ▸ hn)
      · exact hs.pieOnEntry t (by simpa [h] using ht)
    · exact absurd (hs.start hstart s.pxCurrentTCB) hn

theorem congr {s' : System Task} (hs : Sections s)
    (hn : s'.uxCriticalNesting = s.uxCriticalNesting) (ho : s'.pieOnEntry = s.pieOnEntry)
    (he : s'.lastEdge = s.lastEdge) (hc : s'.irq.lastContext = s.irq.lastContext)
    (hp : ∀ t, s'.taskPie t = s.taskPie t) : Sections s' := by
  refine ⟨hs.toStashed.congr hn he hc hp, fun t => ?_, fun t => ?_, ?_⟩
  · rw [hp, hn]
    exact hs.enabled t
  · rw [ho, hn]
    exact hs.pieOnEntry t
  · rw [he, hn]
    exact hs.start

theorem maskedRegion (hs : Sections s)
    (h : s.depth = 0 → s.uxCriticalNesting s.pxCurrentTCB = 0) : Sections s.maskedRegion := by
  refine ⟨hs.toStashed.maskedRegion h, fun t ht => ?_, hs.pieOnEntry,
    by simp [System.maskedRegion]⟩
  by_cases hcur : s.depth = 0 ∧ t = s.pxCurrentTCB
  · obtain ⟨h0, rfl⟩ := hcur
    have hlive : pie s.irq.status = true := taskPie_current s h0 ▸ hs.enabled _ (h h0)
    simp [System.taskPie, System.maskedRegion, h0, hlive]
  · simpa [System.taskPie, System.maskedRegion, hcur] using hs.enabled t ht

end Sections

theorem sectionsInv_step (s : System Task) (a : Action Task) (s' : System Task)
    (hs : SectionsInv s) (h : step s a = some s') (hr : RestoresPie s a s') :
    SectionsInv s' := by
  intro h1
  cases moves_of_step h with
  | portEnterCritical h0 hfits => exact (hs (by omega)).enter h0 hfits
  | portExitCritical h0 => exact (hs (by omega)).exit h0 hr
  | lowLevelInput h0 hn => exact (hs (by omega)).maskedRegion fun _ => hn
  | portYield h0 => exact (hs (by omega)).congr rfl rfl rfl rfl (taskPie_yield h0 _)
  | interrupt =>
    have h0 : s.depth = 0 := by simpa using h1
    exact (hs (by omega)).congr rfl rfl rfl rfl (taskPie_interrupt h0)
  | tseMacRcv hd => exact (hs (by omega)).maskedRegion fun h0 => absurd hd (by omega)
  | vTaskSwitchContext hd => exact (hs (by omega)).congr rfl rfl rfl rfl (taskPie_switch hd _)
  | eret hd => exact (hs (by omega)).congr rfl rfl rfl rfl (taskPie_eret hd)

/-- The exit writes back lastContext's PIE, and that is set exactly if the last edge was an
enter: an earlier exit or receive interrupt has used up the one that this section saved. -/
theorem restoresPie_iff_opened (s : System Task) (a : Action Task) (s' : System Task)
    (hs : SectionsInv s) (h : step s a = some s') :
    RestoresPie s a s' ↔ OpenedSinceEnable s a s' := by
  cases moves_of_step h with
  | portExitCritical h0 =>
    have hs := hs (by omega)
    refine forall_congr' fun hn => ?_
    have hin : s.uxCriticalNesting s.pxCurrentTCB ≠ 0 := by
      rw [hn]
      decide
    rw [exit_outermost s hn, hs.pieOnEntry s.pxCurrentTCB hin, enable_status, hs.lastContext]
    cases he : s.lastEdge with
    | start => exact absurd (hs.start he s.pxCurrentTCB) hin
    | opened => simp
    | closed => simp
  | _ => exact Iff.rfl

/-- In every run the critical sections restore PIE if and only if each exit to nesting 0
finds an outermost enter with interrupts enabled after the last enable. -/
theorem exitCritical_restores_pie_iff (first : Task) (irq : IrqState) (as : List (Action Task)) :
    EveryStep step RestoresPie (System.vTaskStartScheduler first irq) as ↔
      EveryStep step OpenedSinceEnable (System.vTaskStartScheduler first irq) as :=
  everyStep_congr restoresPie_iff_opened sectionsInv_step as
    fun _ => sections_start first irq

/-- Task 0 yields inside its section; task 1 enters and leaves one, which uses up the PIE
that task 0 saved; task 0 leaves with PIE clear. -/
theorem exitCritical_loses_pie :
    ¬ EveryStep step RestoresPie (System.vTaskStartScheduler 0 ⟨1, 0⟩ : System Nat)
      [.portEnterCritical, .portYield 1, .portEnterCritical, .portExitCritical, .portYield 0,
        .portExitCritical] := by
  intro h
  obtain ⟨-, h⟩ := h _ rfl
  obtain ⟨-, h⟩ := h _ rfl
  obtain ⟨-, h⟩ := h _ rfl
  obtain ⟨-, h⟩ := h _ rfl
  obtain ⟨-, h⟩ := h _ rfl
  obtain ⟨hexit, -⟩ := h _ rfl
  exact absurd (hexit rfl) (by decide)

/-! ## Interrupt handlers -/

/-- In a handler PIE is clear, and no handler has been entered from a handler. -/
def Masked (s : System Task) : Prop :=
  s.depth ≤ 1 ∧ (s.depth = 1 → pie s.irq.status = false)

def StaysMasked (_ : System Task) (_ : Action Task) (s' : System Task) : Prop :=
  Masked s'

/-- The receive interrupt comes after an enable, and since that no task has entered an outermost
critical section with interrupts enabled. -/
def ClosedSinceEnable (s : System Task) : Action Task → System Task → Prop
  | .tseMacRcv, _ => s.lastEdge = .closed
  | _, _ => True

theorem masked_step_iff (s : System Task) (a : Action Task) (s' : System Task)
    (hs : Masked s ∧ StashedInv s) (h : step s a = some s') :
    StaysMasked s a s' ↔ ClosedSinceEnable s a s' := by
  obtain ⟨⟨hle, hpie⟩, hstashed⟩ := hs
  cases moves_of_step h with
  | portEnterCritical h0 => exact iff_of_true ⟨by simp [h0], by simp [h0]⟩ trivial
  | portExitCritical h0 => exact iff_of_true ⟨by simp [h0], by simp [h0]⟩ trivial
  | lowLevelInput h0 =>
    exact iff_of_true ⟨hle, by simp [System.maskedRegion, h0]⟩ trivial
  | portYield h0 =>
    exact iff_of_true ⟨hle, by simp [System.restoreContext, System.saveContext, h0]⟩ trivial
  | interrupt _ hset =>
    -- PIE is set, so this is no handler.
    have h0 : s.depth = 0 := by
      by_contra h0
      rw [hpie (by omega)] at hset
      exact Bool.false_ne_true hset
    exact iff_of_true ⟨by simp [h0], by simp [System.saveContext]⟩ trivial
  | tseMacRcv h1 =>
    -- the pair is all that sets PIE in a handler
    have hclosed : pie s.irq.lastContext = false ↔ s.lastEdge = .closed := by
      rw [← Bool.not_eq_true, (hstashed hle).lastContext, not_not]
    rw [ClosedSinceEnable, ← hclosed]
    simp [StaysMasked, Masked, System.maskedRegion, h1, hpie h1]
  | vTaskSwitchContext => exact iff_of_true ⟨hle, hpie⟩ trivial
  | eret => exact iff_of_true ⟨by simp, by simp⟩ trivial

/-- In every run handlers stay masked and are not entered recursively if and only if each receive
interrupt comes after an enable since which no task has entered an outermost critical section. -/
theorem handler_masked_iff (first : Task) (irq : IrqState) (as : List (Action Task)) :
    EveryStep step StaysMasked (System.vTaskStartScheduler first irq) as ↔
      EveryStep step ClosedSinceEnable (System.vTaskStartScheduler first irq) as := by
  refine everyStep_congr (I := fun s => Masked s ∧ StashedInv s) masked_step_iff
    (fun s a s' hs h hmasked => ⟨hmasked, stashedInv_step s a s' hs.2 h⟩) as
    ⟨⟨Nat.zero_le 1, fun h => ?_⟩, fun _ => stashed_start first irq⟩
  exact absurd h (by simp [System.vTaskStartScheduler, System.restoreContext])

/-- The disable of `vTaskStartScheduler` is still open when the first frame arrives: its
receive interrupt sets PIE, and the next interrupt is entered inside it. -/
theorem handler_reentered :
    ¬ EveryStep step StaysMasked (System.vTaskStartScheduler 0 ⟨1, 0⟩ : System Nat)
      [.interrupt, .tseMacRcv, .interrupt] := by
  intro h
  obtain ⟨-, h⟩ := h _ rfl
  obtain ⟨-, h⟩ := h _ rfl
  obtain ⟨hnested, -⟩ := h _ rfl
  exact absurd hnested.1 (by decide)

end FreeLwip.Port
