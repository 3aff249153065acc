import Mathlib.Logic.Function.Basic
import FreeLwip.Lib.Run
import FreeLwip.Kernel.Mutex
import FreeLwip.Kernel.TimeOut

/-!
# The heap and its lock (`heap_3.c`, `alt_malloc_lock.c`, `tasks.c`)

`malloc` and `free` of the C library call `__malloc_lock` before they touch the heap and
`__malloc_unlock` after it. The kernel's own allocations suspend the scheduler around them.
-/

namespace FreeLwip.Kernel.Heap

open Run

variable {T : Type*} [DecidableEq T]

/-- The calls that touch the heap; `vPortFree` of a pointer that is not null. -/
inductive HeapCall
  | malloc | free | pvPortMalloc | vPortFree
  deriving DecidableEq, Repr

/-- Called with the scheduler suspended. -/
def HeapCall.isPort : HeapCall → Bool
  | .pvPortMalloc => true
  | .vPortFree => true
  | _ => false

def mallocLockBlockTime : PortTickType := 10

/-- What a task does, or `main` before there are tasks. -/
inductive Pc
  | app
  /-- About to call `__malloc_lock`. -/
  | malloc (c : HeapCall)
  -- In `xQueueGenericReceive`: at its critical section, at the check of the time, and blocked.
  | receive (c : HeapCall) (xTicksToWait : PortTickType) (xTimeOut : Option TimeOut)
  | check (c : HeapCall) (xTicksToWait : PortTickType) (xTimeOut : TimeOut)
  | blocked (c : HeapCall) (xTicksToWait : PortTickType) (xTimeOut : TimeOut) (xTimeToWake : Nat)
  -- At `vTaskDelay`, and in it.
  | delay (c : HeapCall)
  | delayed (c : HeapCall) (xTimeToWake : Nat)
  | heap (c : HeapCall)
  /-- About to call `xTaskResumeAll`. -/
  | resume (c : HeapCall)
  deriving DecidableEq, Repr

namespace Pc

/-- In `__malloc_lock`, without the lock. -/
def waits : Pc → Bool
  | .receive _ _ _ => true
  | .check _ _ _ => true
  | .blocked _ _ _ _ => true
  | .delay _ => true
  | .delayed _ _ => true
  | _ => false

def touchesHeap : Pc → Bool
  | .heap _ => true
  | _ => false

def resumes : Pc → Bool
  | .resume _ => true
  | _ => false

/-- Between `vTaskSuspendAll` and `xTaskResumeAll`. -/
def isPort : Pc → Bool
  | .app => false
  | .malloc c => c.isPort
  | .receive c _ _ => c.isPort
  | .check c _ _ => c.isPort
  | .blocked c _ _ _ => c.isPort
  | .delay c => c.isPort
  | .delayed c _ => c.isPort
  | .heap c => c.isPort
  | .resume _ => true

def isReady : Pc → Bool
  | .blocked _ _ _ _ => false
  | .delayed _ _ => false
  | _ => true

def wakesAt : Pc → Nat → Bool
  | .blocked _ _ _ xTimeToWake, now => xTimeToWake = now
  | .delayed _ xTimeToWake, now => xTimeToWake = now
  | _, _ => false

/-- Where a task goes on that has been woken. -/
def woken : Pc → Pc
  | .blocked c xTicksToWait xTimeOut _ => .receive c xTicksToWait (some xTimeOut)
  | .delayed c _ => .receive c mallocLockBlockTime none
  | pc => pc

/-- After `malloc` and `free`. -/
def returned (c : HeapCall) : Pc :=
  if c.isPort then .resume c else .app

end Pc

/-- Without `uxMissedTicks`, `now` is the tick count; `pc none` is where `main` is. -/
structure System (T : Type*) where
  xSchedulerRunning : Bool
  /-- None while `main` runs. -/
  pxCurrentTCB : Option T
  uxSchedulerSuspended : Nat
  uxMissedTicks : Nat
  now : Nat
  altHeapsem : Mutex T
  xTasksWaitingToReceive : List T
  pc : Option T → Pc

inductive Action (T : Type*)
  /-- `vTaskStartScheduler`, up to the first task. -/
  | startScheduler (first : T)
  /-- `vTaskSwitchContext` from an interrupt or a yield. -/
  | switchContext (next : T)
  | tick
  | call (c : HeapCall)
  /-- `__malloc_lock`, also from within: `realloc` calls `malloc`. -/
  | mallocLock
  | receive
  /-- `vListInsert` orders the event list by priority; here the task gets any place in it. -/
  | check (place : Nat)
  | delay
  | mallocUnlock
  | resumeAll

namespace System

/-- `ALT_OS_INIT` has made the lock. -/
def start : System T where
  xSchedulerRunning := false
  pxCurrentTCB := none
  uxSchedulerSuspended := 0
  uxMissedTicks := 0
  now := 0
  altHeapsem := Mutex.xQueueCreateMutex
  xTasksWaitingToReceive := []
  pc := fun _ => .app

/-- What runs goes on at `pc`. -/
def goto (s : System T) (pc : Pc) : System T :=
  { s with pc := Function.update s.pc s.pxCurrentTCB pc }

/-- The tasks whose time has come leave the event list too. -/
def incrementTick (s : System T) : System T :=
  { s with
    now := s.now + 1
    xTasksWaitingToReceive :=
      s.xTasksWaitingToReceive.filter fun t => !(s.pc (some t)).wakesAt (s.now + 1)
    pc := fun x => if (s.pc x).wakesAt (s.now + 1) then (s.pc x).woken else s.pc x }

def vTaskIncrementTick (s : System T) : System T :=
  if s.uxSchedulerSuspended = 0 then s.incrementTick
  else { s with uxMissedTicks := s.uxMissedTicks + 1 }

def xTaskResumeAll (s : System T) : System T :=
  if s.uxSchedulerSuspended - 1 = 0 then
    let u := incrementTick^[s.uxMissedTicks] { s with uxSchedulerSuspended := 0 }
    { u with uxMissedTicks := 0 }
  else
    { s with uxSchedulerSuspended := s.uxSchedulerSuspended - 1 }

/-- The first task of the event list wakes. -/
def xTaskRemoveFromEventList (s : System T) : System T :=
  match s.xTasksWaitingToReceive with
  | [] => s
  | t :: rest =>
    { s with
      xTasksWaitingToReceive := rest
      pc := Function.update s.pc (some t) (s.pc (some t)).woken }

def mallocLock (s : System T) (c : HeapCall) : System T :=
  if s.xSchedulerRunning then
    match s.pxCurrentTCB with
    | none => s
    | some t =>
      if h : s.altHeapsem.pxMutexHolder = some t then
        { s with altHeapsem := s.altHeapsem.takeAgain t h }.goto (.heap c)
      else
        s.goto (.receive c mallocLockBlockTime none)
  else
    s.goto (.heap c)

def mallocUnlock (s : System T) (c : HeapCall) : System T :=
  if s.xSchedulerRunning then
    match s.pxCurrentTCB with
    | none => s
    | some t =>
      match s.altHeapsem.giveRecursive t with
      | none => s.goto (.returned c)
      | some m =>
        if m.pxMutexHolder = none then
          { s with altHeapsem := m }.xTaskRemoveFromEventList.goto (.returned c)
        else
          { s with altHeapsem := m }
  else
    s.goto (.returned c)

/-- Blocking does not stop a task that has suspended the scheduler. What a second insertion
would do to the event list is left open: the task stays in the loop, or in `vListInsert`. -/
def block (s : System T) (t : T) (place : Nat) (c : HeapCall) (xTicksToWait : PortTickType)
    (xTimeOut : TimeOut) : System T :=
  let u := { s with
    xTasksWaitingToReceive :=
      if t ∈ s.xTasksWaitingToReceive then s.xTasksWaitingToReceive
      else s.xTasksWaitingToReceive.insertIdx place t }
  if s.uxSchedulerSuspended = 0 then
    u.goto (.blocked c xTicksToWait xTimeOut (s.now + xTicksToWait.toNat))
  else
    u.goto (.receive c xTicksToWait (some xTimeOut))

def receive (s : System T) (t : T) (c : HeapCall) (xTicksToWait : PortTickType)
    (xTimeOut : Option TimeOut) : System T :=
  match s.altHeapsem.receiveTry t with
  | some m => { s with altHeapsem := m }.goto (.heap c)
  | none =>
    if xTicksToWait = 0 then
      s.goto (.delay c)
    else
      s.goto (.check c xTicksToWait (xTimeOut.getD (vTaskSetTimeOutState s.now)))

def check (s : System T) (t : T) (place : Nat) (c : HeapCall) (xTicksToWait : PortTickType)
    (xTimeOut : TimeOut) : System T :=
  match xTaskCheckForTimeOut s.now xTimeOut xTicksToWait with
  | (false, xTimeOut, xTicksToWait) =>
    if s.altHeapsem.prvIsQueueEmpty then s.block t place c xTicksToWait xTimeOut
    else s.goto (.receive c xTicksToWait (some xTimeOut))
  | (true, _, _) => s.goto (.delay c)

def vTaskDelay (s : System T) (c : HeapCall) : System T :=
  if s.uxSchedulerSuspended = 0 then s.goto (.delayed c (s.now + 1))
  else s.goto (.receive c mallocLockBlockTime none)

def step (s : System T) : Action T → Option (System T)
  | .startScheduler first =>
    if s.xSchedulerRunning = false ∧ s.pc none = .app then
      some { s with xSchedulerRunning := true, pxCurrentTCB := some first, now := 0 }
    else
      none
  | .switchContext next =>
    if s.xSchedulerRunning ∧ s.uxSchedulerSuspended = 0 ∧ (s.pc (some next)).isReady then
      some { s with pxCurrentTCB := some next }
    else
      none
  | .tick => if s.xSchedulerRunning then some s.vTaskIncrementTick else none
  | .call c =>
    if s.pc s.pxCurrentTCB = .app then
      if c.isPort then
        some ({ s with uxSchedulerSuspended := s.uxSchedulerSuspended + 1 }.goto (.malloc c))
      else
        some (s.goto (.malloc c))
    else
      none
  | .mallocLock =>
    match s.pc s.pxCurrentTCB with
    | .malloc c => some (s.mallocLock c)
    | .heap c => some (s.mallocLock c)
    | _ => none
  | .receive =>
    match s.pxCurrentTCB, s.pc s.pxCurrentTCB with
    | some t, .receive c xTicksToWait xTimeOut => some (s.receive t c xTicksToWait xTimeOut)
    | _, _ => none
  | .check place =>
    match s.pxCurrentTCB, s.pc s.pxCurrentTCB with
    | some t, .check c xTicksToWait xTimeOut =>
      if place ≤ s.xTasksWaitingToReceive.length then
        some (s.check t place c xTicksToWait xTimeOut)
      else
        none
    | _, _ => none
  | .delay =>
    match s.pc s.pxCurrentTCB with
    | .delay c => some (s.vTaskDelay c)
    | _ => none
  | .mallocUnlock =>
    match s.pc s.pxCurrentTCB with
    | .heap c => some (s.mallocUnlock c)
    | _ => none
  | .resumeAll =>
    match s.pc s.pxCurrentTCB with
    | .resume _ => some (s.xTaskResumeAll.goto .app)
    | _ => none

inductive Moves (s : System T) : Action T → System T → Prop
  | startScheduler {first : T} (stopped : s.xSchedulerRunning = false)
      (outside : s.pc none = .app) :
      Moves s (.startScheduler first)
        { s with xSchedulerRunning := true, pxCurrentTCB := some first, now := 0 }
  | switchContext {next : T} (running : s.xSchedulerRunning = true)
      (unsuspended : s.uxSchedulerSuspended = 0) (ready : (s.pc (some next)).isReady = true) :
      Moves s (.switchContext next) { s with pxCurrentTCB := some next }
  | tick (running : s.xSchedulerRunning = true) : Moves s .tick s.vTaskIncrementTick
  | portCall {c : HeapCall} (outside : s.pc s.pxCurrentTCB = .app) (port : c.isPort = true) :
      Moves s (.call c)
        ({ s with uxSchedulerSuspended := s.uxSchedulerSuspended + 1 }.goto (.malloc c))
  | call {c : HeapCall} (outside : s.pc s.pxCurrentTCB = .app) (port : c.isPort = false) :
      Moves s (.call c) (s.goto (.malloc c))
  | mallocLock {c : HeapCall}
      (here : s.pc s.pxCurrentTCB = .malloc c ∨ s.pc s.pxCurrentTCB = .heap c) :
      Moves s .mallocLock (s.mallocLock c)
  | receive {t : T} {c : HeapCall} {xTicksToWait : PortTickType} {xTimeOut : Option TimeOut}
      (current : s.pxCurrentTCB = some t)
      (here : s.pc s.pxCurrentTCB = .receive c xTicksToWait xTimeOut) :
      Moves s .receive (s.receive t c xTicksToWait xTimeOut)
  | check {place : Nat} {t : T} {c : HeapCall} {xTicksToWait : PortTickType} {xTimeOut : TimeOut}
      (current : s.pxCurrentTCB = some t)
      (here : s.pc s.pxCurrentTCB = .check c xTicksToWait xTimeOut)
      (length : place ≤ s.xTasksWaitingToReceive.length) :
      Moves s (.check place) (s.check t place c xTicksToWait xTimeOut)
  | delay {c : HeapCall} (here : s.pc s.pxCurrentTCB = .delay c) : Moves s .delay (s.vTaskDelay c)
  | mallocUnlock {c : HeapCall} (here : s.pc s.pxCurrentTCB = .heap c) :
      Moves s .mallocUnlock (s.mallocUnlock c)
  | resumeAll {c : HeapCall} (here : s.pc s.pxCurrentTCB = .resume c) :
      Moves s .resumeAll (s.xTaskResumeAll.goto .app)

theorem moves_of_step {s u : System T} {a : Action T} (hstep : step s a = some u) :
    Moves s a u := by
  cases a with
  | startScheduler first =>
    simp only [step, Option.ite_none_right_eq_some, Option.some.injEq] at hstep
    obtain ⟨⟨hrun, hpc⟩, rfl⟩ := hstep
    exact .startScheduler hrun hpc
  | switchContext next =>
    simp only [step, Option.ite_none_right_eq_some, Option.some.injEq] at hstep
    obtain ⟨⟨hrun, hzero, hready⟩, rfl⟩ := hstep
    exact .switchContext hrun hzero hready
  | tick =>
    simp only [step, Option.ite_none_right_eq_some, Option.some.injEq] at hstep
    obtain ⟨hrun, rfl⟩ := hstep
    exact .tick hrun
  | call c =>
    simp only [step, Option.ite_none_right_eq_some] at hstep
    obtain ⟨hpc, hstep⟩ := hstep
    split at hstep
    · next hport =>
      cases hstep
      exact .portCall hpc hport
    · next hport =>
      cases hstep
      exact .call hpc (Bool.eq_false_iff.mpr hport)
  | mallocLock =>
    simp only [step] at hstep
    split at hstep
    · next hpc =>
      cases hstep
      exact .mallocLock (.inl hpc)
    · next hpc =>
      cases hstep
      exact .mallocLock (.inr hpc)
    · cases hstep
  | receive =>
    simp only [step] at hstep
    split at hstep
    · next hcurrent hpc =>
      cases hstep
      exact .receive hcurrent hpc
    · cases hstep
  | check place =>
    simp only [step] at hstep
    split at hstep
    · next hcurrent hpc =>
      split at hstep
      · next hplace =>
        cases hstep
        exact .check hcurrent hpc hplace
      · cases hstep
    · cases hstep
  | delay =>
    simp only [step] at hstep
    split at hstep
    · next hpc =>
      cases hstep
      exact .delay hpc
    · cases hstep
  | mallocUnlock =>
    simp only [step] at hstep
    split at hstep
    · next hpc =>
      cases hstep
      exact .mallocUnlock hpc
    · cases hstep
  | resumeAll =>
    simp only [step] at hstep
    split at hstep
    · next hpc =>
      cases hstep
      exact .resumeAll hpc
    · cases hstep

/-- A task waits for the lock that another one holds, and the scheduler is suspended, but not by
the holder: the holder does not run. -/
def Stuck (s : System T) : Prop :=
  ∃ t h, (s.pc (some t)).waits = true ∧ s.altHeapsem.pxMutexHolder = some h ∧ h ≠ t ∧
    0 < s.uxSchedulerSuspended ∧ s.pxCurrentTCB ≠ some h

/-- The kernel allocates while no task holds the lock. -/
def SuspendsUnlocked (s : System T) : Action T → System T → Prop
  | .call c, _ => c.isPort = true → s.altHeapsem.pxMutexHolder = none
  | _, _ => True

instance (s : System T) (a : Action T) (u : System T) : Decidable (SuspendsUnlocked s a u) :=
  match a with
  | .call c =>
    inferInstanceAs (Decidable (c.isPort = true → s.altHeapsem.pxMutexHolder = none))
  | .startScheduler _ => inferInstanceAs (Decidable True)
  | .switchContext _ => inferInstanceAs (Decidable True)
  | .tick => inferInstanceAs (Decidable True)
  | .mallocLock => inferInstanceAs (Decidable True)
  | .receive => inferInstanceAs (Decidable True)
  | .check _ => inferInstanceAs (Decidable True)
  | .delay => inferInstanceAs (Decidable True)
  | .mallocUnlock => inferInstanceAs (Decidable True)
  | .resumeAll => inferInstanceAs (Decidable True)

/-! ## Waking -/

section Woken

variable (pc : Pc)

@[simp] theorem woken_waits : pc.woken.waits = pc.waits := by cases pc <;> rfl
@[simp] theorem woken_touchesHeap : pc.woken.touchesHeap = pc.touchesHeap := by cases pc <;> rfl
@[simp] theorem woken_resumes : pc.woken.resumes = pc.resumes := by cases pc <;> rfl
@[simp] theorem woken_isPort : pc.woken.isPort = pc.isPort := by cases pc <;> rfl

omit pc in
theorem isPort_of_resumes {pc : Pc} (h : pc.resumes = true) : pc.isPort = true := by
  cases pc <;> first | rfl | cases h

end Woken

/-- `u` is `s` with another tick count and event list; tasks may have been woken. -/
structure Woken (s u : System T) : Prop where
  running : u.xSchedulerRunning = s.xSchedulerRunning
  current : u.pxCurrentTCB = s.pxCurrentTCB
  suspended : u.uxSchedulerSuspended = s.uxSchedulerSuspended
  sem : u.altHeapsem = s.altHeapsem
  waits : ∀ x, (u.pc x).waits = (s.pc x).waits
  touchesHeap : ∀ x, (u.pc x).touchesHeap = (s.pc x).touchesHeap
  resumes : ∀ x, (u.pc x).resumes = (s.pc x).resumes
  isPort : ∀ x, (u.pc x).isPort = (s.pc x).isPort

section Woken

omit [DecidableEq T]

theorem Woken.refl (s : System T) : Woken s s :=
  ⟨rfl, rfl, rfl, rfl, fun _ => rfl, fun _ => rfl, fun _ => rfl, fun _ => rfl⟩

theorem Woken.trans {s u v : System T} (h : Woken s u) (h' : Woken u v) : Woken s v where
  running := h'.running.trans h.running
  current := h'.current.trans h.current
  suspended := h'.suspended.trans h.suspended
  sem := h'.sem.trans h.sem
  waits x := (h'.waits x).trans (h.waits x)
  touchesHeap x := (h'.touchesHeap x).trans (h.touchesHeap x)
  resumes x := (h'.resumes x).trans (h.resumes x)
  isPort x := (h'.isPort x).trans (h.isPort x)

theorem Woken.unseen (s : System T) (tasks : List T) (missed : Nat) :
    Woken s { s with xTasksWaitingToReceive := tasks, uxMissedTicks := missed } :=
  ⟨rfl, rfl, rfl, rfl, fun _ => rfl, fun _ => rfl, fun _ => rfl, fun _ => rfl⟩

theorem Woken.incrementTick (s : System T) : Woken s s.incrementTick := by
  constructor
  all_goals first | rfl | (intro x; unfold System.incrementTick; simp only; split <;> simp)

theorem Woken.incrementTicks (n : Nat) (s : System T) :
    Woken s (System.incrementTick^[n] s) := by
  induction n generalizing s with
  | zero => exact Woken.refl s
  | succ n ih =>
    rw [Function.iterate_succ_apply]
    exact (Woken.incrementTick s).trans (ih _)

theorem Woken.tick (s : System T) : Woken s s.vTaskIncrementTick := by
  unfold vTaskIncrementTick
  split
  · exact Woken.incrementTick s
  · constructor <;> first | rfl | exact fun x => rfl

end Woken

theorem Woken.removeFromEventList (s : System T) : Woken s s.xTaskRemoveFromEventList := by
  unfold xTaskRemoveFromEventList
  split
  · exact Woken.refl s
  · constructor
    all_goals first
      | rfl
      | (intro x; simp only [Function.update_apply]; split <;> simp [*])

/-! ## Who has the lock -/

structure LockInv (s : System T) : Prop where
  running : s.xSchedulerRunning = true → s.pxCurrentTCB ≠ none
  notRunning : s.xSchedulerRunning = false →
    s.pxCurrentTCB = none ∧ s.altHeapsem.pxMutexHolder = none
  suspended : s.uxSchedulerSuspended = if (s.pc s.pxCurrentTCB).isPort then 1 else 0
  others : ∀ x, x ≠ s.pxCurrentTCB → (s.pc x).isPort = false
  holder : ∀ t, s.altHeapsem.pxMutexHolder = some t ↔ (s.pc (some t)).touchesHeap = true
  resume : (s.pc s.pxCurrentTCB).resumes = true → s.altHeapsem.pxMutexHolder = none

section Steps

variable {s u v : System T} {a : Action T} {pc : Pc} {m : Mutex T} {t h : T}

omit [DecidableEq T] in
theorem LockInv.start : LockInv (System.start : System T) where
  running := nofun
  notRunning _ := ⟨rfl, rfl⟩
  suspended := rfl
  others _ _ := rfl
  holder t := by simp [System.start, Pc.touchesHeap]
  resume _ := rfl

omit [DecidableEq T] in
theorem LockInv.woken (hs : LockInv s) (hw : Woken s u) : LockInv u where
  running := by
    rw [hw.running, hw.current]
    exact hs.running
  notRunning := by
    rw [hw.running, hw.current, hw.sem]
    exact hs.notRunning
  suspended := by
    rw [hw.suspended, hw.current, hw.isPort]
    exact hs.suspended
  others := by
    intro x hx
    rw [hw.isPort]
    exact hs.others x (hw.current ▸ hx)
  holder := by
    intro t
    rw [hw.sem, hw.touchesHeap]
    exact hs.holder t
  resume := by
    rw [hw.current, hw.resumes, hw.sem]
    exact hs.resume

omit [DecidableEq T] in
theorem LockInv.placed (hs : LockInv s) (tasks : List T) :
    LockInv { s with xTasksWaitingToReceive := tasks } :=
  hs.woken (Woken.unseen s tasks s.uxMissedTicks)

theorem LockInv.moved {n : Nat} (hs : LockInv s)
    (hw : Woken { s with altHeapsem := m, uxSchedulerSuspended := n } u)
    (hsuspended : n = if pc.isPort then 1 else 0)
    (hholder : ∀ t, m.pxMutexHolder = some t ↔
      (if s.pxCurrentTCB = some t then pc else s.pc (some t)).touchesHeap = true)
    (hmain : s.xSchedulerRunning = false → m.pxMutexHolder = none)
    (hresume : pc.resumes = true → m.pxMutexHolder = none) : LockInv (u.goto pc) where
  running := by
    simp only [System.goto]
    rw [hw.running, hw.current]
    exact hs.running
  notRunning := by
    simp only [System.goto]
    rw [hw.running, hw.current, hw.sem]
    exact fun hrun => ⟨(hs.notRunning hrun).1, hmain hrun⟩
  suspended := by
    simp only [System.goto, Function.update_self]
    rw [hw.suspended]
    exact hsuspended
  others x hx := by
    simp only [System.goto] at hx ⊢
    rw [Function.update_of_ne hx, hw.isPort]
    exact hs.others x (hw.current ▸ hx)
  holder t := by
    simp only [System.goto, Function.update_apply]
    rw [hw.sem, hw.current, hholder t]
    simp only [eq_comm (a := some t)]
    split
    · exact Iff.rfl
    · rw [hw.touchesHeap]
  resume := by
    simp only [System.goto, Function.update_self]
    rw [hw.sem]
    exact hresume

theorem LockInv.goto (hs : LockInv s) (hport : pc.isPort = (s.pc s.pxCurrentTCB).isPort)
    (hholder : ∀ t, m.pxMutexHolder = some t ↔
      (if s.pxCurrentTCB = some t then pc else s.pc (some t)).touchesHeap = true)
    (hmain : s.xSchedulerRunning = false → m.pxMutexHolder = none)
    (hresume : pc.resumes = true → m.pxMutexHolder = none) :
    LockInv ({ s with altHeapsem := m }.goto pc) :=
  hs.moved (Woken.refl _) (by rw [hport]; exact hs.suspended) hholder hmain hresume

theorem LockInv.untouched (hs : LockInv s) (hbefore : (s.pc s.pxCurrentTCB).touchesHeap = false)
    (hafter : pc.touchesHeap = false) (t : T) : s.altHeapsem.pxMutexHolder = some t ↔
      (if s.pxCurrentTCB = some t then pc else s.pc (some t)).touchesHeap = true := by
  rw [hs.holder t]
  split
  · next hcurrent => rw [← hcurrent, hbefore, hafter]
  · exact Iff.rfl

theorem LockInv.stay (hs : LockInv s) (hport : pc.isPort = (s.pc s.pxCurrentTCB).isPort)
    (hbefore : (s.pc s.pxCurrentTCB).touchesHeap = false) (hafter : pc.touchesHeap = false)
    (hresume : pc.resumes = false) : LockInv (s.goto pc) := by
  refine hs.goto (m := s.altHeapsem) hport (hs.untouched hbefore hafter)
    (fun hrun => (hs.notRunning hrun).2) ?_
  rw [hresume]
  nofun

theorem LockInv.taken {c : HeapCall} (hs : LockInv s) (hcurrent : s.pxCurrentTCB = some t)
    (hport : (s.pc s.pxCurrentTCB).isPort = c.isPort)
    (hfree : ∀ t', s.altHeapsem.pxMutexHolder = some t' → t' = t) (hm : m.pxMutexHolder = some t) :
    LockInv ({ s with altHeapsem := m }.goto (.heap c)) := by
  refine hs.goto hport.symm (fun t' => ?_) (fun hrun => ?_) nofun
  · rw [hm, hcurrent]
    split
    · next heq =>
      rw [heq]
      exact iff_of_true rfl rfl
    · next hne =>
      refine iff_of_false hne fun htouch => hne ?_
      rw [hfree t' ((hs.holder t').mpr htouch)]
  · rw [(hs.notRunning hrun).1] at hcurrent
    cases hcurrent

theorem LockInv.mallocLock {c : HeapCall} (hs : LockInv s)
    (hpc : s.pc s.pxCurrentTCB = .malloc c ∨ s.pc s.pxCurrentTCB = .heap c) :
    LockInv (s.mallocLock c) := by
  have hport : (s.pc s.pxCurrentTCB).isPort = c.isPort := by
    obtain hpc | hpc := hpc <;> rw [hpc] <;> rfl
  unfold System.mallocLock
  split
  · split
    · exact hs
    · next t hcurrent =>
      split
      · next hheld =>
        refine hs.taken hcurrent hport (fun t' ht' => ?_) (by simpa using hheld)
        rw [hheld, Option.some.injEq] at ht'
        exact ht'.symm
      · next hheld =>
        refine hs.stay hport.symm ?_ rfl rfl
        rw [hs.holder t, ← hcurrent] at hheld
        exact Bool.eq_false_iff.mpr hheld
  · next hrun =>
    obtain ⟨hcurrent, hnone⟩ := hs.notRunning (Bool.eq_false_iff.mpr hrun)
    refine hs.goto (m := s.altHeapsem) hport.symm (fun t => ?_) (fun _ => hnone) nofun
    rw [hcurrent]
    exact hs.holder t

theorem LockInv.receive {c : HeapCall} {xTicksToWait : PortTickType} {xTimeOut : Option TimeOut}
    (hs : LockInv s) (hcurrent : s.pxCurrentTCB = some t)
    (hpc : s.pc s.pxCurrentTCB = .receive c xTicksToWait xTimeOut) :
    LockInv (s.receive t c xTicksToWait xTimeOut) := by
  have hport : (s.pc s.pxCurrentTCB).isPort = c.isPort := by rw [hpc]; rfl
  have htouch : (s.pc s.pxCurrentTCB).touchesHeap = false := by rw [hpc]; rfl
  unfold System.receive
  split
  · next m hm =>
    obtain ⟨hnone, hholder⟩ := Mutex.receiveTry_some hm
    refine hs.taken hcurrent hport (fun t' ht' => ?_) hholder
    rw [hnone] at ht'
    cases ht'
  · split
    · exact hs.stay hport.symm htouch rfl rfl
    · exact hs.stay hport.symm htouch rfl rfl

theorem LockInv.check {c : HeapCall} {xTicksToWait : PortTickType} {xTimeOut : TimeOut}
    (hs : LockInv s) (hpc : s.pc s.pxCurrentTCB = .check c xTicksToWait xTimeOut) (place : Nat) :
    LockInv (s.check t place c xTicksToWait xTimeOut) := by
  have hport : (s.pc s.pxCurrentTCB).isPort = c.isPort := by rw [hpc]; rfl
  have htouch : (s.pc s.pxCurrentTCB).touchesHeap = false := by rw [hpc]; rfl
  unfold System.check
  split
  · split
    · unfold block
      simp only
      split
      · exact (hs.placed _).stay hport.symm htouch rfl rfl
      · exact (hs.placed _).stay hport.symm htouch rfl rfl
    · exact hs.stay hport.symm htouch rfl rfl
  · exact hs.stay hport.symm htouch rfl rfl

theorem LockInv.vTaskDelay {c : HeapCall} (hs : LockInv s)
    (hpc : s.pc s.pxCurrentTCB = .delay c) : LockInv (s.vTaskDelay c) := by
  have hport : (s.pc s.pxCurrentTCB).isPort = c.isPort := by rw [hpc]; rfl
  have htouch : (s.pc s.pxCurrentTCB).touchesHeap = false := by rw [hpc]; rfl
  unfold System.vTaskDelay
  split
  · exact hs.stay hport.symm htouch rfl rfl
  · exact hs.stay hport.symm htouch rfl rfl

theorem returned_isPort (c : HeapCall) : (Pc.returned c).isPort = c.isPort := by
  cases c <;> rfl

theorem returned_touchesHeap (c : HeapCall) : (Pc.returned c).touchesHeap = false := by
  cases c <;> rfl

theorem LockInv.mallocUnlock {c : HeapCall} (hs : LockInv s)
    (hpc : s.pc s.pxCurrentTCB = .heap c) : LockInv (s.mallocUnlock c) := by
  have hport : (s.pc s.pxCurrentTCB).isPort = c.isPort := by rw [hpc]; rfl
  unfold System.mallocUnlock
  split
  · split
    · exact hs
    · next t hcurrent =>
      have hholder : s.altHeapsem.pxMutexHolder = some t := by
        rw [hs.holder t, ← hcurrent, hpc]
        rfl
      split
      · next hm => exact absurd hholder (Mutex.giveRecursive_none hm)
      · next m hm =>
        split
        · next hnone =>
          refine hs.moved (Woken.removeFromEventList _) ?_ (fun t' => ?_) (fun _ => hnone)
            (fun _ => hnone)
          · rw [returned_isPort, ← hport]
            exact hs.suspended
          · rw [hnone, hcurrent]
            refine iff_of_false nofun ?_
            split
            · rw [returned_touchesHeap]
              nofun
            · next hne =>
              rw [← hs.holder t', hholder]
              exact hne
        · next hsome =>
          have hm := (Mutex.giveRecursive_some hm).2.resolve_left hsome
          have := hs.taken (c := c) hcurrent hport (m := m) (fun t' ht' => ?_) hm
          · unfold System.goto at this
            simp only at this
            rw [← hpc, Function.update_eq_self] at this
            exact this
          · rw [hholder, Option.some.injEq] at ht'
            exact ht'.symm
  · next hrun =>
    obtain ⟨hcurrent, hnone⟩ := hs.notRunning (Bool.eq_false_iff.mpr hrun)
    refine hs.goto (m := s.altHeapsem) ?_ (fun t => ?_) (fun _ => hnone) (fun _ => hnone)
    · rw [hport, returned_isPort]
    · rw [hcurrent]
      exact hs.holder t

theorem LockInv.portCall {c : HeapCall} (hs : LockInv s) (hpc : s.pc s.pxCurrentTCB = .app)
    (hport : c.isPort = true) :
    LockInv ({ s with uxSchedulerSuspended := s.uxSchedulerSuspended + 1 }.goto (.malloc c)) := by
  have hzero : s.uxSchedulerSuspended = 0 := by
    rw [hs.suspended, hpc]
    rfl
  refine hs.moved (m := s.altHeapsem) (n := s.uxSchedulerSuspended + 1) (Woken.refl _) ?_
    (hs.untouched ?_ rfl) (fun hrun => (hs.notRunning hrun).2) nofun
  · rw [hzero]
    exact (if_pos hport).symm
  · rw [hpc]
    rfl

theorem LockInv.call {c : HeapCall} (hs : LockInv s) (hpc : s.pc s.pxCurrentTCB = .app)
    (hport : c.isPort = false) : LockInv (s.goto (.malloc c)) := by
  refine hs.stay ?_ ?_ rfl rfl
  · rw [hpc]
    exact hport
  · rw [hpc]
    rfl

theorem LockInv.startScheduler {first : T} (hs : LockInv s) (hrun : s.xSchedulerRunning = false)
    (hpc : s.pc none = .app) :
    LockInv { s with xSchedulerRunning := true, pxCurrentTCB := some first, now := 0 } := by
  obtain ⟨hcurrent, hnone⟩ := hs.notRunning hrun
  have hport (x : Option T) : (s.pc x).isPort = false := by
    by_cases hx : x = s.pxCurrentTCB
    · rw [hx, hcurrent, hpc]
      rfl
    · exact hs.others x hx
  refine ⟨nofun, nofun, ?_, fun x _ => hport x, hs.holder, fun _ => hnone⟩
  simp only [hport, hs.suspended]

theorem LockInv.switchContext {next : T} (hs : LockInv s) (hrun : s.xSchedulerRunning = true)
    (hzero : s.uxSchedulerSuspended = 0) : LockInv { s with pxCurrentTCB := some next } := by
  have hport (x : Option T) : (s.pc x).isPort = false := by
    by_cases hx : x = s.pxCurrentTCB
    · have hsuspended := hs.suspended
      rw [hzero, ← hx] at hsuspended
      split at hsuspended
      · cases hsuspended
      · next h => exact Bool.eq_false_iff.mpr h
    · exact hs.others x hx
  refine ⟨nofun, fun h => ?_, ?_, fun x _ => hport x, hs.holder, fun h => ?_⟩
  · rw [hrun] at h
    cases h
  · simp only [hport, hzero]
    rfl
  · have := hport (some next)
    rw [isPort_of_resumes h] at this
    cases this

theorem LockInv.resumeAll {c : HeapCall} (hs : LockInv s)
    (hpc : s.pc s.pxCurrentTCB = .resume c) : LockInv (s.xTaskResumeAll.goto .app) := by
  have htouch : (s.pc s.pxCurrentTCB).touchesHeap = false := by rw [hpc]; rfl
  have hone : s.uxSchedulerSuspended = 1 := by
    rw [hs.suspended, hpc]
    rfl
  unfold xTaskResumeAll
  rw [if_pos (by omega)]
  exact hs.moved (m := s.altHeapsem) (n := 0)
    ((Woken.incrementTicks _ _).trans (Woken.unseen _ _ 0)) rfl
    (hs.untouched htouch rfl) (fun hrun => (hs.notRunning hrun).2) nofun

theorem LockInv.step (hs : LockInv s) (hstep : step s a = some u) : LockInv u := by
  cases moves_of_step hstep with
  | startScheduler hrun hpc => exact hs.startScheduler hrun hpc
  | switchContext hrun hzero => exact hs.switchContext hrun hzero
  | tick => exact hs.woken (Woken.tick s)
  | portCall hpc hport => exact hs.portCall hpc hport
  | call hpc hport => exact hs.call hpc hport
  | mallocLock hpc => exact hs.mallocLock hpc
  | receive hcurrent hpc => exact hs.receive hcurrent hpc
  | check _ hpc => exact hs.check hpc _
  | delay hpc => exact hs.vTaskDelay hpc
  | mallocUnlock hpc => exact hs.mallocUnlock hpc
  | resumeAll hpc => exact hs.resumeAll hpc

theorem LockInv.reached {as : List (Action T)} (h : run System.step System.start as = some s) :
    LockInv s :=
  run_invariant (fun _ _ _ hs hstep => hs.step hstep) LockInv.start h

/-! ## When the lock is never waited for with the scheduler suspended -/

/-- The scheduler is suspended only by a task that can have the lock. -/
def Unblocked (s : System T) : Prop :=
  0 < s.uxSchedulerSuspended → ∀ h, s.altHeapsem.pxMutexHolder = some h → s.pxCurrentTCB = some h

omit [DecidableEq T] in
theorem Unblocked.start : Unblocked (System.start : System T) := nofun

omit [DecidableEq T] in
theorem Unblocked.woken (h : Unblocked s) (hw : Woken s u) : Unblocked u := by
  unfold Unblocked
  rw [hw.suspended, hw.sem, hw.current]
  exact h

theorem Unblocked.mallocUnlock {c : HeapCall} (h : Unblocked s) :
    Unblocked (s.mallocUnlock c) := by
  unfold System.mallocUnlock
  split
  · split
    · exact h
    · next t hcurrent =>
      split
      · exact h
      · next m hm =>
        have hgiven : Unblocked { s with altHeapsem := m } := by
          intro _ holder hholder
          obtain hnone | hsome := (Mutex.giveRecursive_some hm).2
          · cases hnone.symm.trans hholder
          · exact hcurrent.trans (hsome.symm.trans hholder)
        split
        · have hwoken := hgiven.woken (Woken.removeFromEventList _)
          exact hwoken
        · exact hgiven
  · exact h

theorem Unblocked.mallocLock {c : HeapCall} (h : Unblocked s) : Unblocked (s.mallocLock c) := by
  unfold System.mallocLock
  split
  · split
    · exact h
    · split <;> exact h
  · exact h

theorem Unblocked.receive {c : HeapCall} {xTicksToWait : PortTickType}
    {xTimeOut : Option TimeOut} (h : Unblocked s) (hcurrent : s.pxCurrentTCB = some t) :
    Unblocked (s.receive t c xTicksToWait xTimeOut) := by
  unfold System.receive
  split
  · next m hm =>
    intro _ holder hholder
    exact hcurrent.trans ((Mutex.receiveTry_some hm).2.symm.trans hholder)
  · split <;> exact h

theorem Unblocked.check {place : Nat} {c : HeapCall} {xTicksToWait : PortTickType}
    {xTimeOut : TimeOut} (h : Unblocked s) :
    Unblocked (s.check t place c xTicksToWait xTimeOut) := by
  unfold System.check
  split
  · split
    · unfold block
      simp only
      split <;> exact h
    · exact h
  · exact h

theorem Unblocked.step (hs : LockInv s) (h : Unblocked s) (hstep : step s a = some u)
    (hok : SuspendsUnlocked s a u) : Unblocked u := by
  cases moves_of_step hstep with
  | startScheduler hrun =>
    intro _ holder hholder
    cases (hs.notRunning hrun).2.symm.trans hholder
  | switchContext _ hzero =>
    intro hpos
    simp only at hpos
    omega
  | tick => exact h.woken (Woken.tick s)
  | portCall _ hport =>
    intro _ holder hholder
    cases (hok hport).symm.trans hholder
  | call => exact h
  | mallocLock => exact h.mallocLock
  | receive hcurrent => exact h.receive hcurrent
  | check => exact h.check
  | delay =>
    unfold vTaskDelay
    split <;> exact h
  | mallocUnlock => exact h.mallocUnlock
  | resumeAll hpc =>
    have hafter := (hs.resumeAll hpc).suspended
    intro hpos
    rw [hafter] at hpos
    simp [System.goto, Pc.isPort] at hpos

omit [DecidableEq T] in
theorem Unblocked.not_stuck (h : Unblocked s) : ¬ Stuck s := by
  rintro ⟨t, holder, -, hholder, -, hsuspended, hcurrent⟩
  exact hcurrent (h hsuspended holder hholder)

/-! ## What happens else -/

/-- The task `t` waits for the lock of `h`. -/
structure WaitsFor (s : System T) (t h : T) : Prop where
  waits : (s.pc (some t)).waits = true
  holder : s.altHeapsem.pxMutexHolder = some h
  other : h ≠ t
  suspended : 0 < s.uxSchedulerSuspended
  current : s.pxCurrentTCB ≠ some h

omit [DecidableEq T] in
theorem WaitsFor.woken (hw : WaitsFor s t h) (hu : Woken s u) : WaitsFor u t h where
  waits := by
    rw [hu.waits]
    exact hw.waits
  holder := by
    rw [hu.sem]
    exact hw.holder
  other := hw.other
  suspended := by
    rw [hu.suspended]
    exact hw.suspended
  current := by
    rw [hu.current]
    exact hw.current

theorem WaitsFor.goto (hw : WaitsFor s t h) (hpc : pc.waits = true) :
    WaitsFor (s.goto pc) t h where
  waits := by
    simp only [System.goto, Function.update_apply]
    split
    · exact hpc
    · exact hw.waits
  holder := hw.holder
  other := hw.other
  suspended := hw.suspended
  current := hw.current

omit [DecidableEq T] in
theorem WaitsFor.before (hs : LockInv s) (hw : WaitsFor s t h) :
    s.xSchedulerRunning = true ∧ (s.pc s.pxCurrentTCB).isPort = true ∧
      (s.pc s.pxCurrentTCB).touchesHeap = false ∧ (s.pc s.pxCurrentTCB).resumes = false := by
  have hrun : s.xSchedulerRunning = true := by
    by_contra hrun
    cases (hs.notRunning (Bool.eq_false_iff.mpr hrun)).2.symm.trans hw.holder
  refine ⟨hrun, ?_, ?_, ?_⟩
  · have hsuspended := hs.suspended
    have hpos := hw.suspended
    split at hsuspended
    · assumption
    · omega
  · obtain ⟨t', ht'⟩ := Option.ne_none_iff_exists'.mp (hs.running hrun)
    by_contra htouch
    rw [Bool.not_eq_false, ht', ← hs.holder t'] at htouch
    exact hw.current (ht'.trans (htouch.symm.trans hw.holder))
  · by_contra hresume
    rw [Bool.not_eq_false] at hresume
    cases (hs.resume hresume).symm.trans hw.holder

theorem step_mallocLock {c : HeapCall} (hpc : s.pc s.pxCurrentTCB = .malloc c) :
    step s .mallocLock = some (s.mallocLock c) := by
  simp only [System.step, hpc]

theorem mallocLock_held {c : HeapCall} (hrun : s.xSchedulerRunning = true)
    (hcurrent : s.pxCurrentTCB = some t) (hholder : s.altHeapsem.pxMutexHolder = some h)
    (hne : h ≠ t) : s.mallocLock c = s.goto (.receive c mallocLockBlockTime none) := by
  unfold System.mallocLock
  rw [if_pos hrun]
  simp only [hcurrent]
  rw [dif_neg]
  rw [hholder, Option.some.injEq]
  exact hne

theorem WaitsFor.receive {c : HeapCall} {xTicksToWait : PortTickType}
    {xTimeOut : Option TimeOut} {t' : T} (hw : WaitsFor s t h) :
    WaitsFor (s.receive t' c xTicksToWait xTimeOut) t h := by
  unfold System.receive
  rw [Mutex.receiveTry_held hw.holder]
  simp only
  split <;> exact hw.goto rfl

theorem WaitsFor.check {place : Nat} {c : HeapCall} {xTicksToWait : PortTickType}
    {xTimeOut : TimeOut} {t' : T} (hw : WaitsFor s t h) (hsuspended : s.uxSchedulerSuspended ≠ 0) :
    WaitsFor (s.check t' place c xTicksToWait xTimeOut) t h := by
  unfold System.check
  split
  · split
    · unfold block
      simp only
      rw [if_neg hsuspended]
      exact (hw.woken (Woken.unseen s _ s.uxMissedTicks)).goto rfl
    · exact hw.goto rfl
  · exact hw.goto rfl

theorem WaitsFor.step (hs : LockInv s) (hw : WaitsFor s t h) (hstep : step s a = some u) :
    WaitsFor u t h := by
  obtain ⟨hrun, hport, htouch, hresume⟩ := hw.before hs
  have hsuspended : s.uxSchedulerSuspended ≠ 0 := Nat.pos_iff_ne_zero.mp hw.suspended
  cases moves_of_step hstep with
  | startScheduler hstopped => cases hrun.symm.trans hstopped
  | switchContext _ hzero => exact absurd hzero hsuspended
  | tick => exact hw.woken (Woken.tick s)
  | portCall hpc | call hpc =>
    rw [hpc] at hport
    cases hport
  | mallocLock hpc =>
    obtain hpc | hpc := hpc
    · obtain ⟨t', hcurrent⟩ := Option.ne_none_iff_exists'.mp (hs.running hrun)
      have hne : h ≠ t' := by
        rintro rfl
        exact hw.current hcurrent
      rw [mallocLock_held hrun hcurrent hw.holder hne]
      exact hw.goto rfl
    · rw [hpc] at htouch
      cases htouch
  | receive => exact hw.receive
  | check => exact hw.check hsuspended
  | delay =>
    unfold vTaskDelay
    rw [if_neg hsuspended]
    exact hw.goto rfl
  | mallocUnlock hpc =>
    rw [hpc] at htouch
    cases htouch
  | resumeAll hpc =>
    rw [hpc] at hresume
    cases hresume

theorem WaitsFor.always {as : List (Action T)} (hs : LockInv s) (hw : WaitsFor s t h)
    (hrun : run System.step s as = some u) : WaitsFor u t h :=
  (run_invariant (I := fun s => LockInv s ∧ WaitsFor s t h)
    (fun _ _ _ hi hstep => ⟨hi.1.step hstep, hi.2.step hi.1 hstep⟩) ⟨hs, hw⟩ hrun).2

omit [DecidableEq T] in
theorem WaitsFor.stuck (hw : WaitsFor s t h) : Stuck s :=
  ⟨t, h, hw.waits, hw.holder, hw.other, hw.suspended, hw.current⟩

theorem waitsFor_of_mallocLock {c : HeapCall} (hrun : s.xSchedulerRunning = true)
    (hcurrent : s.pxCurrentTCB = some t) (hholder : s.altHeapsem.pxMutexHolder = some h)
    (hne : h ≠ t) (hsuspended : 0 < s.uxSchedulerSuspended) : WaitsFor (s.mallocLock c) t h := by
  rw [mallocLock_held hrun hcurrent hholder hne]
  refine ⟨?_, hholder, hne, hsuspended, ?_⟩
  · simp only [System.goto]
    rw [← hcurrent, Function.update_self]
    rfl
  · simp only [System.goto]
    rw [hcurrent, Ne, Option.some.injEq]
    exact hne.symm

/-- The task that suspends the scheduler while another one has the lock comes to wait for it. -/
theorem waitsFor_of_call (hs : LockInv s) (hstep : step s a = some u)
    (hbad : ¬ SuspendsUnlocked s a u) :
    ∃ v t h, step u .mallocLock = some v ∧ WaitsFor v t h := by
  cases a with
  | call c =>
    obtain ⟨hport, hheld⟩ := Classical.not_imp.mp hbad
    obtain ⟨holder, hholder⟩ := Option.ne_none_iff_exists'.mp hheld
    simp only [System.step, Option.ite_none_right_eq_some] at hstep
    obtain ⟨hpc, hstep⟩ := hstep
    rw [if_pos hport] at hstep
    have hrun : s.xSchedulerRunning = true := by
      by_contra hrun
      cases (hs.notRunning (Bool.eq_false_iff.mpr hrun)).2.symm.trans hholder
    obtain ⟨t, hcurrent⟩ := Option.ne_none_iff_exists'.mp (hs.running hrun)
    -- The task is outside of the heap's calls: it is not the holder.
    have hne : holder ≠ t := by
      rintro rfl
      have htouch := (hs.holder holder).mp hholder
      rw [← hcurrent, hpc] at htouch
      cases htouch
    cases hstep
    exact ⟨_, t, holder, step_mallocLock (Function.update_self _ _ _),
      waitsFor_of_mallocLock hrun hcurrent hholder hne (Nat.succ_pos _)⟩
  | _ => exact absurd trivial hbad

end Steps

/-- The lock is never waited for with the scheduler suspended for good, if the kernel allocates
only while no task holds the lock; and the first allocation that does not keep to it ends in
such a wait. -/
theorem never_stuck_unlocked :
    (∀ (as : List (Action T)) (s : System T),
      EveryStep step SuspendsUnlocked start as → run step start as = some s → ¬ Stuck s) ∧
    ∀ (as : List (Action T)) (s : System T) (a : Action T) (u : System T),
      run step start as = some s → step s a = some u → ¬ SuspendsUnlocked s a u →
        ∃ v, step u .mallocLock = some v ∧
          ∀ (bs : List (Action T)) (w : System T), run step v bs = some w → Stuck w := by
  constructor
  · intro as s hok hrun
    have hinv := run_invariant_under (I := fun s => LockInv s ∧ Unblocked s)
      (fun s a u hi hstep hok => ⟨hi.1.step hstep, hi.2.step hi.1 hstep hok⟩)
      ⟨LockInv.start, Unblocked.start⟩ hok hrun
    exact hinv.2.not_stuck
  · intro as s a u hrun hstep hbad
    have hs := LockInv.reached hrun
    obtain ⟨v, t, h, hv, hw⟩ := waitsFor_of_call hs hstep hbad
    refine ⟨v, hv, fun bs w hbs => ?_⟩
    exact (hw.always ((hs.step hstep).step hv) hbs).stuck

/-- The task `false` is switched out within `malloc`. -/
def preempted : List (Action Bool) :=
  [.startScheduler false, .call .malloc, .mallocLock, .receive, .switchContext true]

theorem never_stuck_unlocked_two :
    (∀ s : System Bool,
      run step start ([.startScheduler false, .call .pvPortMalloc, .mallocLock, .receive,
        .mallocUnlock, .resumeAll] ++ preempted.tail) = some s → ¬ Stuck s) ∧
    ∃ s u v : System Bool,
      run step start preempted = some s ∧ step s (.call .pvPortMalloc) = some u ∧
        step u .mallocLock = some v ∧
        ∀ (bs : List (Action Bool)) (w : System Bool), run step v bs = some w → Stuck w := by
  refine ⟨fun s hrun => never_stuck_unlocked.1 _ s (by decide +kernel) hrun, ?_⟩
  have hreached : (run step start preempted).map
      (fun s => (s.altHeapsem.pxMutexHolder, (step s (.call .pvPortMalloc)).isSome)) =
      some (some false, true) := by decide +kernel
  obtain ⟨s, hs, heq⟩ := Option.map_eq_some_iff.mp hreached
  simp only [Prod.mk.injEq] at heq
  obtain ⟨u, hu⟩ := Option.isSome_iff_exists.mp heq.2
  have hbad : ¬ SuspendsUnlocked s (.call .pvPortMalloc) u := by
    intro hok
    cases (hok rfl).symm.trans heq.1
  obtain ⟨v, hv, hstuck⟩ := never_stuck_unlocked.2 preempted s _ u hs hu hbad
  exact ⟨s, u, v, hs, hu, hv, hstuck⟩

/-- The task `true` allocates meanwhile. -/
theorem allocation_sticks :
    ¬ ∀ (as : List (Action Bool)) (s : System Bool), run step start as = some s → ¬ Stuck s := by
  intro h
  have hreached : (run step start (preempted ++ [.call .pvPortMalloc, .mallocLock])).map
      (fun s => ((s.pc (some true)).waits, s.altHeapsem.pxMutexHolder, s.uxSchedulerSuspended,
        s.pxCurrentTCB)) = some (true, some false, 1, some true) := by decide +kernel
  obtain ⟨s, hs, heq⟩ := Option.map_eq_some_iff.mp hreached
  simp only [Prod.mk.injEq] at heq
  obtain ⟨hwaits, hholder, hsuspended, hcurrent⟩ := heq
  refine h _ s hs ⟨true, false, hwaits, hholder, nofun, ?_, ?_⟩
  · omega
  · rw [hcurrent]
    nofun

end System

end FreeLwip.Kernel.Heap
