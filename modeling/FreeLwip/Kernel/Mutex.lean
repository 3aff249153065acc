import Mathlib.Data.Option.Basic

/-!
# Recursive mutexes (`queue.c`)

A mutex is a queue of length 1 whose items have length 0. The words of a queue that it has no
use for hold its holder and how often the holder has taken it.
-/

namespace FreeLwip.Kernel

variable {T : Type*}

structure Mutex (T : Type*) where
  uxMessagesWaiting : Nat
  pxMutexHolder : Option T
  uxRecursiveCallCount : Nat
  waiting_eq : uxMessagesWaiting = if pxMutexHolder.isNone then 1 else 0
  count_eq : uxRecursiveCallCount = 0 ↔ pxMutexHolder = none

namespace Mutex

/-- The queue starts with its one message in it. -/
def xQueueCreateMutex : Mutex T where
  uxMessagesWaiting := 1
  pxMutexHolder := none
  uxRecursiveCallCount := 0
  waiting_eq := rfl
  count_eq := by simp

/-- `xQueueTakeMutexRecursive` by the holder. -/
def takeAgain (m : Mutex T) (t : T) (h : m.pxMutexHolder = some t) : Mutex T where
  uxMessagesWaiting := m.uxMessagesWaiting
  pxMutexHolder := m.pxMutexHolder
  uxRecursiveCallCount := m.uxRecursiveCallCount + 1
  waiting_eq := m.waiting_eq
  count_eq := by simp [h]

/-- The critical section of `xQueueGenericReceive`, and the count if it passes. -/
def receiveTry (m : Mutex T) (t : T) : Option (Mutex T) :=
  if h : 0 < m.uxMessagesWaiting then
    some
      { uxMessagesWaiting := m.uxMessagesWaiting - 1
        pxMutexHolder := some t
        uxRecursiveCallCount := m.uxRecursiveCallCount + 1
        waiting_eq := by
          have hwaiting := m.waiting_eq
          split at hwaiting <;> simp <;> omega
        count_eq := by simp }
  else
    none

/-- `xQueueGiveMutexRecursive`; none if the task is not the holder. -/
def giveRecursive [DecidableEq T] (m : Mutex T) (t : T) : Option (Mutex T) :=
  if h : m.pxMutexHolder = some t then
    if hcount : m.uxRecursiveCallCount - 1 = 0 then
      some
        { uxMessagesWaiting := m.uxMessagesWaiting + 1
          pxMutexHolder := none
          uxRecursiveCallCount := m.uxRecursiveCallCount - 1
          waiting_eq := by simp [m.waiting_eq, h]
          count_eq := by simp [hcount] }
    else
      some
        { m with
          uxRecursiveCallCount := m.uxRecursiveCallCount - 1
          count_eq := by simp [h, hcount] }
  else
    none

def prvIsQueueEmpty (m : Mutex T) : Bool := decide (m.uxMessagesWaiting = 0)

section Lemmas

variable {m n : Mutex T} {t h : T}

@[simp] theorem create_holder : (xQueueCreateMutex : Mutex T).pxMutexHolder = none := rfl

@[simp] theorem takeAgain_holder (hm : m.pxMutexHolder = some t) :
    (m.takeAgain t hm).pxMutexHolder = m.pxMutexHolder := rfl

theorem receiveTry_some (hm : m.receiveTry t = some n) :
    m.pxMutexHolder = none ∧ n.pxMutexHolder = some t := by
  unfold receiveTry at hm
  split at hm
  · next hpos =>
    cases hm
    have hwaiting := m.waiting_eq
    refine ⟨?_, rfl⟩
    split at hwaiting
    · next hnone => exact Option.isNone_iff_eq_none.mp hnone
    · omega
  · cases hm

theorem receiveTry_held (hm : m.pxMutexHolder = some h) : m.receiveTry t = none := by
  have hwaiting := m.waiting_eq
  rw [hm] at hwaiting
  unfold receiveTry
  rw [dif_neg]
  rw [hwaiting]
  simp

theorem giveRecursive_some [DecidableEq T] (hm : m.giveRecursive t = some n) :
    m.pxMutexHolder = some t ∧ (n.pxMutexHolder = none ∨ n.pxMutexHolder = some t) := by
  unfold giveRecursive at hm
  split at hm
  · next hholder =>
    refine ⟨hholder, ?_⟩
    split at hm
    · cases hm
      exact .inl rfl
    · cases hm
      exact .inr hholder
  · cases hm

theorem giveRecursive_none [DecidableEq T] (hm : m.giveRecursive t = none) :
    m.pxMutexHolder ≠ some t := by
  unfold giveRecursive at hm
  split at hm
  · split at hm <;> cases hm
  · assumption

end Lemmas

end Mutex

end FreeLwip.Kernel
