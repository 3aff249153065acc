import Mathlib.Order.Basic

/-!
# Counting semaphores (`queue.c`, `sys_arch.c`)

A counting semaphore is a queue of items of length 0: only the number of them counts. Its turns
are the critical sections of a call.
-/

namespace FreeLwip.Kernel

structure Semaphore where
  uxLength : Nat
  uxMessagesWaiting : Nat
  waiting_le : uxMessagesWaiting ≤ uxLength

namespace Semaphore

def xQueueCreateCountingSemaphore (uxCountValue uxInitialCount : Nat)
    (h : uxInitialCount ≤ uxCountValue) : Semaphore :=
  ⟨uxCountValue, uxInitialCount, h⟩

/-- The critical section of `xSemaphoreTake`; none if the count is 0. -/
def xSemaphoreTake (s : Semaphore) : Option Semaphore :=
  if 0 < s.uxMessagesWaiting then
    some { s with
      uxMessagesWaiting := s.uxMessagesWaiting - 1
      waiting_le := Nat.le_trans (Nat.sub_le _ _) s.waiting_le }
  else
    none

/-- A count that is at its maximum stays there. -/
def xSemaphoreGiveFromISR (s : Semaphore) : Semaphore :=
  if h : s.uxMessagesWaiting < s.uxLength then
    { s with uxMessagesWaiting := s.uxMessagesWaiting + 1, waiting_le := h }
  else
    s

/-- `sys_sem_new`: a count of 0 stands for a binary semaphore. -/
def sysSemNew (count : Nat) : Semaphore :=
  xQueueCreateCountingSemaphore (if count = 0 then 1 else count) count (by split <;> omega)

/-- `count` times `sys_arch_sem_wait`, while nobody gives the semaphore. -/
def sysArchSemWaits (s : Semaphore) : Nat → Semaphore
  | 0 => s
  | count + 1 => (s.xSemaphoreTake.getD s).sysArchSemWaits count

section Lemmas

variable {s t : Semaphore}

theorem take_some (h : s.xSemaphoreTake = some t) :
    t.uxMessagesWaiting + 1 = s.uxMessagesWaiting ∧ t.uxLength = s.uxLength := by
  unfold xSemaphoreTake at h
  split at h
  · cases h
    exact ⟨Nat.sub_add_cancel ‹_›, rfl⟩
  · cases h

theorem give_waiting (s : Semaphore) : s.xSemaphoreGiveFromISR.uxMessagesWaiting =
    min (s.uxMessagesWaiting + 1) s.uxLength := by
  have hle := s.waiting_le
  unfold xSemaphoreGiveFromISR
  split
  · simp only
    omega
  · omega

@[simp] theorem give_length (s : Semaphore) : s.xSemaphoreGiveFromISR.uxLength = s.uxLength := by
  unfold xSemaphoreGiveFromISR
  split <;> rfl

theorem sysSemNew_length {count : Nat} (h : count ≠ 0) : (sysSemNew count).uxLength = count :=
  if_neg h

theorem waits_length (count : Nat) : (s.sysArchSemWaits count).uxLength = s.uxLength := by
  induction count generalizing s with
  | zero => rfl
  | succ count ih =>
    unfold sysArchSemWaits
    rw [ih]
    cases htake : s.xSemaphoreTake with
    | none => rfl
    | some t => exact (take_some htake).2

end Lemmas

end Semaphore

end FreeLwip.Kernel
