import Mathlib.Logic.Function.Basic
import FreeLwip.Lib.Ring
import FreeLwip.Kernel.TimeOut

/-!
# Queues (`queue.c`)

A queue is a ring of items with a write position, the position that was read last, and a
count. Its turns are the parts of a call between which other tasks run.
-/

namespace FreeLwip.Kernel

open RingIndex

variable {M : Type*}

structure Queue (M : Type*) where
  uxLength : Nat
  storage : Nat → M
  pcWriteTo : Nat
  pcReadFrom : Nat
  uxMessagesWaiting : Nat
  readFrom_lt : pcReadFrom < uxLength
  waiting_le : uxMessagesWaiting ≤ uxLength
  writeTo_eq : pcWriteTo = (next uxLength pcReadFrom + uxMessagesWaiting) % uxLength

namespace Queue

/-- `xQueueGenericCreate` with `xQueueGenericReset`; the storage is not initialised. -/
def xQueueGenericCreate (uxLength : Nat) (hpos : 0 < uxLength) (storage : Nat → M) : Queue M where
  uxLength := uxLength
  storage := storage
  pcWriteTo := 0
  pcReadFrom := uxLength - 1
  uxMessagesWaiting := 0
  readFrom_lt := by omega
  waiting_le := Nat.zero_le _
  writeTo_eq := by
    have hlast : uxLength - 1 < uxLength := by omega
    rw [next_eq_mod hlast, Nat.mod_add_mod, Nat.sub_add_cancel hpos, Nat.mod_self]

theorem pos (q : Queue M) : 0 < q.uxLength := Nat.zero_lt_of_lt q.readFrom_lt

/-- The items from the oldest to the newest. -/
def messages (q : Queue M) : List M :=
  (window q.uxLength (next q.uxLength q.pcReadFrom) q.uxMessagesWaiting).map q.storage

def prvCopyDataToQueue (q : Queue M) (item : M) (hroom : q.uxMessagesWaiting < q.uxLength) :
    Queue M where
  uxLength := q.uxLength
  storage := Function.update q.storage q.pcWriteTo item
  pcWriteTo := next q.uxLength q.pcWriteTo
  pcReadFrom := q.pcReadFrom
  uxMessagesWaiting := q.uxMessagesWaiting + 1
  readFrom_lt := q.readFrom_lt
  waiting_le := hroom
  writeTo_eq := by
    have hlt : q.pcWriteTo < q.uxLength := by
      rw [q.writeTo_eq]
      exact Nat.mod_lt _ q.pos
    rw [next_eq_mod hlt, q.writeTo_eq, Nat.mod_add_mod, Nat.add_assoc]

/-- `prvCopyDataFromQueue`, and the count. -/
def prvCopyDataFromQueue (q : Queue M) (hmsg : 0 < q.uxMessagesWaiting) : M × Queue M :=
  (q.storage (next q.uxLength q.pcReadFrom),
    { uxLength := q.uxLength
      storage := q.storage
      pcWriteTo := q.pcWriteTo
      pcReadFrom := next q.uxLength q.pcReadFrom
      uxMessagesWaiting := q.uxMessagesWaiting - 1
      readFrom_lt := next_lt q.pos _
      waiting_le := le_trans (Nat.sub_le _ _) q.waiting_le
      writeTo_eq := by
        rw [next_add_mod (next_lt q.pos _), q.writeTo_eq, Nat.sub_add_cancel hmsg] })

theorem messages_copyTo (q : Queue M) (item : M) (hroom : q.uxMessagesWaiting < q.uxLength) :
    (q.prvCopyDataToQueue item hroom).messages = q.messages ++ [item] := by
  have hfree : q.pcWriteTo ∉
      window q.uxLength (next q.uxLength q.pcReadFrom) q.uxMessagesWaiting := by
    rw [q.writeTo_eq]
    exact end_not_mem_window hroom
  unfold messages prvCopyDataToQueue
  simp only
  rw [window_push, List.map_append, List.map_singleton, ← q.writeTo_eq, Function.update_self]
  congr 1
  refine List.map_congr_left fun i hi => ?_
  have hne : i ≠ q.pcWriteTo := by
    rintro rfl
    exact hfree hi
  rw [Function.update_of_ne hne]

theorem messages_copyFrom (q : Queue M) (hmsg : 0 < q.uxMessagesWaiting) :
    q.messages = (q.prvCopyDataFromQueue hmsg).1 :: (q.prvCopyDataFromQueue hmsg).2.messages := by
  unfold messages prvCopyDataFromQueue
  simp only
  obtain ⟨n, hn⟩ : ∃ n, q.uxMessagesWaiting = n + 1 := ⟨_, (Nat.sub_add_cancel hmsg).symm⟩
  rw [hn, window_pop (next_lt q.pos _), List.map_cons, Nat.add_sub_cancel]

/-! ## `xQueueGenericSend` and `xQueueGenericReceive` -/

inductive SendTurn (M : Type*)
  | pdPass (q : Queue M)
  | errQueueFull
  /-- On to the check of the block time. -/
  | wait (xTicksToWait : PortTickType) (xTimeOut : TimeOut)

/-- The critical section; `xTimeOut` is none while `xEntryTimeSet` is false. -/
def xQueueGenericSendTry (q : Queue M) (now : Nat) (item : M) (xTicksToWait : PortTickType)
    (xTimeOut : Option TimeOut) : SendTurn M :=
  if hroom : q.uxMessagesWaiting < q.uxLength then
    .pdPass (q.prvCopyDataToQueue item hroom)
  else if xTicksToWait = 0 then
    .errQueueFull
  else
    .wait xTicksToWait (xTimeOut.getD (vTaskSetTimeOutState now))

inductive CheckTurn
  | errQueueFull
  | block (xTicksToWait : PortTickType) (xTimeOut : TimeOut)
  | tryAgain (xTicksToWait : PortTickType) (xTimeOut : TimeOut)

def prvIsQueueFull (q : Queue M) : Bool := decide (q.uxMessagesWaiting = q.uxLength)

/-- With the scheduler suspended: has the block time expired, and is there room by now? -/
def xQueueGenericSendCheck (q : Queue M) (now : Nat) (xTicksToWait : PortTickType)
    (xTimeOut : TimeOut) : CheckTurn :=
  match xTaskCheckForTimeOut now xTimeOut xTicksToWait with
  | (false, xTimeOut, xTicksToWait) =>
    if q.prvIsQueueFull then .block xTicksToWait xTimeOut else .tryAgain xTicksToWait xTimeOut
  | (true, _, _) => .errQueueFull

/-- The critical section of `xQueueGenericReceive`; none if the queue is empty. -/
def xQueueGenericReceiveTry (q : Queue M) : Option (M × Queue M) :=
  if hmsg : 0 < q.uxMessagesWaiting then some (q.prvCopyDataFromQueue hmsg) else none

theorem sendTry_pass {q q' : Queue M} {now : Nat} {item : M} {xTicksToWait : PortTickType}
    {xTimeOut : Option TimeOut}
    (h : q.xQueueGenericSendTry now item xTicksToWait xTimeOut = .pdPass q') :
    q'.messages = q.messages ++ [item] := by
  unfold xQueueGenericSendTry at h
  split at h
  · next hroom =>
    cases h
    exact q.messages_copyTo item hroom
  · split at h <;> cases h

theorem sendTry_full {q : Queue M} {now : Nat} {item : M} {xTicksToWait : PortTickType}
    {xTimeOut : Option TimeOut}
    (h : q.xQueueGenericSendTry now item xTicksToWait xTimeOut = .errQueueFull) :
    xTicksToWait = 0 := by
  unfold xQueueGenericSendTry at h
  split at h
  · cases h
  · split at h
    · assumption
    · cases h

theorem sendTry_wait {q : Queue M} {now : Nat} {item : M} {ticks xTicksToWait : PortTickType}
    {xTimeOut : Option TimeOut} {t : TimeOut}
    (h : q.xQueueGenericSendTry now item xTicksToWait xTimeOut = .wait ticks t) :
    ticks = xTicksToWait ∧ xTicksToWait ≠ 0 := by
  unfold xQueueGenericSendTry at h
  split at h
  · cases h
  · split at h
    · cases h
    · next hne =>
      cases h
      exact ⟨rfl, hne⟩

theorem sendCheck_full_iff {q : Queue M} {now : Nat} {xTicksToWait : PortTickType}
    {xTimeOut : TimeOut} : q.xQueueGenericSendCheck now xTicksToWait xTimeOut = .errQueueFull ↔
      (xTaskCheckForTimeOut now xTimeOut xTicksToWait).1 = true := by
  unfold xQueueGenericSendCheck
  split
  · next hleft =>
    rw [hleft]
    split <;> simp
  · next hexpired =>
    rw [hexpired]
    simp

theorem sendCheck_left {q : Queue M} {now : Nat} {xTicksToWait ticks : PortTickType}
    {xTimeOut t : TimeOut}
    (h : q.xQueueGenericSendCheck now xTicksToWait xTimeOut = .block ticks t ∨
      q.xQueueGenericSendCheck now xTicksToWait xTimeOut = .tryAgain ticks t) :
    xTaskCheckForTimeOut now xTimeOut xTicksToWait = (false, t, ticks) := by
  unfold xQueueGenericSendCheck at h
  split at h
  · next hleft =>
    rw [hleft]
    split at h <;> rcases h with h | h <;> cases h <;> rfl
  · rcases h with h | h <;> cases h

theorem receiveTry_some {q q' : Queue M} {item : M}
    (h : q.xQueueGenericReceiveTry = some (item, q')) : q.messages = item :: q'.messages := by
  unfold xQueueGenericReceiveTry at h
  split at h
  · next hmsg =>
    have heq := Option.some.inj h
    rw [q.messages_copyFrom hmsg, heq]
  · cases h

end Queue

end FreeLwip.Kernel
