import FreeLwip.Port.Critical
import FreeLwip.Port.Switch

/-!
# The first context of a task (`port.c`)

`pxPortInitialiseStack` writes a context by hand, for `restore_context` to start the task from.
-/

namespace FreeLwip.Port

open Nios2

def endOfStackMarker : Word := 0xdeadbeef

/-- The memory that the C function leaves, and the pointer it returns. The pointer is to words
of four bytes. -/
def pxPortInitialiseStack (xPortStartScheduler : Word) (m : Machine)
    (pxTopOfStack pxCode pvParameters : Word) : Machine × Word :=
  let pxFramePointer := pxTopOfStack - 4
  let xGlobalPointer := m.reg .gp
  let m := m.store pxTopOfStack endOfStackMarker
  let pxTopOfStack := pxTopOfStack - 4
  let m := m.store pxTopOfStack pxFramePointer
  let pxTopOfStack := pxTopOfStack - 4
  let m := m.store pxTopOfStack xGlobalPointer
  -- Space for R23 to R16.
  let pxTopOfStack := pxTopOfStack - 4 * 9
  let m := m.store pxTopOfStack pxCode
  let pxTopOfStack := pxTopOfStack - 4
  let m := m.store pxTopOfStack portInitialEstatus
  -- Space for R15 to R5.
  let pxTopOfStack := pxTopOfStack - 4 * 12
  let m := m.store pxTopOfStack pvParameters
  -- Space for R3 to R1, muldiv and RA.
  let pxTopOfStack := pxTopOfStack - 4 * 5
  (m.store pxTopOfStack xPortStartScheduler, pxTopOfStack)

/-- What a task is to start with. -/
structure Start where
  pxCode : Word
  pvParameters : Word
  gp : Word
  fp : Word
  ra : Word
  sp : Word
  errno : Word

/-- The slots that `restore_context` loads these from. -/
def Start.slots (w : Start) : List (Word × Word) :=
  [(116, w.errno), (112, w.fp), (108, w.gp), (72, w.pxCode), (68, portInitialEstatus),
    (20, w.pvParameters), (0, w.ra)]

/-- The task runs its code, with interrupts enabled. -/
structure Layout.Starts {Task : Type*} (k : Layout Task) (w : Start) (m : Machine) : Prop where
  pc : m.pc = w.pxCode
  r4 : m.reg .r4 = w.pvParameters
  gp : m.reg .gp = w.gp
  fp : m.reg .fp = w.fp
  ra : m.reg .ra = w.ra
  sp : m.reg .sp = w.sp
  pie : m.pie = true
  errno : m.mem k.errno = w.errno

/-- A call of `pxPortInitialiseStack`. -/
structure Creation where
  machine : Machine
  xPortStartScheduler : Word
  pxTopOfStack : Word
  pxCode : Word
  pvParameters : Word

namespace Creation

def written (n : Creation) : Machine :=
  (pxPortInitialiseStack n.xPortStartScheduler n.machine n.pxTopOfStack n.pxCode
    n.pvParameters).1

def returned (n : Creation) : Word :=
  (pxPortInitialiseStack n.xPortStartScheduler n.machine n.pxTopOfStack n.pxCode
    n.pvParameters).2

/-- What the task is to start with, with this `errno`. -/
def intended (n : Creation) (errno : Word) : Start where
  pxCode := n.pxCode
  pvParameters := n.pvParameters
  gp := n.machine.reg .gp
  fp := n.pxTopOfStack - 4
  ra := n.xPortStartScheduler
  sp := n.pxTopOfStack + 4
  errno := errno

/-- The frame is what `restore_context` starts the task from, whatever has run in between, as
long as the frame is as it was written. -/
structure FrameMatches {Task : Type*} {k : Layout Task} (calls : Calls k) (n : Creation)
    (errno : Word) : Prop where
  inside : ∀ a, ¬ InContext (n.pxTopOfStack - 116) a → n.written.mem a = n.machine.mem a
  slots : ∀ p ∈ (n.intended errno).slots, n.written.mem (n.returned + p.1) = p.2
  starts : ∀ τ m, k.Called τ m → m.reg .sp = n.returned →
    (∀ a, InContext n.returned a → m.mem a = n.written.mem a) →
    k.Starts (n.intended errno) (calls.restoreContext m)

end Creation

variable {Task : Type*} {k : Layout Task} {τ : Task} {m : Machine} {mem : Word → Word} {b : Word}
  {w : Start}

/-! ## Frames -/

/-- Whatever is in memory is a context. -/
def frameContext (mem : Word → Word) (b : Word) : Context where
  reg r := (((lowSlots ++ highSlots).lookup r).map fun offset => mem (b + offset)).getD (b + 120)
  status := mem (b + 68)
  errno := mem (b + 116)
  pc := mem (b + 72)

theorem frameContext_reg (mem : Word → Word) (b : Word) {r : Reg} {offset : Word}
    (h : (lowSlots ++ highSlots).lookup r = some offset) :
    (frameContext mem b).reg r = mem (b + offset) := by
  simp only [frameContext, h, Option.map_some, Option.getD_some]

theorem frameContext_holds (mem : Word → Word) (b : Word) :
    Holds mem b (frameContext mem b) where
  reg p hp := by
    have hlookup : ∀ p ∈ lowSlots ++ highSlots,
        (lowSlots ++ highSlots).lookup p.1 = some p.2 := by decide
    exact (frameContext_reg mem b (hlookup p hp)).symm
  sp := rfl
  status := rfl
  pc := rfl
  errno := rfl

theorem frameContext_handling (h : k.Called τ m) :
    k.Handling τ (fun tcb => frameContext m.mem (m.mem tcb))
      (frameContext m.mem (m.reg .sp)) m where
  room := h.room
  own := frameContext_holds _ _
  others τ' hne := ⟨h.others τ' hne, frameContext_holds _ _⟩

theorem restoreContext_starts (calls : Calls k) (h : k.Called τ m)
    (hslots : ∀ p ∈ w.slots, m.mem (m.reg .sp + p.1) = p.2) (hsp : m.reg .sp + 120 = w.sp) :
    k.Starts w (calls.restoreContext m) := by
  have hshows := calls.restoreContext_shows (frameContext_handling h)
  have hreg : ∀ r offset v, r ∈ taskRegs → (lowSlots ++ highSlots).lookup r = some offset →
      (offset, v) ∈ w.slots → (calls.restoreContext m).reg r = v := by
    intro r offset v hr hlookup hslot
    rw [hshows.reg r hr, frameContext_reg _ _ hlookup]
    exact hslots _ hslot
  constructor
  · exact hshows.pc.trans (hslots (72, w.pxCode) (by simp [Start.slots]))
  · exact hreg .r4 20 _ (by decide) (by decide) (by simp [Start.slots])
  · exact hreg .gp 108 _ (by decide) (by decide) (by simp [Start.slots])
  · exact hreg .fp 112 _ (by decide) (by decide) (by simp [Start.slots])
  · exact hreg .ra 0 _ (by decide) (by decide) (by simp [Start.slots])
  · exact (hshows.reg .sp (by decide)).trans hsp
  · have hstatus : (calls.restoreContext m).status = portInitialEstatus :=
      hshows.status.trans (hslots (68, portInitialEstatus) (by simp [Start.slots]))
    rw [Machine.pie, hstatus]
    rfl
  · exact hshows.errno.trans (hslots (116, w.errno) (by simp [Start.slots]))

namespace Creation

variable (n : Creation)

/-- The decrements of the pointer come to the offsets of `restore_context`, from the bottom of
the frame on, and the end-of-stack marker is in the slot of `errno`. -/
theorem initialise_eq :
    n.returned = n.pxTopOfStack - 116 ∧
      n.written = n.machine.storeAll n.returned (n.intended endOfStackMarker).slots := by
  obtain ⟨b, hb⟩ : ∃ b, n.pxTopOfStack = b + 116 :=
    ⟨n.pxTopOfStack - 116, (BitVec.sub_add_cancel ..).symm⟩
  have hsub : ∀ x y : Word, b + x - y = b + (x - y) := fun x y => by
    rw [BitVec.sub_eq_add_neg, BitVec.sub_eq_add_neg, BitVec.add_assoc]
  have hreturned : n.returned = b + 0 := by
    simp only [returned, pxPortInitialiseStack, hb, hsub]
    rfl
  refine ⟨?_, ?_⟩
  · rw [hreturned, hb, hsub]
    rfl
  · have hzero : b + 0 = b := BitVec.add_zero _
    rw [hreturned, hzero]
    simp only [written, pxPortInitialiseStack, intended, Start.slots, Machine.storeAll, hb, hsub,
      BitVec.reduceSub, BitVec.reduceMul, BitVec.ofNat_eq_ofNat]

theorem slots_offsets (errno : Word) :
    (n.intended errno).slots.map Prod.fst = [116, 112, 108, 72, 68, 20, 0] :=
  rfl

theorem written_slot {p : Word × Word} (hp : p ∈ (n.intended endOfStackMarker).slots) :
    n.written.mem (n.returned + p.1) = p.2 := by
  rw [n.initialise_eq.2]
  refine storeAll_of_mem ?_ hp
  rw [slots_offsets]
  decide

theorem slot_inContext {errno : Word} {p : Word × Word} (hp : p ∈ (n.intended errno).slots) :
    p.1 < 120 := by
  have hoffset : p.1 ∈ (n.intended errno).slots.map Prod.fst := List.mem_map_of_mem hp
  rw [slots_offsets] at hoffset
  have hlt : ([116, 112, 108, 72, 68, 20, 0] : List Word).all (· < 120) = true := by decide
  exact of_decide_eq_true (List.all_eq_true.mp hlt p.1 hoffset)

theorem written_errno : n.written.mem (n.returned + 116) = endOfStackMarker :=
  n.written_slot (p := (116, endOfStackMarker)) List.mem_cons_self

/-- All is as intended, if only the task may start with the end-of-stack marker in `errno`. -/
theorem frameMatches_marker (calls : Calls k) : n.FrameMatches calls endOfStackMarker where
  inside a ha := by
    rw [n.initialise_eq.2]
    refine storeAll_of_not_mem fun p hp heq => ha ?_
    rw [← n.initialise_eq.1, heq]
    exact inContext_add (n.slot_inContext hp)
  slots p hp := n.written_slot hp
  starts τ m hcalled hsp hframe := by
    refine restoreContext_starts calls hcalled (fun p hp => ?_) ?_
    · rw [hsp, hframe _ (inContext_add (n.slot_inContext hp))]
      exact n.written_slot hp
    · rw [hsp, n.initialise_eq.1]
      change n.pxTopOfStack - 116 + 120 = n.pxTopOfStack + 4
      rw [BitVec.sub_eq_add_neg, BitVec.add_assoc]
      rfl

/-- The frame of a new task never matches: `restore_context` loads the end-of-stack marker into
`errno`. This is all that is wrong with it. -/
theorem not_frameMatches (calls : Calls k) :
    ¬ n.FrameMatches calls 0 ∧ n.FrameMatches calls endOfStackMarker := by
  refine ⟨fun h => ?_, n.frameMatches_marker calls⟩
  have hzero := h.slots (116, 0) List.mem_cons_self
  rw [n.written_errno] at hzero
  exact absurd hzero (by decide)

end Creation

/-! ### One of two tasks -/

/-- Task 0 is created on its stack. The memory is empty, but for the TCB of task 1. -/
def newTask : Creation where
  machine :=
    { reg := fun r => if r = .gp then 0x8000 else 0
      pc := 0, status := 1, estatus := 0, ipending := 0
      mem := fun a => if a = 0x104 then 0x24000 else 0 }
  xPortStartScheduler := 0x30
  pxTopOfStack := 0x14074
  pxCode := 0x40
  pvParameters := 7

/-- The task is restored at once. Its `errno` is not zero. -/
theorem newTask_not_frameMatches :
    (Switch.twoCalls.restoreContext (newTask.written.set .sp newTask.returned)).mem
        Switch.twoTasks.errno = 0xdeadbeef ∧
      ¬ newTask.FrameMatches Switch.twoCalls 0 := by
  have hrun : (Switch.twoCalls.restoreContext (newTask.written.set .sp newTask.returned)).mem
      Switch.twoTasks.errno = 0xdeadbeef := by decide +kernel
  refine ⟨hrun, fun h => ?_⟩
  have hcalled : Switch.twoTasks.Called 0 (newTask.written.set .sp newTask.returned) := by
    refine ⟨by change _ ∧ _; decide, fun τ' hne => ?_⟩
    have h1 : τ' = 1 := by omega
    subst h1
    change _ ∧ _
    decide
  have hzero := (h.starts 0 _ hcalled (Machine.set_self ..) fun _ _ => rfl).errno
  rw [hrun] at hzero
  exact absurd hzero (by decide)

end FreeLwip.Port
