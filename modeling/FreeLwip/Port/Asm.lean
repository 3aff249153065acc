import FreeLwip.Lib.Nios2

/-!
# The exception path of `port_asm.S`

Each definition is one label of the source, with its instructions up to the next branch or
call. A call is what the called function does to the machine, under the ABI.
-/

namespace FreeLwip.Port

open Nios2

/-- The words of a context that starts at `b`. -/
def InContext (b a : Word) : Prop := a - b < 120

/-! ## Memory -/

/-- Where the tasks have their stacks, and the kernel its data. -/
structure Layout (Task : Type*) where
  stack : Task → Word → Prop
  /-- A context at this address, and the functions called below it, are on the stack. -/
  room : Task → Word → Prop
  /-- The address of the TCB, and so of its `pxTopOfStack`. -/
  tcb : Task → Word
  pxCurrentTCB : Word
  errno : Word
  text : Word → Bool
  room_stack : ∀ {τ b a}, room τ b → InContext b a → stack τ a
  stacks_apart : ∀ {τ τ' a}, stack τ a → stack τ' a → τ = τ'
  tcb_not_stack : ∀ τ τ', ¬ stack τ (tcb τ')
  pxCurrentTCB_not_stack : ∀ τ, ¬ stack τ pxCurrentTCB
  errno_not_stack : ∀ τ, ¬ stack τ errno
  text_not_stack : ∀ {τ a}, text a → ¬ stack τ a
  tcb_injective : Function.Injective tcb
  tcb_ne_pxCurrentTCB : ∀ τ, tcb τ ≠ pxCurrentTCB
  tcb_ne_errno : ∀ τ, tcb τ ≠ errno
  pxCurrentTCB_ne_errno : pxCurrentTCB ≠ errno
  text_ne_tcb : ∀ {a}, text a → ∀ τ, a ≠ tcb τ

variable {Task : Type*}

/-! ## C functions -/

/-- The registers that a C function gives back as it found them, and `ea`, which it does
not use. -/
def calleeSaved : List Reg :=
  [.r16, .r17, .r18, .r19, .r20, .r21, .r22, .r23, .gp, .sp, .fp, .ea]

/-- A C function is called on the stack of `τ`, and the other tasks' TCBs point to contexts. -/
structure Layout.Called (k : Layout Task) (τ : Task) (m : Machine) : Prop where
  room : k.room τ (m.reg .sp)
  others : ∀ τ' ≠ τ, k.room τ' (m.mem (k.tcb τ'))

/-- What a C function keeps when it is called on the stack of `τ`: its caller's frame, and
the contexts of the other tasks. -/
structure Layout.Abi (k : Layout Task) (τ : Task) (m m' : Machine) : Prop where
  reg : ∀ r ∈ calleeSaved, m'.reg r = m.reg r
  estatus : m'.estatus = m.estatus
  frame : ∀ a, InContext (m.reg .sp) a → m'.mem a = m.mem a
  context : ∀ τ' ≠ τ, ∀ a, InContext (m.mem (k.tcb τ')) a → m'.mem a = m.mem a
  top : ∀ τ', m'.mem (k.tcb τ') = m.mem (k.tcb τ')
  text : ∀ a, k.text a → m'.mem a = m.mem a

/-- A C function that only looks at the kernel's data. -/
structure Layout.Reads (k : Layout Task) (τ : Task) (m m' : Machine) : Prop
    extends k.Abi τ m m' where
  pxCurrentTCB : m'.mem k.pxCurrentTCB = m.mem k.pxCurrentTCB
  errno : m'.mem k.errno = m.mem k.errno

/-- `pxCurrentTCB` points to the TCB of a task. -/
def Layout.HasCurrent (k : Layout Task) (m : Machine) : Prop :=
  ∃ τ, m.mem k.pxCurrentTCB = k.tcb τ

/-- The C functions that the exception path calls. The scheduler is running. -/
structure Calls (k : Layout Task) where
  errno : Machine → Machine
  xTaskGetSchedulerState : Machine → Machine
  altIrqHandler : Machine → Machine
  altInstructionExceptionEntry : Machine → Machine
  vTaskSwitchContext : Machine → Machine
  errno_reads : ∀ {τ m}, k.Called τ m → k.Reads τ m (errno m)
  errno_returns : ∀ {τ m}, k.Called τ m → (errno m).reg .r2 = k.errno
  state_reads : ∀ {τ m}, k.Called τ m → k.Reads τ m (xTaskGetSchedulerState m)
  state_running : ∀ {τ m}, k.Called τ m → (xTaskGetSchedulerState m).reg .r2 ≠ 0
  irq_abi : ∀ {τ m}, k.Called τ m → k.Abi τ m (altIrqHandler m)
  irq_current : ∀ {τ m}, k.Called τ m → k.HasCurrent m → k.HasCurrent (altIrqHandler m)
  instruction_abi : ∀ {τ m}, k.Called τ m → k.Abi τ m (altInstructionExceptionEntry m)
  switch_abi : ∀ {τ m}, k.Called τ m → k.Abi τ m (vTaskSwitchContext m)
  switch_current : ∀ {τ m}, k.Called τ m → k.HasCurrent m →
    k.HasCurrent (vTaskSwitchContext m)

/-! ## Code -/

/-- The instruction code of `trap`. -/
def trapCode : Word := 0x003B683A

def saveRegs : List Instr :=
  [ .addi .ea .ea (-4),
    .addi .sp .sp (-120),
    .stw .ra 0 .sp,
    .stw .r1 8 .sp,
    .stw .r2 12 .sp,
    .stw .r3 16 .sp,
    .stw .r4 20 .sp,
    .stw .r5 24 .sp,
    .stw .r6 28 .sp,
    .stw .r7 32 .sp,
    .stw .r8 36 .sp,
    .stw .r9 40 .sp,
    .stw .r10 44 .sp,
    .stw .r11 48 .sp,
    .stw .r12 52 .sp,
    .stw .r13 56 .sp,
    .stw .r14 60 .sp,
    .stw .r15 64 .sp,
    .rdctl .r5 .estatus,
    .stw .r5 68 .sp,
    .stw .ea 72 .sp,
    .stw .r16 76 .sp,
    .stw .r17 80 .sp,
    .stw .r18 84 .sp,
    .stw .r19 88 .sp,
    .stw .r20 92 .sp,
    .stw .r21 96 .sp,
    .stw .r22 100 .sp,
    .stw .r23 104 .sp,
    .stw .gp 108 .sp,
    .stw .fp 112 .sp ]

def restoreRegs : List Instr :=
  [ .ldw .ra 0 .sp,
    .ldw .r1 8 .sp,
    .ldw .r2 12 .sp,
    .ldw .r3 16 .sp,
    .ldw .r4 20 .sp,
    .ldw .r5 24 .sp,
    .ldw .r6 28 .sp,
    .ldw .r7 32 .sp,
    .ldw .r8 36 .sp,
    .ldw .r9 40 .sp,
    .ldw .r10 44 .sp,
    .ldw .r11 48 .sp,
    .ldw .r12 52 .sp,
    .ldw .r13 56 .sp,
    .ldw .r14 60 .sp,
    .ldw .r15 64 .sp,
    .ldw .et 68 .sp,
    .wrctl .estatus .et,
    .ldw .ea 72 .sp,
    .ldw .r16 76 .sp,
    .ldw .r17 80 .sp,
    .ldw .r18 84 .sp,
    .ldw .r19 88 .sp,
    .ldw .r20 92 .sp,
    .ldw .r21 96 .sp,
    .ldw .r22 100 .sp,
    .ldw .r23 104 .sp,
    .ldw .gp 108 .sp,
    .ldw .fp 112 .sp,
    .addi .sp .sp 120 ]

namespace Calls

variable {k : Layout Task} (c : Calls k)

def restoreContext (m : Machine) : Machine :=
  let m := c.errno m
  let m := m.execAll [.ldw .r3 116 .sp, .stw .r3 0 .r2]
  (m.execAll restoreRegs).eret

def restoreSpFromPxCurrentTCB (m : Machine) : Machine :=
  let m := c.xTaskGetSchedulerState m
  if m.reg .r2 = 0 then
    c.restoreContext m
  else
    c.restoreContext (m.execAll [.movia .et k.pxCurrentTCB, .ldw .et 0 .et, .ldw .sp 0 .et])

def hwIrqHandler (m : Machine) : Machine :=
  c.restoreSpFromPxCurrentTCB (c.altIrqHandler m)

def callScheduler (m : Machine) : Machine :=
  let m := c.xTaskGetSchedulerState m
  if m.reg .r2 = 0 then
    c.restoreContext m
  else
    let m := m.execAll [.addi .ea .ea 4, .stw .ea 72 .sp]
    c.restoreSpFromPxCurrentTCB (c.vTaskSwitchContext m)

/-- The two halves of `0x003B683A` are loaded to compare the instruction with. -/
def softExceptions (m : Machine) : Machine :=
  let m := m.execAll
    [.ldw .et 0 .ea, .movhi .r1 0x003B, .ori .r1 .r1 0x683A, .cmpne .et .et .r1]
  if m.reg .et = 0 then
    c.callScheduler m
  else
    c.restoreContext (c.altInstructionExceptionEntry (m.execAll [.mov .r4 .ea]))

/-- `ipending` is what the register shows by now. -/
def hwIrqTest (ipending : Word) (m : Machine) : Machine :=
  let m : Machine := { m with ipending := ipending }
  let m := m.execAll [.rdctl .r4 .ipending, .rdctl .r5 .estatus, .andi .r2 .r5 1]
  if m.reg .r2 = 0 then
    c.softExceptions m
  else if m.reg .r4 = 0 then
    c.softExceptions m
  else
    c.hwIrqHandler m

def saveSpToPxCurrentTCB (ipending : Word) (m : Machine) : Machine :=
  let m := c.xTaskGetSchedulerState m
  if m.reg .r2 = 0 then
    c.hwIrqTest ipending m
  else
    c.hwIrqTest ipending
      (m.execAll [.movia .et k.pxCurrentTCB, .ldw .et 0 .et, .stw .sp 0 .et])

def saveContext (ipending : Word) (m : Machine) : Machine :=
  let m := c.errno (m.execAll saveRegs)
  let m := m.execAll [.ldw .r3 0 .r2, .stw .r3 116 .sp]
  c.saveSpToPxCurrentTCB ipending m

end Calls

end FreeLwip.Port
