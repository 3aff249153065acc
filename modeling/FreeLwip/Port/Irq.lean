import Mathlib.Data.BitVec

/-!
# The interrupt enable of the port

`port.c` keeps the interrupt enable that a disable took away in one global, `lastContext`:
each disable ORs its context in, each enable writes all of it back and clears it.
-/

namespace FreeLwip.Port

/-- The CPU status register, and what `alt_irq_disable_all` returns (`alt_irq_context`). -/
abbrev AltIrqContext := BitVec 32

def nios2StatusPieMsk : AltIrqContext := 1

/-- The PIE bit: the CPU takes interrupts. -/
def pie (status : AltIrqContext) : Bool := status.getLsbD 0

/-- The context to restore later, and the new status. -/
def altIrqDisableAll (status : AltIrqContext) : AltIrqContext × AltIrqContext :=
  let context := status
  (context, context &&& ~~~nios2StatusPieMsk)

/-- The read-modify-write of the configured CPU (it has the MPU and the external interrupt
controller): only PIE comes from the context. -/
def altIrqEnableAll (context status : AltIrqContext) : AltIrqContext :=
  let status := status &&& ~~~nios2StatusPieMsk
  status ||| (context &&& nios2StatusPieMsk)

structure IrqState where
  status : AltIrqContext
  lastContext : AltIrqContext
  deriving DecidableEq, Repr

def enhAltIrqDisableAll (s : IrqState) : IrqState :=
  let (ctxt, status) := altIrqDisableAll s.status
  { status := status, lastContext := s.lastContext ||| ctxt }

def enhAltIrqEnableAll (s : IrqState) : IrqState :=
  let restore := s.lastContext
  { status := altIrqEnableAll restore s.status, lastContext := 0 }

/-! ## What they do to PIE -/

@[simp] theorem pie_zero : pie 0#32 = false := rfl

@[simp] theorem pie_mask : pie nios2StatusPieMsk = true := rfl

@[simp] theorem pie_or (a b : AltIrqContext) : pie (a ||| b) = (pie a || pie b) := by
  simp [pie]

@[simp] theorem pie_and (a b : AltIrqContext) : pie (a &&& b) = (pie a && pie b) := by
  simp [pie]

@[simp] theorem pie_not (a : AltIrqContext) : pie (~~~a) = !pie a := by
  simp [pie]

@[simp] theorem disable_status (s : IrqState) : pie (enhAltIrqDisableAll s).status = false := by
  simp [enhAltIrqDisableAll, altIrqDisableAll]

@[simp] theorem disable_lastContext (s : IrqState) :
    pie (enhAltIrqDisableAll s).lastContext = (pie s.lastContext || pie s.status) := by
  simp [enhAltIrqDisableAll, altIrqDisableAll]

@[simp] theorem enable_status (s : IrqState) :
    pie (enhAltIrqEnableAll s).status = pie s.lastContext := by
  simp [enhAltIrqEnableAll, altIrqEnableAll]

@[simp] theorem enable_lastContext (s : IrqState) : (enhAltIrqEnableAll s).lastContext = 0 := rfl

end FreeLwip.Port
