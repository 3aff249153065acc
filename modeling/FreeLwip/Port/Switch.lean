import FreeLwip.Lib.Run
import FreeLwip.Port.Context

/-!
# Context switches

Between two exceptions the running task does what it likes with the machine, but for the
contexts of the others. An exception saves the context of the running task, and restores that
of the task that `pxCurrentTCB` points to when the handler is through.
-/

namespace FreeLwip.Port

open Nios2 Run

variable {Task : Type*} {k : Layout Task} {τ τ' : Task} {c : Context} {m m' : Machine}
  {mem mem' : Word → Word} {saved : Word → Context}

/-! ## Tasks that do not run -/

/-- The context of a task is on its stack, where its TCB points. -/
structure Layout.Suspended (k : Layout Task) (mem : Word → Word) (τ : Task) (c : Context) :
    Prop where
  room : k.room τ (mem (k.tcb τ))
  holds : Holds mem (mem (k.tcb τ)) c

/-- The words that the exception path itself writes to when it handles an exception of `τ`. -/
def Layout.Own (k : Layout Task) (τ : Task) (a : Word) : Prop :=
  k.stack τ a ∨ a = k.tcb τ ∨ a = k.errno

namespace Layout.Suspended

theorem congr (h : k.Suspended mem τ c) (htop : mem' (k.tcb τ) = mem (k.tcb τ))
    (hmem : ∀ a, InContext (mem (k.tcb τ)) a → mem' a = mem a) : k.Suspended mem' τ c := by
  refine ⟨?_, ?_⟩
  · rw [htop]
    exact h.room
  · rw [htop]
    exact h.holds.congr hmem

theorem of_own (h : k.Suspended mem τ' c) (hne : τ' ≠ τ)
    (hmem : ∀ a, ¬ k.Own τ a → mem' a = mem a) : k.Suspended mem' τ' c := by
  apply h.congr
  · apply hmem
    rintro (hstack | htcb | herrno)
    · exact k.tcb_not_stack τ τ' hstack
    · exact hne (k.tcb_injective htcb)
    · exact k.tcb_ne_errno τ' herrno
  · intro a ha
    have hstack' := k.room_stack h.room ha
    apply hmem
    rintro (hstack | rfl | rfl)
    · exact hne (k.stacks_apart hstack' hstack)
    · exact k.tcb_not_stack τ' τ hstack'
    · exact k.errno_not_stack τ' hstack'

end Layout.Suspended

/-! ## In the handler -/

def Layout.context (k : Layout Task) (m : Machine) : Context :=
  { reg := m.reg, status := m.status, errno := m.mem k.errno, pc := m.pc }

/-- The handler will see an interrupt: they were enabled, and one is pending by now. -/
def Context.Interrupted (c : Context) (ipending : Word) : Prop :=
  c.status &&& 1 ≠ 0 ∧ ipending ≠ 0

instance (c : Context) (ipending : Word) : Decidable (c.Interrupted ipending) :=
  inferInstanceAs (Decidable (_ ∧ _))

/-- Where a task goes on: a trap is done, an interrupted instruction is not. -/
def Context.resumed (c : Context) (ipending : Word) : Context :=
  if c.Interrupted ipending then c else { c with pc := c.pc + 4 }

/-- The stack pointer is at the context of `τ`, and the other tasks are suspended. -/
structure Layout.Handling (k : Layout Task) (τ : Task) (saved : Word → Context) (c : Context)
    (m : Machine) : Prop where
  room : k.room τ (m.reg .sp)
  own : Holds m.mem (m.reg .sp) c
  others : ∀ τ' ≠ τ, k.Suspended m.mem τ' (saved (k.tcb τ'))

namespace Layout.Handling

theorem called (h : k.Handling τ saved c m) : k.Called τ m :=
  ⟨h.room, fun τ' hne => (h.others τ' hne).room⟩

theorem call (h : k.Handling τ saved c m) (habi : k.Abi τ m m') : k.Handling τ saved c m' := by
  have hsp : m'.reg .sp = m.reg .sp := habi.reg .sp (by decide)
  refine ⟨?_, ?_, fun τ' hne => (h.others τ' hne).congr (habi.top τ') (habi.context τ' hne)⟩
  · rw [hsp]
    exact h.room
  · rw [hsp]
    exact h.own.congr habi.frame

theorem regs (h : k.Handling τ saved c m) (hmem : m'.mem = m.mem)
    (hsp : m'.reg .sp = m.reg .sp) : k.Handling τ saved c m' := by
  refine ⟨?_, ?_, ?_⟩
  · rw [hsp]
    exact h.room
  · rw [hmem, hsp]
    exact h.own
  · rw [hmem]
    exact h.others

theorem store (h : k.Handling τ saved c m) {a v : Word} (hown : k.Own τ a)
    (hstack : ¬ k.stack τ a) : k.Handling τ saved c (m.store a v) := by
  refine ⟨h.room, h.own.congr fun b hb => ?_, fun τ' hne => (h.others τ' hne).of_own hne ?_⟩
  · apply m.store_of_ne
    rintro rfl
    exact hstack (k.room_stack h.room hb)
  · intro b hb
    apply m.store_of_ne
    rintro rfl
    exact hb hown

theorem slot (h : k.Handling τ saved c m) {offset v : Word} {c' : Context}
    (hoffset : offset < 120)
    (hholds : Holds (m.store (m.reg .sp + offset) v).mem (m.reg .sp) c') :
    k.Handling τ saved c' (m.store (m.reg .sp + offset) v) := by
  refine ⟨h.room, hholds, fun τ' hne => (h.others τ' hne).of_own hne fun a ha => ?_⟩
  apply m.store_of_ne
  rintro rfl
  exact ha (.inl (k.room_stack h.room (inContext_add hoffset)))

theorem not_slot (h : k.Handling τ saved c m) {offset a : Word} (hoffset : offset < 120)
    (ha : ¬ k.stack τ a) : a ≠ m.reg .sp + offset := by
  rintro rfl
  exact ha (k.room_stack h.room (inContext_add hoffset))

theorem suspended (h : k.Handling τ saved c m) (htop : m.mem (k.tcb τ) = m.reg .sp) (τ' : Task) :
    k.Suspended m.mem τ' (Function.update saved (k.tcb τ) c (k.tcb τ')) := by
  by_cases heq : τ' = τ
  · rw [heq, Function.update_self]
    refine ⟨?_, ?_⟩
    · rw [htop]
      exact h.room
    · rw [htop]
      exact h.own
  · have hne : k.tcb τ' ≠ k.tcb τ := fun htcb => heq (k.tcb_injective htcb)
    rw [Function.update_of_ne hne]
    exact h.others τ' heq

end Layout.Handling

/-- Where the kind of the exception is looked at: the TCB points to the context, and `ea` and
`estatus` still are as there. -/
structure Layout.Entered (k : Layout Task) (τ : Task) (saved : Word → Context) (c : Context)
    (m : Machine) : Prop extends k.Handling τ saved c m where
  top : m.mem (k.tcb τ) = m.reg .sp
  current : k.HasCurrent m
  ea : m.reg .ea = c.pc
  estatus : m.estatus = c.status

theorem Layout.Entered.regs (h : k.Entered τ saved c m) (hmem : m'.mem = m.mem)
    (hsp : m'.reg .sp = m.reg .sp) (hea : m'.reg .ea = m.reg .ea)
    (hestatus : m'.estatus = m.estatus) : k.Entered τ saved c m' := by
  refine ⟨h.toHandling.regs hmem hsp, ?_, ?_, hea.trans h.ea, hestatus.trans h.estatus⟩
  · rw [hmem, hsp]
    exact h.top
  · obtain ⟨τ', hτ'⟩ := h.current
    exact ⟨τ', by rw [hmem, hτ']⟩

/-! ## A task runs again -/

/-- `τ` runs, and the others are suspended. -/
structure Layout.Runs (k : Layout Task) (τ : Task) (saved : Word → Context) (m : Machine) :
    Prop where
  current : m.mem k.pxCurrentTCB = k.tcb τ
  room : k.room τ (m.reg .sp - 120)
  others : ∀ τ' ≠ τ, k.Suspended m.mem τ' (saved (k.tcb τ'))

/-- The machine is as the context says. -/
structure Layout.Shows (k : Layout Task) (m : Machine) (c : Context) : Prop where
  reg : ∀ r ∈ taskRegs, m.reg r = c.reg r
  status : m.status = c.status
  errno : m.mem k.errno = c.errno
  pc : m.pc = c.pc

def Layout.Resumes (k : Layout Task) (saved : Word → Context) (m : Machine) : Prop :=
  ∃ τ, k.Runs τ saved m ∧ k.Shows m (saved (k.tcb τ))

/-! ## The exception path in parts -/

/-- Only registers have changed that the handler uses freely. -/
structure Scratch (m m' : Machine) : Prop where
  mem : m'.mem = m.mem
  sp : m'.reg .sp = m.reg .sp
  ea : m'.reg .ea = m.reg .ea
  estatus : m'.estatus = m.estatus

theorem Layout.Entered.scratch (h : k.Entered τ saved c m) (hm : Scratch m m') :
    k.Entered τ saved c m' :=
  h.regs hm.mem hm.sp hm.ea hm.estatus

/-- `hw_irq_test`, up to its branches. -/
def irqTested (ipending : Word) (m : Machine) : Machine :=
  ({ m with ipending := ipending } : Machine).execAll
    [.rdctl .r4 .ipending, .rdctl .r5 .estatus, .andi .r2 .r5 1]

/-- `soft_exceptions`, up to its branch. -/
def decoded (m : Machine) : Machine :=
  m.execAll [.ldw .et 0 .ea, .movhi .r1 0x003B, .ori .r1 .r1 0x683A, .cmpne .et .et .r1]

/-- Where `hw_irq_test` begins. -/
def Calls.atTest (calls : Calls k) (m : Machine) : Machine :=
  let m := calls.errno (m.execAll saveRegs)
  let m := calls.xTaskGetSchedulerState (m.execAll [.ldw .r3 0 .r2, .stw .r3 116 .sp])
  if m.reg .r2 = 0 then
    m
  else
    m.execAll [.movia .et k.pxCurrentTCB, .ldw .et 0 .et, .stw .sp 0 .et]

theorem Calls.saveContext_eq (calls : Calls k) (ipending : Word) (m : Machine) :
    calls.saveContext ipending m = calls.hwIrqTest ipending (calls.atTest m) := by
  unfold Calls.saveContext Calls.saveSpToPxCurrentTCB Calls.atTest
  simp only
  split <;> rfl

theorem irqTested_eq (ipending : Word) (m : Machine) :
    irqTested ipending m =
      ((({ m with ipending := ipending } : Machine).set .r4 ipending).set .r5 m.estatus).set .r2
        (m.estatus &&& 1) := by
  unfold irqTested
  simp only [Machine.execAll_cons, Machine.execAll_nil, Machine.exec, Machine.set_self,
    Machine.set_ctl]
  rfl

theorem irqTested_scratch (ipending : Word) (m : Machine) :
    Scratch m (irqTested ipending m) := by
  rw [irqTested_eq]
  exact ⟨rfl, rfl, rfl, rfl⟩

theorem Calls.hwIrqTest_exits (calls : Calls k) (ipending : Word)
    (hestatus : m.estatus = c.status) :
    calls.hwIrqTest ipending m =
      if c.Interrupted ipending then calls.hwIrqHandler (irqTested ipending m)
      else calls.softExceptions (irqTested ipending m) := by
  have hr2 : (irqTested ipending m).reg .r2 = c.status &&& 1 := by
    rw [irqTested_eq, Machine.set_self, hestatus]
  have hr4 : (irqTested ipending m).reg .r4 = ipending := by simp [irqTested_eq]
  change (if (irqTested ipending m).reg .r2 = 0 then calls.softExceptions (irqTested ipending m)
    else if (irqTested ipending m).reg .r4 = 0 then calls.softExceptions (irqTested ipending m)
    else calls.hwIrqHandler (irqTested ipending m)) = _
  rw [hr2, hr4]
  by_cases hirq : c.Interrupted ipending
  · rw [if_neg hirq.1, if_neg hirq.2, if_pos hirq]
  · rw [if_neg hirq]
    by_cases hpie : c.status &&& 1 = 0
    · rw [if_pos hpie]
    · have hpending : ipending = 0 := by
        by_contra hne
        exact hirq ⟨hpie, hne⟩
      rw [if_neg hpie, if_pos hpending]

theorem decoded_eq (m : Machine) :
    decoded m = (((m.set .et (m.mem (m.reg .ea))).set .r1 0x003B0000).set .r1 trapCode).set .et
      (if m.mem (m.reg .ea) ≠ trapCode then 1 else 0) := by
  let m₀ := ((m.set .et (m.mem (m.reg .ea))).set .r1 0x003B0000).set .r1 trapCode
  have het : m₀.reg .et = m.mem (m.reg .ea) := by simp [m₀]
  have hr1 : m₀.reg .r1 = trapCode := by simp [m₀]
  unfold decoded
  simp only [Machine.execAll_cons, Machine.execAll_nil, Machine.exec_ldw_zero]
  simp only [Machine.exec, Machine.set_self]
  change m₀.set .et (if m₀.reg .et ≠ m₀.reg .r1 then 1 else 0) = _
  rw [het, hr1]

theorem decoded_scratch (m : Machine) : Scratch m (decoded m) := by
  rw [decoded_eq]
  exact ⟨rfl, rfl, rfl, rfl⟩

theorem Calls.softExceptions_exits (calls : Calls k) (m : Machine) :
    calls.softExceptions m =
      if m.mem (m.reg .ea) = trapCode then calls.callScheduler (decoded m)
      else calls.restoreContext
        (calls.altInstructionExceptionEntry ((decoded m).execAll [.mov .r4 .ea])) := by
  have het : (decoded m).reg .et = if m.mem (m.reg .ea) ≠ trapCode then 1 else 0 := by
    rw [decoded_eq, Machine.set_self]
  change (if (decoded m).reg .et = 0 then calls.callScheduler (decoded m)
    else calls.restoreContext
      (calls.altInstructionExceptionEntry ((decoded m).execAll [.mov .r4 .ea]))) = _
  rw [het]
  by_cases htrap : m.mem (m.reg .ea) = trapCode
  · rw [if_neg (not_not.mpr htrap), if_pos rfl, if_pos htrap]
  · rw [if_pos htrap, if_neg (by decide), if_neg htrap]

theorem saveRegs_sp (m : Machine) :
    (m.takeException.execAll saveRegs).reg .sp = m.reg .sp - 120 := by
  rw [(saveRegs_spec m.takeException).sp, m.takeException_reg (by decide)]

theorem saveRegs_ea (m : Machine) : (m.takeException.execAll saveRegs).reg .ea = m.pc := by
  rw [(saveRegs_spec m.takeException).ea, Machine.takeException_ea, BitVec.add_sub_cancel]

theorem saveRegs_holds (k : Layout Task) (m : Machine) :
    ∃ e, Holds (m.takeException.execAll saveRegs).mem
      ((m.takeException.execAll saveRegs).reg .sp) { k.context m with errno := e } := by
  have hsaved := saveRegs_spec m.takeException
  have hsp : m.takeException.reg .sp = m.reg .sp := m.takeException_reg (by decide)
  have hpc : m.takeException.reg .ea - 4 = m.pc := by
    rw [Machine.takeException_ea, BitVec.add_sub_cancel]
  have hholds := hsaved.holds
  rw [← hsaved.sp, hpc] at hholds
  refine ⟨_, ⟨fun p hp => ?_, ?_, hholds.status, hholds.pc, hholds.errno⟩⟩
  · have hregs : ∀ p ∈ lowSlots ++ highSlots, p.1 ≠ .ea := by decide
    exact (hholds.reg p hp).trans (m.takeException_reg (hregs p hp))
  · exact hholds.sp.trans hsp

theorem restoreErrno_eq {e : Word} (hown : Holds m.mem (m.reg .sp) c) (hr2 : m.reg .r2 = e) :
    m.execAll [.ldw .r3 116 .sp, .stw .r3 0 .r2] = (m.set .r3 c.errno).store e c.errno := by
  have hload : m.exec (.ldw .r3 116 .sp) = m.set .r3 c.errno := by
    rw [Machine.exec, hown.errno]
  simp only [Machine.execAll_cons, Machine.execAll_nil, hload, Machine.exec_stw_zero]
  rw [Machine.set_self, Machine.set_of_ne _ _ (by decide), hr2]

theorem saveErrno_eq {e v : Word} (hr2 : m.reg .r2 = e) (hv : m.mem e = v) :
    m.execAll [.ldw .r3 0 .r2, .stw .r3 116 .sp] =
      (m.set .r3 v).store ((m.set .r3 v).reg .sp + 116) v := by
  rw [Machine.execAll_cons, Machine.exec_ldw_zero, hr2, hv, Machine.execAll_cons,
    Machine.execAll_nil, Machine.exec, Machine.set_self]

namespace Calls

variable (calls : Calls k)

theorem restoreErrno_spec (h : k.Handling τ saved c m) :
    ∃ m', calls.restoreContext m = (m'.execAll restoreRegs).eret ∧ k.Handling τ saved c m' ∧
      m'.reg .sp = m.reg .sp ∧ m'.mem k.errno = c.errno ∧
      m'.mem k.pxCurrentTCB = m.mem k.pxCurrentTCB ∧
      ∀ τ', m'.mem (k.tcb τ') = m.mem (k.tcb τ') := by
  have hreads := calls.errno_reads h.called
  let m₁ := calls.errno m
  let m₂ := (m₁.set .r3 c.errno).store k.errno c.errno
  have h₁ : k.Handling τ saved c m₁ := h.call hreads.toAbi
  have hm₂ : m₁.execAll [.ldw .r3 116 .sp, .stw .r3 0 .r2] = m₂ :=
    restoreErrno_eq h₁.own (calls.errno_returns h.called)
  have hset : k.Handling τ saved c (m₁.set .r3 c.errno) :=
    h₁.regs rfl (m₁.set_of_ne _ (by decide))
  refine ⟨m₂, ?_, hset.store (.inr (.inr rfl)) (k.errno_not_stack τ), ?_, ?_, ?_, fun τ' => ?_⟩
  · unfold Calls.restoreContext
    simp only
    rw [hm₂]
  · exact hreads.reg .sp (by decide)
  · exact Machine.store_self ..
  · rw [Machine.store_of_ne _ _ k.pxCurrentTCB_ne_errno, Machine.set_mem, hreads.pxCurrentTCB]
  · rw [Machine.store_of_ne _ _ (k.tcb_ne_errno τ'), Machine.set_mem, hreads.top]

theorem restoreContext_shows (h : k.Handling τ saved c m) :
    k.Shows (calls.restoreContext m) c := by
  obtain ⟨m₂, hrun, h₂, -, herrno, -, -⟩ := calls.restoreErrno_spec h
  have hrestored := restoreRegs_spec h₂.own
  rw [hrun]
  refine ⟨hrestored.reg, hrestored.status, ?_, hrestored.pc⟩
  rw [hrestored.mem]
  exact herrno

theorem restoreContext_spec (h : k.Handling τ saved c m)
    (hcurrent : m.mem k.pxCurrentTCB = k.tcb τ) :
    k.Runs τ saved (calls.restoreContext m) ∧ k.Shows (calls.restoreContext m) c := by
  refine ⟨?_, calls.restoreContext_shows h⟩
  obtain ⟨m₂, hrun, h₂, -, -, hcurrent₂, -⟩ := calls.restoreErrno_spec h
  have hrestored := restoreRegs_spec h₂.own
  rw [hrun]
  refine ⟨?_, ?_, ?_⟩
  · rw [hrestored.mem]
    exact hcurrent₂.trans hcurrent
  · rw [hrestored.reg .sp (by decide), ← h₂.own.sp, BitVec.add_sub_cancel]
    exact h₂.room
  · rw [hrestored.mem]
    exact h₂.others

theorem restoreSp_spec (h : k.Handling τ saved c m) (htop : m.mem (k.tcb τ) = m.reg .sp)
    (hcurrent : k.HasCurrent m) :
    k.Resumes (Function.update saved (k.tcb τ) c) (calls.restoreSpFromPxCurrentTCB m) := by
  obtain ⟨τ', hτ'⟩ := hcurrent
  have hreads := calls.state_reads h.called
  have hrunning := calls.state_running h.called
  let saved' := Function.update saved (k.tcb τ) c
  let m₁ := calls.xTaskGetSchedulerState m
  have h₁ : k.Handling τ saved c m₁ := h.call hreads.toAbi
  have htop₁ : m₁.mem (k.tcb τ) = m₁.reg .sp := by
    rw [hreads.top, htop]
    exact (hreads.reg .sp (by decide)).symm
  have hcurrent₁ : m₁.mem k.pxCurrentTCB = k.tcb τ' := hreads.pxCurrentTCB.trans hτ'
  have hall : ∀ τ'', k.Suspended m₁.mem τ'' (saved' (k.tcb τ'')) := h₁.suspended htop₁
  let m₂ := m₁.execAll [.movia .et k.pxCurrentTCB, .ldw .et 0 .et, .ldw .sp 0 .et]
  have hm₂ : m₂ = ((m₁.set .et k.pxCurrentTCB).set .et (k.tcb τ')).set .sp
      (m₁.mem (k.tcb τ')) := by
    simp only [m₂, Machine.execAll_cons, Machine.execAll_nil, Machine.exec_ldw_zero]
    simp only [Machine.exec, Machine.set_self, Machine.set_mem, hcurrent₁]
  have hsp₂ : m₂.reg .sp = m₂.mem (k.tcb τ') := by
    rw [hm₂, Machine.set_self]
    rfl
  have hmem₂ : m₂.mem = m₁.mem := by
    rw [hm₂]
    rfl
  have h₂ : k.Handling τ' saved' (saved' (k.tcb τ')) m₂ := by
    refine ⟨?_, ?_, ?_⟩
    · rw [hsp₂, hmem₂]
      exact (hall τ').room
    · rw [hsp₂, hmem₂]
      exact (hall τ').holds
    · rw [hmem₂]
      intro τ'' _
      exact hall τ''
  unfold Calls.restoreSpFromPxCurrentTCB
  simp only [if_neg hrunning]
  exact ⟨τ', calls.restoreContext_spec h₂ (by rw [hmem₂, hcurrent₁])⟩

/-! ### Interrupts and traps -/

theorem hwIrqHandler_spec (h : k.Entered τ saved c m) :
    k.Resumes (Function.update saved (k.tcb τ) c) (calls.hwIrqHandler m) := by
  have habi := calls.irq_abi h.called
  apply calls.restoreSp_spec (h.toHandling.call habi)
  · rw [habi.top, h.top]
    exact (habi.reg .sp (by decide)).symm
  · exact calls.irq_current h.called h.current

theorem callScheduler_spec (h : k.Entered τ saved c m) :
    k.Resumes (Function.update saved (k.tcb τ) { c with pc := c.pc + 4 })
      (calls.callScheduler m) := by
  have hreads := calls.state_reads h.called
  have hrunning := calls.state_running h.called
  let m₁ := calls.xTaskGetSchedulerState m
  have h₁ : k.Handling τ saved c m₁ := h.toHandling.call hreads.toAbi
  have hea₁ : m₁.reg .ea = c.pc := (hreads.reg .ea (by decide)).trans h.ea
  have htop₁ : m₁.mem (k.tcb τ) = m₁.reg .sp := by
    rw [hreads.top, h.top]
    exact (hreads.reg .sp (by decide)).symm
  -- The slot of the next instruction gets the address after the trap.
  let m₂ := m₁.execAll [.addi .ea .ea 4, .stw .ea 72 .sp]
  have hm₂ : m₂ = (m₁.set .ea (c.pc + 4)).store (m₁.reg .sp + 72) (c.pc + 4) := by
    simp only [m₂, Machine.execAll_cons, Machine.execAll_nil, Machine.exec, hea₁]
    rw [Machine.set_self, Machine.set_of_ne _ _ (by decide)]
  have hset : k.Handling τ saved c (m₁.set .ea (c.pc + 4)) :=
    h₁.regs rfl (m₁.set_of_ne _ (by decide))
  have h₂ : k.Handling τ saved { c with pc := c.pc + 4 } m₂ := by
    rw [hm₂]
    exact hset.slot (by decide) (h₁.own.store_pc _)
  have htop₂ : m₂.mem (k.tcb τ) = m₂.reg .sp := by
    rw [hm₂, Machine.store_of_ne _ _ (h₁.not_slot (by decide) (k.tcb_not_stack τ τ))]
    exact htop₁
  have hcurrent₂ : k.HasCurrent m₂ := by
    obtain ⟨τ', hτ'⟩ := h.current
    refine ⟨τ', ?_⟩
    rw [hm₂, Machine.store_of_ne _ _ (h₁.not_slot (by decide) (k.pxCurrentTCB_not_stack τ))]
    exact hreads.pxCurrentTCB.trans hτ'
  have habi := calls.switch_abi h₂.called
  unfold Calls.callScheduler
  simp only [if_neg hrunning]
  apply calls.restoreSp_spec (h₂.call habi)
  · rw [habi.top]
    exact htop₂.trans (habi.reg .sp (by decide)).symm
  · exact calls.switch_current h₂.called hcurrent₂

theorem softExceptions_spec (h : k.Entered τ saved c m) (htrap : m.mem c.pc = trapCode) :
    k.Resumes (Function.update saved (k.tcb τ) { c with pc := c.pc + 4 })
      (calls.softExceptions m) := by
  rw [calls.softExceptions_exits, h.ea, if_pos htrap]
  exact calls.callScheduler_spec (h.scratch (decoded_scratch m))

theorem hwIrqTest_spec (ipending : Word) (h : k.Entered τ saved c m)
    (htrap : ¬ c.Interrupted ipending → m.mem c.pc = trapCode) :
    k.Resumes (Function.update saved (k.tcb τ) (c.resumed ipending))
      (calls.hwIrqTest ipending m) := by
  have hscratch := irqTested_scratch ipending m
  rw [calls.hwIrqTest_exits ipending h.estatus]
  unfold Context.resumed
  split
  · exact calls.hwIrqHandler_spec (h.scratch hscratch)
  · next hirq =>
    refine calls.softExceptions_spec (h.scratch hscratch) ?_
    rw [hscratch.mem]
    exact htrap hirq

theorem saveSp_entered (h : k.Handling τ saved c m)
    (hcurrent : m.mem k.pxCurrentTCB = k.tcb τ) (hea : m.reg .ea = c.pc)
    (hestatus : m.estatus = c.status) {m₂ : Machine}
    (hm₂ : m₂ = m.execAll [.movia .et k.pxCurrentTCB, .ldw .et 0 .et, .stw .sp 0 .et]) :
    k.Entered τ saved c m₂ ∧ ∀ a, k.text a → m₂.mem a = m.mem a := by
  let m₀ := (m.set .et k.pxCurrentTCB).set .et (k.tcb τ)
  have hstore : m₂ = m₀.store (k.tcb τ) (m.reg .sp) := by
    simp only [hm₂, Machine.execAll_cons, Machine.execAll_nil, Machine.exec_ldw_zero,
      Machine.exec_stw_zero]
    simp only [Machine.exec, Machine.set_self, Machine.set_mem, hcurrent]
    rfl
  have h₂ : k.Handling τ saved c m₂ := by
    rw [hstore]
    have hset : k.Handling τ saved c m₀ := h.regs rfl rfl
    exact hset.store (.inr (.inl rfl)) (k.tcb_not_stack τ τ)
  refine ⟨⟨h₂, ?_, ⟨τ, ?_⟩, ?_, ?_⟩, fun a ha => ?_⟩
  · rw [hstore, Machine.store_self]
    rfl
  · rw [hstore, Machine.store_of_ne _ _ (k.tcb_ne_pxCurrentTCB τ).symm]
    exact hcurrent
  · rw [hstore]
    exact hea
  · rw [hstore]
    exact hestatus
  · rw [hstore, Machine.store_of_ne _ _ (k.text_ne_tcb ha τ)]
    rfl

/-! ### The registers saved -/

theorem saveRegs_mem (h : k.room τ (m.reg .sp - 120)) {a : Word} (ha : ¬ k.stack τ a) :
    (m.takeException.execAll saveRegs).mem a = m.mem a := by
  apply (saveRegs_spec m.takeException).other
  rw [Machine.takeException_reg _ (by decide)]
  intro hin
  exact ha (k.room_stack h hin)

theorem saveRegs_handling (h : k.Runs τ saved m) :
    ∃ e, k.Handling τ saved { k.context m with errno := e }
      (m.takeException.execAll saveRegs) := by
  obtain ⟨e, hholds⟩ := saveRegs_holds k m
  refine ⟨e, ?_, hholds, fun τ' hne => ?_⟩
  · rw [saveRegs_sp]
    exact h.room
  · apply (h.others τ' hne).of_own hne
    intro a ha
    exact saveRegs_mem h.room fun hstack => ha (.inl hstack)

theorem saveErrno_spec {e : Word} (h : k.Handling τ saved { c with errno := e } m)
    (herrno : m.mem k.errno = c.errno) :
    ∃ m', (calls.errno m).execAll [.ldw .r3 0 .r2, .stw .r3 116 .sp] = m' ∧
      k.Handling τ saved c m' ∧ m'.reg .ea = m.reg .ea ∧ m'.estatus = m.estatus ∧
      ∀ a, ¬ k.stack τ a → m'.mem a = (calls.errno m).mem a := by
  have hreads := calls.errno_reads h.called
  have h₁ := h.call hreads.toAbi
  have hset : k.Handling τ saved { c with errno := e } ((calls.errno m).set .r3 c.errno) :=
    h₁.regs rfl (Machine.set_of_ne _ _ (by decide))
  refine ⟨((calls.errno m).set .r3 c.errno).store
    (((calls.errno m).set .r3 c.errno).reg .sp + 116) c.errno, ?_, ?_, ?_, ?_, fun a ha => ?_⟩
  · exact saveErrno_eq (calls.errno_returns h.called) (hreads.errno.trans herrno)
  · exact hset.slot (by decide) (hset.own.store_errno c.errno)
  · exact hreads.reg .ea (by decide)
  · exact hreads.estatus
  · exact Machine.store_of_ne _ _ (hset.not_slot (by decide) ha)

theorem atTest_entered (h : k.Runs τ saved m) :
    k.Entered τ saved (k.context m) (calls.atTest m.takeException) ∧
      ∀ a, k.text a → (calls.atTest m.takeException).mem a = m.mem a := by
  obtain ⟨e, h₁⟩ := saveRegs_handling h
  have herrno := saveRegs_mem h.room (k.errno_not_stack τ)
  have herrnoReads := calls.errno_reads h₁.called
  obtain ⟨m₂, hm₂, h₂, hea, hestatus, hmem⟩ := calls.saveErrno_spec h₁ herrno
  have hreads := calls.state_reads h₂.called
  have hrunning := calls.state_running h₂.called
  have hcurrent : m₂.mem k.pxCurrentTCB = k.tcb τ := by
    have hoff := k.pxCurrentTCB_not_stack τ
    rw [hmem _ hoff, herrnoReads.pxCurrentTCB, saveRegs_mem h.room hoff]
    exact h.current
  unfold Calls.atTest
  simp only [hm₂, if_neg hrunning]
  obtain ⟨hentered, htext⟩ := saveSp_entered (h₂.call hreads.toAbi)
    (hreads.pxCurrentTCB.trans hcurrent)
    ((hreads.reg .ea (by decide)).trans (hea.trans (saveRegs_ea m)))
    (hreads.estatus.trans (hestatus.trans (saveRegs_spec m.takeException).estatus)) rfl
  refine ⟨hentered, fun a ha => ?_⟩
  have hoff : ¬ k.stack τ a := k.text_not_stack ha
  rw [htext a ha, hreads.text a ha, hmem _ hoff, herrnoReads.text _ ha, saveRegs_mem h.room hoff]

theorem saveContext_spec (ipending : Word) (h : k.Runs τ saved m)
    (htrap : ¬ (k.context m).Interrupted ipending → m.mem m.pc = trapCode ∧ k.text m.pc) :
    k.Resumes (Function.update saved (k.tcb τ) ((k.context m).resumed ipending))
      (calls.saveContext ipending m.takeException) := by
  obtain ⟨hentered, htext⟩ := calls.atTest_entered h
  rw [calls.saveContext_eq]
  refine calls.hwIrqTest_spec ipending hentered fun hnot => ?_
  obtain ⟨hcode, hpc⟩ := htrap hnot
  exact (htext m.pc hpc).trans hcode

end Calls

/-! ## Runs -/

/-- What a task keeps while it runs. -/
structure Layout.TaskRuns (k : Layout Task) (τ : Task) (m m' : Machine) : Prop where
  current : m'.mem k.pxCurrentTCB = m.mem k.pxCurrentTCB
  room : k.room τ (m'.reg .sp - 120)
  top : ∀ τ' ≠ τ, m'.mem (k.tcb τ') = m.mem (k.tcb τ')
  context : ∀ τ' ≠ τ, ∀ a, InContext (m.mem (k.tcb τ')) a → m'.mem a = m.mem a

namespace Switch

/-- What the running task does up to the next exception. -/
structure TaskCode (k : Layout Task) where
  run : Machine → Machine
  keeps : ∀ {τ m}, m.mem k.pxCurrentTCB = k.tcb τ → k.room τ (m.reg .sp - 120) →
    (∀ τ' ≠ τ, k.room τ' (m.mem (k.tcb τ'))) → k.TaskRuns τ m (run m)

/-- The machine, and what the task of each TCB had when it was last suspended. The code does
not read that. -/
structure System where
  machine : Machine
  saved : Word → Context

inductive Action (k : Layout Task)
  | runs (code : TaskCode k)
  | interrupt (calls : Calls k) (ipending : Word)
  | trap (calls : Calls k) (ipending : Word)

def Action.isException : Action k → Bool
  | .runs _ => false
  | .interrupt .. => true
  | .trap .. => true

/-- The running task is suspended, to go on at `pc`, and an exception is handled. -/
def System.exception (s : System) (k : Layout Task) (calls : Calls k) (ipending pc : Word) :
    System where
  machine := calls.saveContext ipending s.machine.takeException
  saved := Function.update s.saved (s.machine.mem k.pxCurrentTCB)
    { reg := s.machine.reg, status := s.machine.status, errno := s.machine.mem k.errno, pc := pc }

/-- An interrupt stays pending until its handler has run. -/
def step (k : Layout Task) (s : System) : Action k → Option System
  | .runs code => some { s with machine := code.run s.machine }
  | .interrupt calls ipending =>
    if s.machine.pie ∧ ipending ≠ 0 then
      some (s.exception k calls ipending s.machine.pc)
    else
      none
  | .trap calls ipending =>
    if s.machine.mem s.machine.pc = trapCode ∧ k.text s.machine.pc then
      -- An interrupt that comes in with the trap goes first.
      if s.machine.pie ∧ ipending ≠ 0 then
        some (s.exception k calls ipending s.machine.pc)
      else
        some (s.exception k calls ipending (s.machine.pc + 4))
    else
      none

theorem interrupted_iff {ipending : Word} :
    (k.context m).Interrupted ipending ↔ m.pie ∧ ipending ≠ 0 := by
  simp [Machine.pie, Context.Interrupted, Layout.context]

theorem exception_resumes {s : System} (h : k.Runs τ s.saved s.machine) (calls : Calls k)
    {ipending pc : Word}
    (htrap : ¬ (k.context s.machine).Interrupted ipending →
      s.machine.mem s.machine.pc = trapCode ∧ k.text s.machine.pc)
    (hpc : (k.context s.machine).resumed ipending = { k.context s.machine with pc := pc }) :
    k.Resumes (s.exception k calls ipending pc).saved
      (s.exception k calls ipending pc).machine := by
  have hresumes := calls.saveContext_spec ipending h htrap
  rw [hpc, ← h.current] at hresumes
  exact hresumes

/-- The task that runs after an exception has what it had when it was last suspended. -/
def Transparent (k : Layout Task) (_ : System) (a : Action k) (t : System) : Prop :=
  a.isException →
    ∃ τ, t.machine.mem k.pxCurrentTCB = k.tcb τ ∧ k.Shows t.machine (t.saved (k.tcb τ))

def SomeRuns (k : Layout Task) (s : System) : Prop :=
  ∃ τ, k.Runs τ s.saved s.machine

theorem transparent_of_resumes {s t : System} {a : Action k}
    (h : k.Resumes t.saved t.machine) : Transparent k s a t ∧ SomeRuns k t := by
  obtain ⟨τ, hruns, hshows⟩ := h
  exact ⟨fun _ => ⟨τ, hruns.current, hshows⟩, τ, hruns⟩

theorem someRuns_step {s t : System} {a : Action k} (h : SomeRuns k s)
    (hstep : step k s a = some t) : Transparent k s a t ∧ SomeRuns k t := by
  obtain ⟨τ, h⟩ := h
  cases a with
  | runs code =>
    cases hstep
    have hkeeps := code.keeps h.current h.room fun τ' hne => (h.others τ' hne).room
    refine ⟨nofun, τ, hkeeps.current.trans h.current, hkeeps.room, fun τ' hne => ?_⟩
    exact (h.others τ' hne).congr (hkeeps.top τ' hne) (hkeeps.context τ' hne)
  | interrupt calls ipending =>
    simp only [step] at hstep
    split at hstep
    · next hirq =>
      cases hstep
      have hirq := (interrupted_iff (k := k)).mpr hirq
      exact transparent_of_resumes (exception_resumes h calls (absurd hirq) (if_pos hirq))
    · cases hstep
  | trap calls ipending =>
    simp only [step] at hstep
    split at hstep
    · next hcode =>
      split at hstep
      · next hirq =>
        cases hstep
        have hirq := (interrupted_iff (k := k)).mpr hirq
        exact transparent_of_resumes (exception_resumes h calls (absurd hirq) (if_pos hirq))
      · next hnot =>
        cases hstep
        have hnot := mt (interrupted_iff (k := k)).mp hnot
        exact transparent_of_resumes (exception_resumes h calls (fun _ => hcode) (if_neg hnot))
    · cases hstep

/-- Context switches are transparent, whatever exceptions come in and whatever the tasks and
the C functions do. -/
theorem tasks_resume_as_suspended (k : Layout Task) (s : System) (τ : Task)
    (h : k.Runs τ s.saved s.machine) (as : List (Action k)) :
    EveryStep (step k) (Transparent k) s as :=
  everyStep_of_invariant (I := SomeRuns k) (fun _ _ _ hs hstep => someRuns_step hs hstep) as
    ⟨τ, h⟩

/-! ### Two tasks -/

/-- The upper half of an address on a stack is the number of the task, plus one. -/
def twoTasks : Layout (Fin 2) where
  stack τ a := a.toNat / 0x10000 = τ.val + 1
  room τ b := b.toNat / 0x10000 = τ.val + 1 ∧ b.toNat % 0x10000 < 0x8000
  tcb τ := BitVec.ofNat 32 (0x100 + 4 * τ.val)
  pxCurrentTCB := 0x200
  errno := 0x204
  text a := decide (a < 0x100)
  room_stack := by
    intro τ b a hroom ha
    unfold InContext at ha
    bv_omega
  stacks_apart := by
    intro τ τ' a h h'
    omega
  tcb_not_stack := by decide
  pxCurrentTCB_not_stack := by decide
  errno_not_stack := by decide
  text_not_stack := by
    intro τ a ha
    have hlow : a < 0x100 := of_decide_eq_true ha
    bv_omega
  tcb_injective := by
    intro τ τ' h
    have hτ := τ.isLt
    have hτ' := τ'.isLt
    apply Fin.ext
    bv_omega
  tcb_ne_pxCurrentTCB := by decide
  tcb_ne_errno := by decide
  pxCurrentTCB_ne_errno := by decide
  text_ne_tcb := by
    intro a ha τ
    have hlow : a < 0x100 := of_decide_eq_true ha
    have hτ := τ.isLt
    bv_omega

theorem reads_set_r2 {τ : Task} (v : Word) : k.Reads τ m (m.set .r2 v) := by
  have hregs : ∀ r ∈ calleeSaved, r ≠ .r2 := by decide
  exact
    { reg := fun r hr => m.set_of_ne v (hregs r hr)
      estatus := rfl
      frame := fun _ _ => rfl
      context := fun _ _ _ _ => rfl
      top := fun _ => rfl
      text := fun _ _ => rfl
      pxCurrentTCB := rfl
      errno := rfl }

theorem abi_refl {τ : Task} : k.Abi τ m m :=
  ⟨fun _ _ => rfl, rfl, fun _ _ => rfl, fun _ _ _ _ => rfl, fun _ => rfl, fun _ _ => rfl⟩

/-- The task that did not run is next. -/
def switchTasks (m : Machine) : Machine :=
  m.store twoTasks.pxCurrentTCB
    (if m.mem twoTasks.pxCurrentTCB = 0x100 then 0x104 else 0x100)

theorem abi_switchTasks {τ : Fin 2} (h : twoTasks.Called τ m) :
    twoTasks.Abi τ m (switchTasks m) := by
  have hoff : ∀ τ b a, twoTasks.room τ b → InContext b a → a ≠ twoTasks.pxCurrentTCB := by
    rintro τ b a hroom ha rfl
    exact twoTasks.pxCurrentTCB_not_stack τ (twoTasks.room_stack hroom ha)
  refine ⟨fun _ _ => rfl, rfl, fun a ha => ?_, fun τ' hne a ha => ?_, fun τ' => ?_,
    fun a ha => ?_⟩
  · exact m.store_of_ne _ (hoff τ _ a h.room ha)
  · exact m.store_of_ne _ (hoff τ' _ a (h.others τ' hne) ha)
  · exact m.store_of_ne _ (twoTasks.tcb_ne_pxCurrentTCB τ')
  · apply m.store_of_ne
    rintro rfl
    exact absurd ha (by decide)

/-- No device has an interrupt handler. -/
def twoCalls : Calls twoTasks where
  errno m := m.set .r2 twoTasks.errno
  xTaskGetSchedulerState m := m.set .r2 1
  altIrqHandler m := m
  altInstructionExceptionEntry m := m
  vTaskSwitchContext m := switchTasks m
  errno_reads _ := reads_set_r2 _
  errno_returns _ := Machine.set_self ..
  state_reads _ := reads_set_r2 _
  state_running {_ m} _ := by
    rw [Machine.set_self]
    decide
  irq_abi _ := abi_refl
  irq_current _ h := h
  instruction_abi _ := abi_refl
  switch_abi h := abi_switchTasks h
  switch_current {_ m} _ _ := by
    unfold Layout.HasCurrent switchTasks
    rw [Machine.store_self]
    split
    · exact ⟨1, rfl⟩
    · exact ⟨0, rfl⟩

/-- A task uses `r16` and comes to its trap. -/
def usesR16 : TaskCode twoTasks where
  run m := { m.set .r16 0x55 with pc := 0x80 }
  keeps := by
    intro τ m _ hroom _
    refine ⟨rfl, ?_, fun _ _ => rfl, fun _ _ _ _ => rfl⟩
    change twoTasks.room τ ((m.set .r16 0x55).reg .sp - 120)
    rw [Machine.set_of_ne _ _ (by decide)]
    exact hroom

/-- Task 0 runs, with `r16` at 7, and task 1 has a context on its stack. -/
def twoTasksStart : System where
  machine :=
    { reg := fun r => match r with
        | .sp => 0x14000
        | .r16 => 7
        | _ => 0
      pc := 0x40, status := 1, estatus := 0, ipending := 0
      mem := fun a =>
        if a = 0x40 ∨ a = 0x80 then trapCode
        else if a = 0x200 then 0x100
        else if a = 0x104 then 0x24000
        else if a = 0x24044 then 1
        else 0 }
  saved _ :=
    { reg := fun r => match r with
        | .sp => 0x24078
        | _ => 0
      status := 1, errno := 0, pc := 0 }

theorem twoTasksStart_runs : twoTasks.Runs 0 twoTasksStart.saved twoTasksStart.machine := by
  refine ⟨by decide, by change _ ∧ _; decide, fun τ' hne => ?_⟩
  have h1 : τ' = 1 := by omega
  subst h1
  refine ⟨by change _ ∧ _; decide, ⟨?_, ?_, ?_, ?_, ?_⟩⟩ <;> decide

/-- Task 0 yields. Task 1 uses `r16`, is interrupted, comes to its trap together with an
interrupt, and yields. Task 0 goes on after its trap, with its own `r16`. -/
theorem tasks_resume_as_suspended_two :
    ((run (step twoTasks) twoTasksStart [.trap twoCalls 0, .runs usesR16,
      .interrupt twoCalls 1, .trap twoCalls 1, .trap twoCalls 0]).map fun t =>
        (t.machine.pc, t.machine.reg .r16, t.machine.reg .sp, t.machine.status)) =
          some (0x44, 7, 0x14000, 1) ∧
    EveryStep (step twoTasks) (Transparent twoTasks) twoTasksStart
      [.trap twoCalls 0, .runs usesR16, .interrupt twoCalls 1, .trap twoCalls 1,
        .trap twoCalls 0] := by
  refine ⟨?_, tasks_resume_as_suspended twoTasks twoTasksStart 0 twoTasksStart_runs _⟩
  decide +kernel

end Switch

end FreeLwip.Port
