import Mathlib.Data.List.Induction
import FreeLwip.Port.Switch

/-!
# Traps and other exceptions (`port_asm.S`, `alt_instruction_exception_entry.c`)

`save_context` saves the address of the instruction that the exception came from. Each way out of
the handler keeps it, or moves it on to the next instruction.
-/

namespace FreeLwip.Port

open Nios2

variable {Task : Type*} {k : Layout Task} {τ : Task} {c : Context} {m m' : Machine}
  {saved : Word → Context}

/-! ## The handler of instruction exceptions -/

/-- `NIOS2_EXCEPTION_RETURN_REISSUE_INST`. -/
def returnReissueInst : Word := 0

/-- `NIOS2_EXCEPTION_RETURN_SKIP_INST`. -/
def returnSkipInst : Word := 1

/-- The field of the EXCEPTION register, with its mask and offset. -/
def exceptionCause (exception : Word) : Word := (exception &&& 0x7c) >>> 2

/-- `alt_instruction_exception_entry`, when a handler is registered: the handler gets the cause,
the address of the instruction and the bad address. -/
def altInstructionExceptionEntry (handler : Word → Word → Word → Machine → Machine)
    (exception badaddr : Word) (m : Machine) : Machine :=
  handler (exceptionCause exception) (m.reg .r4) badaddr m

/-- A C function that can be registered. -/
structure InstructionHandler (k : Layout Task) where
  run : Word → Word → Word → Machine → Machine
  abi : ∀ {τ m} (cause pc badaddr : Word), k.Called τ m → k.Abi τ m (run cause pc badaddr m)

def Calls.withHandler (calls : Calls k) (handler : InstructionHandler k)
    (exception badaddr : Word) : Calls k :=
  { calls with
    altInstructionExceptionEntry := Port.altInstructionExceptionEntry handler.run exception badaddr
    instruction_abi := fun h => handler.abi _ _ _ h }

/-- The machine that `alt_instruction_exception_entry` is called with, for an exception of `m`. -/
def Calls.atInstructionException (calls : Calls k) (ipending : Word) (m : Machine) : Machine :=
  (decoded (irqTested ipending (calls.atTest m.takeException))).execAll [.mov .r4 .ea]

/-- What the handler returns for an exception of `m`. -/
def InstructionHandler.result (handler : InstructionHandler k) (calls : Calls k)
    (exception badaddr ipending : Word) (m : Machine) : Word :=
  (handler.run (exceptionCause exception) m.pc badaddr
    (calls.atInstructionException ipending m)).reg .r2

theorem mov_scratch (m : Machine) : Scratch m (m.execAll [.mov .r4 .ea]) :=
  ⟨rfl, rfl, rfl, rfl⟩

/-! ## Before the scheduler is started -/

/-- The stack of `main`, which is no task's. -/
structure MainStack (k : Layout Task) where
  room : Word → Prop
  errno_apart : ∀ {b}, room b → ¬ InContext b k.errno
  text_apart : ∀ {b a}, room b → k.text a → ¬ InContext b a
  errno_not_text : k.text k.errno = false

/-- What a C function keeps when it is called on the stack of `main`. -/
structure MainStack.Abi (m m' : Machine) (k : Layout Task) : Prop where
  reg : ∀ r ∈ calleeSaved, m'.reg r = m.reg r
  estatus : m'.estatus = m.estatus
  frame : ∀ a, InContext (m.reg .sp) a → m'.mem a = m.mem a
  text : ∀ a, k.text a → m'.mem a = m.mem a

/-- The C functions of the exception path, as `main` calls them: the scheduler is not started. -/
structure MainStack.Provides (main : MainStack k) (calls : Calls k) : Prop where
  errno_abi : ∀ {m}, main.room (m.reg .sp) → MainStack.Abi m (calls.errno m) k
  errno_reads : ∀ {m}, main.room (m.reg .sp) → (calls.errno m).mem k.errno = m.mem k.errno
  errno_returns : ∀ {m}, main.room (m.reg .sp) → (calls.errno m).reg .r2 = k.errno
  state_abi : ∀ {m}, main.room (m.reg .sp) → MainStack.Abi m (calls.xTaskGetSchedulerState m) k
  state_notStarted : ∀ {m}, main.room (m.reg .sp) →
    (calls.xTaskGetSchedulerState m).reg .r2 = 0
  irq_abi : ∀ {m}, main.room (m.reg .sp) → MainStack.Abi m (calls.altIrqHandler m) k
  instruction_abi : ∀ {m}, main.room (m.reg .sp) →
    MainStack.Abi m (calls.altInstructionExceptionEntry m) k

/-! ## Who has the exception, and where it goes on -/

inductive Runner (Task : Type*)
  | main
  | task (τ : Task)

def Layout.Executes (k : Layout Task) (main : MainStack k) (saved : Word → Context)
    (m : Machine) : Runner Task → Prop
  | .main => main.room (m.reg .sp - 120)
  | .task τ => k.Runs τ saved m

/-- At once, or when the task is switched in again. -/
def Layout.GoesOn (k : Layout Task) (m : Machine) (c : Context) : Runner Task → Prop
  | .main => k.Shows m c
  | .task τ => k.Shows m c ∨ (k.Suspended m.mem τ c ∧ m.mem k.pxCurrentTCB ≠ k.tcb τ)

/-- Where a context goes on that has had an exception at the instruction `inst`. An interrupt
that came with it goes first, and the instruction is issued again. -/
def Context.rightPc (c : Context) (ipending inst result : Word) : Word :=
  if c.Interrupted ipending then c.pc
  else if inst = trapCode then c.pc + 4
  else if result = returnReissueInst then c.pc
  else c.pc + 4

/-! ## `main` -/

/-- The context of `main` is on its stack; `ea` and `estatus` still are as there. -/
structure MainStack.Entered (main : MainStack k) (c : Context) (m : Machine) : Prop where
  room : main.room (m.reg .sp)
  own : Holds m.mem (m.reg .sp) c
  ea : m.reg .ea = c.pc
  estatus : m.estatus = c.status

namespace MainStack

variable {main : MainStack k} {calls : Calls k}

theorem Entered.call (h : main.Entered c m) (habi : MainStack.Abi m m' k) :
    main.Entered c m' := by
  have hsp : m'.reg .sp = m.reg .sp := habi.reg .sp (by decide)
  refine ⟨?_, ?_, (habi.reg .ea (by decide)).trans h.ea, habi.estatus.trans h.estatus⟩
  · rw [hsp]
    exact h.room
  · rw [hsp]
    exact h.own.congr habi.frame

theorem Entered.scratch (h : main.Entered c m) (hm : Scratch m m') : main.Entered c m' := by
  refine ⟨?_, ?_, hm.ea.trans h.ea, hm.estatus.trans h.estatus⟩
  · rw [hm.sp]
    exact h.room
  · rw [hm.mem, hm.sp]
    exact h.own

/-- What `main` gets back, and the code is still there. -/
structure Restored (main : MainStack k) (m m' : Machine) (c : Context) : Prop where
  shows : k.Shows m' c
  text : ∀ a, k.text a → m'.mem a = m.mem a

theorem restoreContext_spec (hcalls : main.Provides calls) (h : main.Entered c m) :
    main.Restored m (calls.restoreContext m) c := by
  have habi := hcalls.errno_abi h.room
  have h₁ := h.call habi
  let m₂ := ((calls.errno m).set .r3 c.errno).store k.errno c.errno
  have hm₂ : (calls.errno m).execAll [.ldw .r3 116 .sp, .stw .r3 0 .r2] = m₂ :=
    restoreErrno_eq h₁.own (hcalls.errno_returns h.room)
  have hown₂ : Holds m₂.mem (m₂.reg .sp) c := by
    apply h₁.own.congr
    intro a ha
    apply Machine.store_of_ne
    rintro rfl
    exact main.errno_apart h₁.room ha
  have hrestored := restoreRegs_spec hown₂
  have hrun : calls.restoreContext m = (m₂.execAll restoreRegs).eret := by
    unfold Calls.restoreContext
    simp only [hm₂]
  rw [hrun]
  refine ⟨⟨hrestored.reg, hrestored.status, ?_, hrestored.pc⟩, fun a ha => ?_⟩
  · rw [hrestored.mem]
    exact Machine.store_self ..
  · have hne : a ≠ k.errno := by
      rintro rfl
      rw [main.errno_not_text] at ha
      cases ha
    rw [hrestored.mem]
    exact (Machine.store_of_ne _ _ hne).trans (habi.text a ha)

theorem Restored.after {m₁ : Machine} (h : main.Restored m₁ m' c)
    (htext : ∀ a, k.text a → m₁.mem a = m.mem a) : main.Restored m m' c :=
  ⟨h.shows, fun a ha => (h.text a ha).trans (htext a ha)⟩

theorem restoreSp_spec (hcalls : main.Provides calls) (h : main.Entered c m) :
    main.Restored m (calls.restoreSpFromPxCurrentTCB m) c := by
  have habi := hcalls.state_abi h.room
  unfold Calls.restoreSpFromPxCurrentTCB
  simp only [if_pos (hcalls.state_notStarted h.room)]
  exact (restoreContext_spec hcalls (h.call habi)).after habi.text

theorem callScheduler_spec (hcalls : main.Provides calls) (h : main.Entered c m) :
    main.Restored m (calls.callScheduler m) c := by
  have habi := hcalls.state_abi h.room
  unfold Calls.callScheduler
  simp only [if_pos (hcalls.state_notStarted h.room)]
  exact (restoreContext_spec hcalls (h.call habi)).after habi.text

theorem hwIrqHandler_spec (hcalls : main.Provides calls) (h : main.Entered c m) :
    main.Restored m (calls.hwIrqHandler m) c := by
  have habi := hcalls.irq_abi h.room
  exact (restoreSp_spec hcalls (h.call habi)).after habi.text

theorem softExceptions_spec (hcalls : main.Provides calls) (h : main.Entered c m) :
    main.Restored m (calls.softExceptions m) c := by
  have hdecoded := decoded_scratch m
  have htext : ∀ a, k.text a → (decoded m).mem a = m.mem a := by
    intro a _
    rw [hdecoded.mem]
  rw [calls.softExceptions_exits]
  split
  · exact (callScheduler_spec hcalls (h.scratch hdecoded)).after htext
  · have hmov : main.Entered c ((decoded m).execAll [.mov .r4 .ea]) :=
      (h.scratch hdecoded).scratch (mov_scratch _)
    have habi := hcalls.instruction_abi hmov.room
    exact ((restoreContext_spec hcalls (hmov.call habi)).after habi.text).after htext

omit main in
theorem saveRegs_other {a : Word} (ha : ¬ InContext (m.reg .sp - 120) a) :
    (m.takeException.execAll saveRegs).mem a = m.mem a := by
  apply (saveRegs_spec m.takeException).other
  rw [Machine.takeException_reg _ (by decide)]
  exact ha

theorem saveErrno_spec {e : Word} (hcalls : main.Provides calls)
    (h : main.Entered { c with errno := e } m) (herrno : m.mem k.errno = c.errno) :
    ∃ m', (calls.errno m).execAll [.ldw .r3 0 .r2, .stw .r3 116 .sp] = m' ∧
      main.Entered c m' ∧ ∀ a, k.text a → m'.mem a = m.mem a := by
  have habi := hcalls.errno_abi h.room
  have hset : main.Entered { c with errno := e } ((calls.errno m).set .r3 c.errno) :=
    (h.call habi).scratch ⟨rfl, rfl, rfl, rfl⟩
  refine ⟨_, saveErrno_eq (hcalls.errno_returns h.room)
    ((hcalls.errno_reads h.room).trans herrno), ?_, fun a ha => ?_⟩
  · exact ⟨hset.room, hset.own.store_errno c.errno, hset.ea, hset.estatus⟩
  · have hslot : a ≠ ((calls.errno m).set .r3 c.errno).reg .sp + 116 := by
      rintro rfl
      exact main.text_apart hset.room ha (inContext_add (by decide))
    exact (Machine.store_of_ne _ _ hslot).trans (habi.text a ha)

theorem saveRegs_entered (h : main.room (m.reg .sp - 120)) :
    ∃ e, main.Entered { k.context m with errno := e } (m.takeException.execAll saveRegs) := by
  obtain ⟨e, hholds⟩ := saveRegs_holds k m
  refine ⟨e, ?_, hholds, saveRegs_ea m, (saveRegs_spec m.takeException).estatus⟩
  rw [saveRegs_sp]
  exact h

theorem atTest_entered (hcalls : main.Provides calls) (h : main.room (m.reg .sp - 120)) :
    main.Entered (k.context m) (calls.atTest m.takeException) ∧
      ∀ a, k.text a → (calls.atTest m.takeException).mem a = m.mem a := by
  obtain ⟨e, h₁⟩ := saveRegs_entered h
  have herrno := saveRegs_other (main.errno_apart h)
  obtain ⟨m₂, hm₂, h₂, htext⟩ := saveErrno_spec hcalls h₁ herrno
  have habi := hcalls.state_abi h₂.room
  unfold Calls.atTest
  simp only [hm₂, if_pos (hcalls.state_notStarted h₂.room)]
  refine ⟨h₂.call habi, fun a ha => ?_⟩
  rw [habi.text a ha, htext a ha, saveRegs_other (main.text_apart h ha)]

theorem saveContext_spec (hcalls : main.Provides calls) (h : main.room (m.reg .sp - 120))
    (ipending : Word) :
    main.Restored m (calls.saveContext ipending m.takeException) (k.context m) := by
  obtain ⟨hentered, htext⟩ := atTest_entered hcalls h
  have hscratch := irqTested_scratch ipending (calls.atTest m.takeException)
  have htested := hentered.scratch hscratch
  rw [calls.saveContext_eq, calls.hwIrqTest_exits ipending hentered.estatus]
  have hrestored : main.Restored (irqTested ipending (calls.atTest m.takeException))
      (if (k.context m).Interrupted ipending then
        calls.hwIrqHandler (irqTested ipending (calls.atTest m.takeException))
      else calls.softExceptions (irqTested ipending (calls.atTest m.takeException)))
      (k.context m) := by
    split
    · exact hwIrqHandler_spec hcalls htested
    · exact softExceptions_spec hcalls htested
  apply hrestored.after
  intro a ha
  rw [hscratch.mem]
  exact htext a ha

end MainStack

/-! ## Tasks -/

section Tasks

variable (calls : Calls k)

theorem Calls.restoreContext_frame (h : k.Handling τ saved c m)
    (htop : m.mem (k.tcb τ) = m.reg .sp) {c' : Context}
    (h' : k.Suspended (calls.restoreContext m).mem τ c') : c'.pc = c.pc := by
  obtain ⟨m₂, hrun, h₂, hsp, -, -, htcb⟩ := calls.restoreErrno_spec h
  have hholds := h'.holds
  rw [hrun, (restoreRegs_spec h₂.own).mem, htcb τ, htop, ← hsp] at hholds
  exact hholds.pc.symm.trans h₂.own.pc

theorem goesOn_of_resumes (h : k.Resumes (Function.update saved (k.tcb τ) c) m) :
    k.GoesOn m c (.task τ) := by
  obtain ⟨τ', hruns, hshows⟩ := h
  by_cases heq : τ = τ'
  · rw [← heq, Function.update_self] at hshows
    exact .inl hshows
  · have hsuspended := hruns.others τ heq
    rw [Function.update_self] at hsuspended
    refine .inr ⟨hsuspended, ?_⟩
    rw [hruns.current]
    exact fun htcb => heq (k.tcb_injective htcb.symm)

theorem softExceptions_keeps (h : k.Entered τ saved c m) (htrap : m.mem c.pc ≠ trapCode) :
    k.Shows (calls.softExceptions m) c ∧
      ∀ c', k.Suspended (calls.softExceptions m).mem τ c' → c'.pc = c.pc := by
  have hmov : k.Entered τ saved c ((decoded m).execAll [.mov .r4 .ea]) :=
    (h.scratch (decoded_scratch m)).scratch (mov_scratch _)
  have habi := calls.instruction_abi hmov.called
  have hhandling := hmov.toHandling.call habi
  rw [calls.softExceptions_exits, h.ea, if_neg htrap]
  refine ⟨calls.restoreContext_shows hhandling, fun c' h' => ?_⟩
  refine calls.restoreContext_frame hhandling ?_ h'
  rw [habi.top, hmov.top]
  exact (habi.reg .sp (by decide)).symm

end Tasks

/-! ## Where it goes on -/

theorem goesOn_iff_pc {who : Runner Task} {p : Word} (h : k.Shows m c)
    (hframe : ∀ τ c', who = .task τ → k.Suspended m.mem τ c' → c'.pc = c.pc) :
    k.GoesOn m { c with pc := p } who ↔ p = c.pc := by
  constructor
  · intro hgoes
    cases who with
    | main => exact hgoes.pc.symm.trans h.pc
    | task τ =>
      obtain hshows | ⟨hsuspended, -⟩ := hgoes
      · exact hshows.pc.symm.trans h.pc
      · exact hframe τ _ rfl hsuspended
  · rintro rfl
    cases who with
    | main => exact h
    | task τ => exact .inl h

theorem rightPc_eq_pc_iff {ipending inst result : Word} :
    c.rightPc ipending inst result = c.pc ↔
      c.Interrupted ipending ∨ (inst ≠ trapCode ∧ result = returnReissueInst) := by
  have hnext : c.pc + 4 ≠ c.pc := by bv_omega
  unfold Context.rightPc
  split
  · next hirq => exact iff_of_true rfl (.inl hirq)
  · next hirq =>
    split
    · next htrap => exact iff_of_false hnext (by simp [hirq, htrap])
    · next htrap =>
      split
      · next hreissue => exact iff_of_true rfl (.inr ⟨htrap, hreissue⟩)
      · next hreissue => exact iff_of_false hnext (by simp [hirq, hreissue])

theorem main_goesOn_iff {main : MainStack k} {calls : Calls k} (hcalls : main.Provides calls)
    (h : main.room (m.reg .sp - 120)) (ipending inst result : Word) :
    k.GoesOn (calls.saveContext ipending m.takeException)
        { k.context m with pc := (k.context m).rightPc ipending inst result } .main ↔
      (k.context m).Interrupted ipending ∨ (inst ≠ trapCode ∧ result = returnReissueInst) := by
  rw [goesOn_iff_pc (MainStack.saveContext_spec hcalls h ipending).shows
    fun _ _ heq => by cases heq]
  exact rightPc_eq_pc_iff

theorem Layout.Shows.trans {m₁ : Machine} (h : k.Shows m c) (h₁ : k.Shows m₁ (k.context m)) :
    k.Shows m₁ c :=
  ⟨fun r hr => (h₁.reg r hr).trans (h.reg r hr), h₁.status.trans h.status,
    h₁.errno.trans h.errno, h₁.pc.trans h.pc⟩

theorem task_goesOn_iff (calls : Calls k) (h : k.Runs τ saved m) (htext : k.text m.pc)
    (ipending result : Word) :
    k.GoesOn (calls.saveContext ipending m.takeException)
        { k.context m with pc := (k.context m).rightPc ipending (m.mem m.pc) result } (.task τ) ↔
      (k.context m).Interrupted ipending ∨ m.mem m.pc = trapCode ∨
        (m.mem m.pc ≠ trapCode ∧ result = returnReissueInst) := by
  obtain ⟨hentered, hkept⟩ := calls.atTest_entered h
  have hscratch := irqTested_scratch ipending (calls.atTest m.takeException)
  have htested := hentered.scratch hscratch
  have hinst : (irqTested ipending (calls.atTest m.takeException)).mem (k.context m).pc =
      m.mem m.pc := by
    rw [hscratch.mem]
    exact hkept m.pc htext
  rw [calls.saveContext_eq, calls.hwIrqTest_exits ipending hentered.estatus]
  by_cases hirq : (k.context m).Interrupted ipending
  · refine iff_of_true ?_ (.inl hirq)
    rw [if_pos hirq, rightPc_eq_pc_iff.mpr (.inl hirq)]
    exact goesOn_of_resumes (calls.hwIrqHandler_spec htested)
  · rw [if_neg hirq]
    by_cases htrap : m.mem m.pc = trapCode
    · refine iff_of_true ?_ (.inr (.inl htrap))
      have hpc : (k.context m).rightPc ipending (m.mem m.pc) result = (k.context m).pc + 4 := by
        unfold Context.rightPc
        rw [if_neg hirq, if_pos htrap]
      rw [hpc]
      exact goesOn_of_resumes (calls.softExceptions_spec htested (hinst.trans htrap))
    · obtain ⟨hshows, hframe⟩ := softExceptions_keeps calls htested (by rw [hinst]; exact htrap)
      rw [goesOn_iff_pc hshows fun τ' c' heq => by cases heq; exact hframe c', rightPc_eq_pc_iff]
      simp [hirq, htrap]

namespace Exceptions

/-- The exception of `m` is resumed at the right instruction, with all registers as saved. -/
def ResumedRight (calls : Calls k) (handler : InstructionHandler k)
    (exception badaddr ipending : Word) (m : Machine) (who : Runner Task) : Prop :=
  k.GoesOn ((calls.withHandler handler exception badaddr).saveContext ipending m.takeException)
    { k.context m with
      pc := (k.context m).rightPc ipending (m.mem m.pc)
        (handler.result calls exception badaddr ipending m) } who

/-- An exception of a task or of `main` is resumed at the right instruction if and only if it is
an interrupt, a trap of a task, or one whose handler has the instruction issued again. -/
theorem exception_resumed_iff (main : MainStack k) (calls : Calls k)
    (handler : InstructionHandler k) (exception badaddr : Word)
    (hmain : main.Provides (calls.withHandler handler exception badaddr)) (who : Runner Task)
    (saved : Word → Context) (ipending : Word) (m : Machine)
    (h : k.Executes main saved m who) (htext : k.text m.pc) :
    ResumedRight calls handler exception badaddr ipending m who ↔
      (k.context m).Interrupted ipending ∨ (m.mem m.pc = trapCode ∧ who ≠ .main) ∨
        (m.mem m.pc ≠ trapCode ∧
          handler.result calls exception badaddr ipending m = returnReissueInst) := by
  unfold ResumedRight
  cases who with
  | main =>
    rw [main_goesOn_iff hmain h]
    simp
  | task τ =>
    rw [task_goesOn_iff _ h htext]
    simp

/-! ### Two tasks and `main` -/

open Switch (twoTasks twoCalls twoTasksStart twoTasksStart_runs)

def twoTasksMain : MainStack twoTasks where
  room b := b.toNat / 0x10000 = 4 ∧ b.toNat % 0x10000 < 0x8000
  errno_apart := by
    intro b hroom hin
    have herrno : (twoTasks.errno).toNat = 0x204 := rfl
    unfold InContext at hin
    bv_omega
  text_apart := by
    intro b a hroom ha hin
    have hlow : a < 0x100 := of_decide_eq_true ha
    unfold InContext at hin
    bv_omega
  errno_not_text := rfl

/-- The scheduler is started once it does not run on the stack of `main`. -/
def callsWithMain : Calls twoTasks :=
  { twoCalls with
    xTaskGetSchedulerState := fun m => m.set .r2 (if (m.reg .sp).toNat / 0x10000 = 4 then 0 else 1)
    state_reads := fun _ => Switch.reads_set_r2 _
    state_running := by
      intro τ m h
      have hsp : (m.reg .sp).toNat / 0x10000 = τ.val + 1 := h.room.1
      have hτ := τ.isLt
      rw [Machine.set_self, if_neg (by omega)]
      decide }

/-- It skips every instruction. -/
def skips : InstructionHandler twoTasks where
  run _ _ _ m := m.set .r2 returnSkipInst
  abi _ _ _ _ := (Switch.reads_set_r2 _).toAbi

theorem abi_set_r2 {m : Machine} (v : Word) : MainStack.Abi m (m.set .r2 v) twoTasks := by
  have hregs : ∀ r ∈ calleeSaved, r ≠ .r2 := by decide
  exact ⟨fun r hr => m.set_of_ne v (hregs r hr), rfl, fun _ _ => rfl, fun _ _ => rfl⟩

theorem twoTasksMain_provides :
    twoTasksMain.Provides (callsWithMain.withHandler skips 0 0) where
  errno_abi _ := abi_set_r2 _
  errno_reads _ := rfl
  errno_returns _ := Machine.set_self ..
  state_abi _ := abi_set_r2 _
  state_notStarted {m} h := by
    have hsp : (m.reg .sp).toNat / 0x10000 = 4 := h.1
    change (m.set .r2 (if (m.reg .sp).toNat / 0x10000 = 4 then 0 else 1)).reg .r2 = 0
    rw [Machine.set_self, if_pos hsp]
  irq_abi _ := ⟨fun _ _ => rfl, rfl, fun _ _ => rfl, fun _ _ => rfl⟩
  instruction_abi _ := abi_set_r2 _

/-- `main` is at a trap, before the scheduler is started. -/
def mainAtTrap : Machine :=
  { twoTasksStart.machine with
    reg := Function.update twoTasksStart.machine.reg .sp 0x44000 }

/-- Task 0 is at an instruction that is not implemented. -/
def taskAtUnimplemented : Machine := { twoTasksStart.machine with pc := 0x44 }

theorem taskAtUnimplemented_runs : twoTasks.Runs 0 twoTasksStart.saved taskAtUnimplemented :=
  ⟨twoTasksStart_runs.current, twoTasksStart_runs.room, twoTasksStart_runs.others⟩

/-- The trap of a task is resumed right. That of `main` is not, nor is an instruction that the
handler skips. -/
theorem exception_resumed_iff_two :
    ResumedRight callsWithMain skips 0 0 0 twoTasksStart.machine (.task 0) ∧
      ¬ ResumedRight callsWithMain skips 0 0 0 mainAtTrap .main ∧
      ¬ ResumedRight callsWithMain skips 0 0 0 taskAtUnimplemented (.task 0) := by
  refine ⟨?_, ?_, ?_⟩
  · rw [exception_resumed_iff twoTasksMain callsWithMain skips 0 0 twoTasksMain_provides (.task 0)
      twoTasksStart.saved 0 twoTasksStart.machine twoTasksStart_runs rfl]
    exact .inr (.inl ⟨rfl, nofun⟩)
  · rw [exception_resumed_iff twoTasksMain callsWithMain skips 0 0 twoTasksMain_provides .main
      twoTasksStart.saved 0 mainAtTrap (by change _ ∧ _; decide) rfl]
    rintro (hirq | htrap | hother)
    · exact absurd hirq.2 (by decide)
    · exact htrap.2 rfl
    · exact hother.1 rfl
  · rw [exception_resumed_iff twoTasksMain callsWithMain skips 0 0 twoTasksMain_provides (.task 0)
      twoTasksStart.saved 0 taskAtUnimplemented taskAtUnimplemented_runs rfl]
    rintro (hirq | htrap | hother)
    · exact absurd hirq.2 (by decide)
    · exact absurd htrap.1 (by decide)
    · exact absurd hother.2 (by decide)

/-- `main` comes back to its trap, before the scheduler is started. -/
theorem trap_before_start_reissued :
    ¬ ∀ (who : Runner (Fin 2)) (ipending : Word) (m : Machine),
      twoTasks.Executes twoTasksMain twoTasksStart.saved m who → twoTasks.text m.pc →
        ResumedRight callsWithMain skips 0 0 ipending m who := by
  intro h
  have hright := h .main 0 mainAtTrap (by change _ ∧ _; decide) rfl
  obtain hirq | htrap := (main_goesOn_iff twoTasksMain_provides (m := mainAtTrap)
    (by change _ ∧ _; decide) 0 _ _).mp hright
  · exact absurd hirq.2 (by decide)
  · exact htrap.1 rfl

end Exceptions

end FreeLwip.Port
