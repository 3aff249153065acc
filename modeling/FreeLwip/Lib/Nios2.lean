import Mathlib.Data.List.Nodup
import Mathlib.Logic.Function.Basic

/-!
# A Nios II

The registers, the control registers that exceptions use, the memory, and the instructions of
exception handlers. Memory is by words: accesses are to aligned addresses.
-/

namespace FreeLwip.Nios2

abbrev Word := BitVec 32

/-- The registers but for `r0`; `at` is `r1`. -/
inductive Reg
  | r1 | r2 | r3 | r4 | r5 | r6 | r7 | r8 | r9 | r10 | r11 | r12 | r13 | r14 | r15
  | r16 | r17 | r18 | r19 | r20 | r21 | r22 | r23
  | et | bt | gp | sp | fp | ea | ba | ra
  deriving DecidableEq, Repr

inductive Ctl
  | estatus | ipending
  deriving DecidableEq, Repr

structure Machine where
  reg : Reg → Word
  pc : Word
  status : Word
  estatus : Word
  ipending : Word
  mem : Word → Word

inductive Instr
  | addi (dst src : Reg) (imm : Word)
  | andi (dst src : Reg) (imm : Word)
  | ori (dst src : Reg) (imm : Word)
  | movhi (dst : Reg) (imm : Word)
  | movia (dst : Reg) (addr : Word)
  | mov (dst src : Reg)
  | cmpne (dst a b : Reg)
  | ldw (dst : Reg) (offset : Word) (base : Reg)
  | stw (src : Reg) (offset : Word) (base : Reg)
  | rdctl (dst : Reg) (ctl : Ctl)
  | wrctl (ctl : Ctl) (src : Reg)

namespace Machine

def set (m : Machine) (r : Reg) (v : Word) : Machine :=
  { m with reg := Function.update m.reg r v }

def store (m : Machine) (a v : Word) : Machine :=
  { m with mem := Function.update m.mem a v }

def ctl (m : Machine) : Ctl → Word
  | .estatus => m.estatus
  | .ipending => m.ipending

def setCtl (m : Machine) (c : Ctl) (v : Word) : Machine :=
  match c with
  | .estatus => { m with estatus := v }
  | .ipending => m

def exec (m : Machine) : Instr → Machine
  | .addi dst src imm => m.set dst (m.reg src + imm)
  | .andi dst src imm => m.set dst (m.reg src &&& imm)
  | .ori dst src imm => m.set dst (m.reg src ||| imm)
  | .movhi dst imm => m.set dst (imm <<< 16)
  | .movia dst addr => m.set dst addr
  | .mov dst src => m.set dst (m.reg src)
  | .cmpne dst a b => m.set dst (if m.reg a ≠ m.reg b then 1 else 0)
  | .ldw dst offset base => m.set dst (m.mem (m.reg base + offset))
  | .stw src offset base => m.store (m.reg base + offset) (m.reg src)
  | .rdctl dst c => m.set dst (m.ctl c)
  | .wrctl c src => m.setCtl c (m.reg src)

def execAll (m : Machine) (is : List Instr) : Machine :=
  is.foldl exec m

/-- Bit 0 of the status: interrupts are enabled. -/
def pie (m : Machine) : Bool := m.status &&& 1 ≠ 0

/-- An exception at `pc`. -/
def takeException (m : Machine) : Machine :=
  { m.set .ea (m.pc + 4) with estatus := m.status, status := m.status &&& ~~~1 }

def eret (m : Machine) : Machine :=
  { m with status := m.estatus, pc := m.reg .ea }

@[simp] theorem execAll_nil (m : Machine) : m.execAll [] = m := rfl

@[simp] theorem execAll_cons (m : Machine) (i : Instr) (is : List Instr) :
    m.execAll (i :: is) = (m.exec i).execAll is := rfl

theorem execAll_append (m : Machine) (is js : List Instr) :
    m.execAll (is ++ js) = (m.execAll is).execAll js :=
  List.foldl_append ..

variable (m : Machine) {r q : Reg} {a b : Word} (v : Word)

@[simp] theorem set_self : (m.set r v).reg r = v :=
  Function.update_self ..

@[simp] theorem set_of_ne (h : q ≠ r) : (m.set r v).reg q = m.reg q :=
  Function.update_of_ne h ..

@[simp] theorem set_mem : (m.set r v).mem = m.mem := rfl

@[simp] theorem set_ctl (c : Ctl) : (m.set r v).ctl c = m.ctl c := by
  cases c <;> rfl

@[simp] theorem store_self : (m.store a v).mem a = v :=
  Function.update_self ..

@[simp] theorem store_of_ne (h : b ≠ a) : (m.store a v).mem b = m.mem b :=
  Function.update_of_ne h ..

theorem exec_ldw_zero (base : Reg) :
    m.exec (.ldw r 0 base) = m.set r (m.mem (m.reg base)) := by
  rw [exec, show m.reg base + 0 = m.reg base from BitVec.add_zero _]

theorem exec_stw_zero (base : Reg) :
    m.exec (.stw r 0 base) = m.store (m.reg base) (m.reg r) := by
  rw [exec, show m.reg base + 0 = m.reg base from BitVec.add_zero _]

@[simp] theorem takeException_reg (h : q ≠ .ea) : m.takeException.reg q = m.reg q :=
  Function.update_of_ne h ..

@[simp] theorem takeException_ea : m.takeException.reg .ea = m.pc + 4 :=
  m.set_self (r := .ea) _

@[simp] theorem eret_reg : m.eret.reg = m.reg := rfl

@[simp] theorem eret_pc : m.eret.pc = m.reg .ea := rfl

end Machine

/-! ## Registers spilled to a table of slots, and filled from it -/

abbrev Slots := List (Reg × Word)

def stores (base : Reg) (l : Slots) : List Instr :=
  l.map fun p => .stw p.1 p.2 base

def loads (base : Reg) (l : Slots) : List Instr :=
  l.map fun p => .ldw p.1 p.2 base

/-- The memory after the registers are stored. -/
def spill (reg : Reg → Word) (b : Word) : Slots → (Word → Word) → Word → Word
  | [], mem => mem
  | (r, offset) :: l, mem => spill reg b l (Function.update mem (b + offset) (reg r))

/-- The registers after they are loaded. -/
def fill (mem : Word → Word) (b : Word) : Slots → (Reg → Word) → Reg → Word
  | [], reg => reg
  | (r, offset) :: l, reg => fill mem b l (Function.update reg r (mem (b + offset)))

variable {reg : Reg → Word} {mem : Word → Word} {b a : Word} {r base : Reg} {l : Slots}

theorem execAll_stores (m : Machine) :
    m.execAll (stores base l) = { m with mem := spill m.reg (m.reg base) l m.mem } := by
  induction l generalizing m with
  | nil => rfl
  | cons p l ih =>
    change (m.store (m.reg base + p.2) (m.reg p.1)).execAll (stores base l) = _
    rw [ih]
    rfl

theorem execAll_loads (m : Machine) (hbase : base ∉ l.map Prod.fst) :
    m.execAll (loads base l) = { m with reg := fill m.mem (m.reg base) l m.reg } := by
  induction l generalizing m with
  | nil => rfl
  | cons p l ih =>
    obtain ⟨hne, hl⟩ := not_or.mp (mt List.mem_cons.mpr hbase)
    change (m.set p.1 (m.mem (m.reg base + p.2))).execAll (loads base l) = _
    rw [ih _ hl, m.set_of_ne _ hne]
    rfl

theorem spill_of_not_mem (h : ∀ p ∈ l, a ≠ b + p.2) : spill reg b l mem a = mem a := by
  induction l generalizing mem with
  | nil => rfl
  | cons p l ih =>
    rw [spill, ih fun q hq => h q (List.mem_cons_of_mem _ hq)]
    exact Function.update_of_ne (h p List.mem_cons_self) ..

theorem spill_of_mem {offset : Word} (hnodup : (l.map Prod.snd).Nodup) (h : (r, offset) ∈ l) :
    spill reg b l mem (b + offset) = reg r := by
  induction l generalizing mem with
  | nil => cases h
  | cons p l ih =>
    obtain ⟨hp, hl⟩ := List.nodup_cons.mp hnodup
    rw [spill]
    rcases List.mem_cons.mp h with rfl | h
    · rw [spill_of_not_mem, Function.update_self]
      intro q hq heq
      have hoffset : offset = q.2 := by simpa using heq
      exact hp (List.mem_map.mpr ⟨q, hq, hoffset.symm⟩)
    · exact ih hl h

theorem fill_of_not_mem (h : r ∉ l.map Prod.fst) : fill mem b l reg r = reg r := by
  induction l generalizing reg with
  | nil => rfl
  | cons p l ih =>
    obtain ⟨hne, hl⟩ := not_or.mp (mt List.mem_cons.mpr h)
    rw [fill, ih hl]
    exact Function.update_of_ne hne ..

theorem fill_of_mem {offset : Word} (hnodup : (l.map Prod.fst).Nodup) (h : (r, offset) ∈ l) :
    fill mem b l reg r = mem (b + offset) := by
  induction l generalizing reg with
  | nil => cases h
  | cons p l ih =>
    obtain ⟨hp, hl⟩ := List.nodup_cons.mp hnodup
    rw [fill]
    rcases List.mem_cons.mp h with rfl | h
    · rw [fill_of_not_mem hp, Function.update_self]
    · exact ih hl h

/-! ## Values stored to a table of slots -/

def Machine.storeAll (m : Machine) (b : Word) : List (Word × Word) → Machine
  | [] => m
  | (offset, v) :: l => (m.store (b + offset) v).storeAll b l

variable {m : Machine} {values : List (Word × Word)}

theorem storeAll_of_not_mem (h : ∀ p ∈ values, a ≠ b + p.1) :
    (m.storeAll b values).mem a = m.mem a := by
  induction values generalizing m with
  | nil => rfl
  | cons p values ih =>
    rw [Machine.storeAll, ih fun q hq => h q (List.mem_cons_of_mem _ hq)]
    exact m.store_of_ne _ (h p List.mem_cons_self)

theorem storeAll_of_mem {offset v : Word} (hnodup : (values.map Prod.fst).Nodup)
    (h : (offset, v) ∈ values) : (m.storeAll b values).mem (b + offset) = v := by
  induction values generalizing m with
  | nil => cases h
  | cons p values ih =>
    obtain ⟨hp, hvalues⟩ := List.nodup_cons.mp hnodup
    rw [Machine.storeAll]
    rcases List.mem_cons.mp h with rfl | h
    · rw [storeAll_of_not_mem, Machine.store_self]
      intro q hq heq
      have hoffset : offset = q.1 := by simpa using heq
      exact hp (List.mem_map.mpr ⟨q, hq, hoffset.symm⟩)
    · exact ih hvalues h

end FreeLwip.Nios2
