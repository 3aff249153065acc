import FreeLwip.Port.Asm

/-!
# The context of a task on its stack

`save_context` stores the registers in a frame of 120 bytes, and `restore_context` loads them
from there. The two go through the same table of slots.
-/

namespace FreeLwip.Port

open Nios2

/-! ## Contexts -/

/-- What a task has in the processor, and its `errno`. -/
structure Context where
  reg : Reg → Word
  status : Word
  errno : Word
  pc : Word

def taskRegs : List Reg :=
  [.r1, .r2, .r3, .r4, .r5, .r6, .r7, .r8, .r9, .r10, .r11, .r12, .r13, .r14, .r15, .r16, .r17,
    .r18, .r19, .r20, .r21, .r22, .r23, .gp, .fp, .sp, .ra]

/-- The slots of the registers, in the two parts that the status and the address of the next
instruction are stored between. -/
def lowSlots : Slots :=
  [(.ra, 0), (.r1, 8), (.r2, 12), (.r3, 16), (.r4, 20), (.r5, 24), (.r6, 28), (.r7, 32),
    (.r8, 36), (.r9, 40), (.r10, 44), (.r11, 48), (.r12, 52), (.r13, 56), (.r14, 60), (.r15, 64)]

def highSlots : Slots :=
  [(.r16, 76), (.r17, 80), (.r18, 84), (.r19, 88), (.r20, 92), (.r21, 96), (.r22, 100),
    (.r23, 104), (.gp, 108), (.fp, 112)]

/-- The context `c` is in memory from `b` on. -/
structure Holds (mem : Word → Word) (b : Word) (c : Context) : Prop where
  reg : ∀ p ∈ lowSlots ++ highSlots, mem (b + p.2) = c.reg p.1
  sp : b + 120 = c.reg .sp
  status : mem (b + 68) = c.status
  pc : mem (b + 72) = c.pc
  errno : mem (b + 116) = c.errno

theorem inContext_add {b offset : Word} (h : offset < 120) : InContext b (b + offset) := by
  unfold InContext
  rw [BitVec.add_comm, BitVec.add_sub_cancel]
  exact h

theorem slots_inContext : ∀ p ∈ lowSlots ++ highSlots, p.2 < 120 := by
  decide

theorem Holds.congr {mem mem' : Word → Word} {b : Word} {c : Context} (h : Holds mem b c)
    (hmem : ∀ a, InContext b a → mem' a = mem a) : Holds mem' b c where
  reg p hp := by
    rw [hmem _ (inContext_add (slots_inContext p hp))]
    exact h.reg p hp
  sp := h.sp
  status := by
    rw [hmem _ (inContext_add (by decide))]
    exact h.status
  pc := by
    rw [hmem _ (inContext_add (by decide))]
    exact h.pc
  errno := by
    rw [hmem _ (inContext_add (by decide))]
    exact h.errno

theorem slot_ne {b x y : Word} (h : x ≠ y) : b + x ≠ b + y := by
  simpa using h

theorem slots_apart : ∀ p ∈ lowSlots ++ highSlots, p.2 ≠ 72 ∧ p.2 ≠ 116 := by
  decide

theorem Holds.store_pc {mem : Word → Word} {b : Word} {c : Context} (h : Holds mem b c)
    (v : Word) : Holds (Function.update mem (b + 72) v) b { c with pc := v } where
  reg p hp := by
    rw [Function.update_of_ne (slot_ne (slots_apart p hp).1)]
    exact h.reg p hp
  sp := h.sp
  status := by
    rw [Function.update_of_ne (slot_ne (by decide))]
    exact h.status
  pc := Function.update_self ..
  errno := by
    rw [Function.update_of_ne (slot_ne (by decide))]
    exact h.errno

theorem Holds.store_errno {mem : Word → Word} {b : Word} {c : Context} (h : Holds mem b c)
    (v : Word) : Holds (Function.update mem (b + 116) v) b { c with errno := v } where
  reg p hp := by
    rw [Function.update_of_ne (slot_ne (slots_apart p hp).2)]
    exact h.reg p hp
  sp := h.sp
  status := by
    rw [Function.update_of_ne (slot_ne (by decide))]
    exact h.status
  pc := by
    rw [Function.update_of_ne (slot_ne (by decide))]
    exact h.pc
  errno := Function.update_self ..

/-! ## The registers stored and loaded -/

/-- What is stored after the status is read. -/
def tailSlots : Slots := (.r5, 68) :: (.ea, 72) :: highSlots

theorem saveRegs_eq :
    saveRegs = [.addi .ea .ea (-4), .addi .sp .sp (-120)] ++
      (stores .sp lowSlots ++ (.rdctl .r5 .estatus :: stores .sp tailSlots)) :=
  rfl

/-- `m'` has the context of `m` on its stack, but for `errno`. -/
structure Saved (m m' : Machine) : Prop where
  sp : m'.reg .sp = m.reg .sp - 120
  ea : m'.reg .ea = m.reg .ea - 4
  estatus : m'.estatus = m.estatus
  holds : Holds m'.mem (m.reg .sp - 120)
    { reg := m.reg, status := m.estatus, errno := m'.mem (m.reg .sp - 120 + 116)
      pc := m.reg .ea - 4 }
  other : ∀ a, ¬ InContext (m.reg .sp - 120) a → m'.mem a = m.mem a

theorem saveRegs_spec (m : Machine) : Saved m (m.execAll saveRegs) := by
  let m₁ := (m.set .ea (m.reg .ea - 4)).set .sp (m.reg .sp - 120)
  let low := spill m₁.reg (m.reg .sp - 120) lowSlots m.mem
  let m₂ : Machine := { m₁ with mem := low }
  let m₃ := m₂.set .r5 m.estatus
  have hsp : m₃.reg .sp = m.reg .sp - 120 := by simp [m₃, m₂, m₁]
  have hfirst : m.execAll [.addi .ea .ea (-4), .addi .sp .sp (-120)] = m₁ := by
    simp only [Machine.execAll_cons, Machine.execAll_nil, Machine.exec, m₁]
    rw [Machine.set_of_ne _ _ (by decide), BitVec.sub_eq_add_neg, BitVec.sub_eq_add_neg]
  have hsp₁ : m₁.reg .sp = m.reg .sp - 120 := Machine.set_self ..
  have hlow : m₁.execAll (stores .sp lowSlots) = m₂ := by
    rw [execAll_stores, hsp₁]
    rfl
  have hrdctl : m₂.exec (.rdctl .r5 .estatus) = m₃ := rfl
  have hrun : m.execAll saveRegs =
      { m₃ with mem := spill m₃.reg (m.reg .sp - 120) tailSlots low } := by
    rw [saveRegs_eq, Machine.execAll_append, hfirst, Machine.execAll_append, hlow,
      Machine.execAll_cons, hrdctl, execAll_stores, hsp]
    rfl
  rw [hrun]
  have htail : (tailSlots.map Prod.snd).Nodup := by decide
  refine ⟨hsp, by simp [m₃, m₂, m₁], rfl, ⟨fun p hp => ?_, BitVec.sub_add_cancel .., ?_, ?_, rfl⟩,
    fun a ha => ?_⟩
  · rcases List.mem_append.mp hp with hlow | hhigh
    · have hregs : ∀ q ∈ lowSlots, q.1 ≠ .sp ∧ q.1 ≠ .ea := by decide
      have hapart : ∀ q ∈ lowSlots, ∀ q' ∈ tailSlots, q.2 ≠ q'.2 := by decide
      obtain ⟨hrsp, hrea⟩ := hregs p hlow
      have hstored : low (m.reg .sp - 120 + p.2) = m₁.reg p.1 :=
        spill_of_mem (by decide) hlow
      calc spill m₃.reg (m.reg .sp - 120) tailSlots low (m.reg .sp - 120 + p.2)
          = low (m.reg .sp - 120 + p.2) :=
            spill_of_not_mem fun q hq => slot_ne (hapart p hlow q hq)
        _ = m.reg p.1 := by rw [hstored]; simp [m₁, hrsp, hrea]
    · have hregs : ∀ q ∈ highSlots, q.1 ≠ .r5 ∧ q.1 ≠ .sp ∧ q.1 ≠ .ea := by decide
      obtain ⟨hr5, hrsp, hrea⟩ := hregs p hhigh
      have hin : (p.1, p.2) ∈ tailSlots := List.mem_cons_of_mem _ (List.mem_cons_of_mem _ hhigh)
      calc spill m₃.reg (m.reg .sp - 120) tailSlots low (m.reg .sp - 120 + p.2)
          = m₃.reg p.1 := spill_of_mem htail hin
        _ = m.reg p.1 := by simp [m₃, m₂, m₁, hr5, hrsp, hrea]
  · have hin : ((.r5, 68) : Reg × Word) ∈ tailSlots := by decide
    exact (spill_of_mem htail hin).trans (m₂.set_self m.estatus)
  · have hin : ((.ea, 72) : Reg × Word) ∈ tailSlots := by decide
    exact (spill_of_mem htail hin).trans (by simp [m₃, m₂, m₁])
  · have hoffsets : ∀ q ∈ lowSlots ++ tailSlots, q.2 < 120 := by decide
    have hout : ∀ q ∈ lowSlots ++ tailSlots, a ≠ m.reg .sp - 120 + q.2 := by
      rintro q hq rfl
      exact ha (inContext_add (hoffsets q hq))
    calc spill m₃.reg (m.reg .sp - 120) tailSlots low a
        = low a := spill_of_not_mem fun q hq => hout q (List.mem_append_right _ hq)
      _ = m.mem a := spill_of_not_mem fun q hq => hout q (List.mem_append_left _ hq)

theorem restoreRegs_eq :
    restoreRegs = loads .sp lowSlots ++
      ([.ldw .et 68 .sp, .wrctl .estatus .et, .ldw .ea 72 .sp] ++
        (loads .sp highSlots ++ [.addi .sp .sp 120])) :=
  rfl

structure Restored (m m' : Machine) (c : Context) : Prop where
  reg : ∀ r ∈ taskRegs, m'.reg r = c.reg r
  status : m'.status = c.status
  pc : m'.pc = c.pc
  mem : m'.mem = m.mem

theorem restoreRegs_spec {m : Machine} {c : Context} (h : Holds m.mem (m.reg .sp) c) :
    Restored m (m.execAll restoreRegs).eret c := by
  let m₁ : Machine := { m with reg := fill m.mem (m.reg .sp) lowSlots m.reg }
  let m₂ : Machine := { (m₁.set .et c.status).set .ea c.pc with estatus := c.status }
  let m₃ : Machine := { m₂ with reg := fill m.mem (m.reg .sp) highSlots m₂.reg }
  have hsp₁ : m₁.reg .sp = m.reg .sp := fill_of_not_mem (by decide)
  have hsp₂ : m₂.reg .sp = m.reg .sp := hsp₁
  have hsp₃ : m₃.reg .sp = m.reg .sp := (fill_of_not_mem (by decide)).trans hsp₂
  have hlow : m.execAll (loads .sp lowSlots) = m₁ := execAll_loads m (by decide)
  have hstatus : m₁.execAll [.ldw .et 68 .sp, .wrctl .estatus .et, .ldw .ea 72 .sp] = m₂ := by
    simp only [Machine.execAll_cons, Machine.execAll_nil, Machine.exec, Machine.set_self,
      Machine.setCtl, hsp₁]
    rw [Machine.set_of_ne _ _ (by decide), hsp₁]
    have hs : m₁.mem (m.reg .sp + 68) = c.status := h.status
    have hp : m₁.mem (m.reg .sp + 72) = c.pc := h.pc
    rw [hs]
    change Machine.set _ _ (m₁.mem (m.reg .sp + 72)) = m₂
    rw [hp]
    rfl
  have hhigh : m₂.execAll (loads .sp highSlots) = m₃ := by
    rw [execAll_loads m₂ (by decide), hsp₂]
    rfl
  have hlast : m₃.execAll [.addi .sp .sp 120] = m₃.set .sp (m.reg .sp + 120) := by
    rw [Machine.execAll_cons, Machine.execAll_nil, Machine.exec, hsp₃]
  have hrun : m.execAll restoreRegs = m₃.set .sp (m.reg .sp + 120) := by
    rw [restoreRegs_eq, Machine.execAll_append, hlow, Machine.execAll_append, hstatus,
      Machine.execAll_append, hhigh, hlast]
  rw [hrun]
  refine ⟨fun r hr => ?_, rfl, ?_, rfl⟩
  · have hslots : ∀ r ∈ taskRegs, r = .sp ∨ ∃ p ∈ lowSlots ++ highSlots, p.1 = r := by decide
    have hregs : ∀ p ∈ lowSlots ++ highSlots, p.1 ≠ .sp ∧ p.1 ≠ .ea ∧ p.1 ≠ .et := by decide
    rcases hslots r hr with rfl | ⟨p, hp, rfl⟩
    · rw [Machine.eret_reg, Machine.set_self]
      exact h.sp
    · obtain ⟨hsp, hea, het⟩ := hregs p hp
      rw [Machine.eret_reg, Machine.set_of_ne _ _ hsp, ← h.reg p hp]
      rcases List.mem_append.mp hp with hlow | hhigh
      · have hapart : ∀ q ∈ lowSlots, q.1 ∉ highSlots.map Prod.fst := by decide
        calc m₃.reg p.1
            = m₂.reg p.1 := fill_of_not_mem (hapart p hlow)
          _ = m₁.reg p.1 := by simp [m₂, hea, het]
          _ = m.mem (m.reg .sp + p.2) := fill_of_mem (by decide) hlow
      · exact fill_of_mem (by decide) hhigh
  · have hea₂ : m₂.reg .ea = c.pc := Machine.set_self (m₁.set .et c.status) (r := .ea) c.pc
    have hea₃ : m₃.reg .ea = c.pc := (fill_of_not_mem (by decide)).trans hea₂
    rw [Machine.eret_pc, Machine.set_of_ne _ _ (by decide)]
    exact hea₃

end FreeLwip.Port
