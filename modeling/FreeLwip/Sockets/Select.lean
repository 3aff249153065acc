import FreeLwip.Lib.Run
import FreeLwip.Lib.Linked
import Mathlib.Data.BitVec
import Mathlib.Data.Fintype.Basic

/-!
# `lwip_select` and `event_callback` (`sockets.c`)

Each waiting `lwip_select` has a record on its stack, and all records are linked in a list
that `event_callback` walks. A step is what a task does between two points where another
task can run: the sections under SYS_ARCH_PROTECT, cut where giving a semaphore switches to
the woken task.
-/

namespace FreeLwip.Sockets

open Run Linked

abbrev Socket := Nat

/-- A record: the number of the call of `lwip_select` that it belongs to. -/
abbrev Cb := Nat

structure LwipSock where
  rcvevent : Int
  sendevent : Bool
  errevent : Bool
  selectWaiting : Int

/-- The fields of `struct lwip_select_cb`, without the pointers, and the task that waits. -/
structure SelectCb (Task : Type*) where
  readset : Socket → Bool
  writeset : Socket → Bool
  exceptset : Socket → Bool
  semSignalled : Bool
  sem : Bool
  task : Task
  maxfdp1 : Nat
  /-- A timeout was given. -/
  timed : Bool

def SelectCb.selects {Task : Type*} (cb : SelectCb Task) (i : Socket) : Bool :=
  cb.readset i || cb.writeset i || cb.exceptset i

/-- What a task does. -/
inductive Pc
  | idle
  -- In `lwip_select`, on the list.
  | increase (r : Cb) (i : Socket)
  | scan (r : Cb)
  | semWait (r : Cb)
  | blocked (r : Cb)
  | decrease (r : Cb) (i : Socket)
  | unlink (r : Cb)
  -- Off the list.
  | unlinked (r : Cb)
  -- In `event_callback`: switched out by `sys_sem_signal`; or unprotected, with
  -- `last_select_cb_ctr` and the number of changes that it was sampled after.
  | switchedOut (s : Socket) (r : Cb)
  | unprotected (s : Socket) (r : Cb) (last : BitVec 32) (changes : Nat)
  deriving DecidableEq

/-- An access to a record; `gone` when its call has returned. -/
structure Access where
  cb : Cb
  gone : Bool
  deriving DecidableEq, Repr

structure State (Task : Type*) where
  sock : Socket → LwipSock
  selectCb : Cb → Option (SelectCb Task)
  list : Links Cb
  selectCbCtr : BitVec 32
  pc : Task → Pc
  -- The history of the run; the code reads none of it.
  calls : Nat
  changes : Nat
  gone : Cb → Bool
  accesses : List Access

inductive NetconnEvt
  | rcvplus | rcvminus | sendplus | sendminus | error
  deriving DecidableEq, Repr

def LwipSock.setEvent (sock : LwipSock) : NetconnEvt → LwipSock
  | .rcvplus => { sock with rcvevent := sock.rcvevent + 1 }
  | .rcvminus => { sock with rcvevent := sock.rcvevent - 1 }
  | .sendplus => { sock with sendevent := true }
  | .sendminus => { sock with sendevent := false }
  | .error => { sock with errevent := true }

variable {Task : Type*}

def init (sock : Socket → LwipSock) : State Task where
  sock := sock
  selectCb _ := none
  list := { head := none, next := fun _ => none, prev := fun _ => none }
  selectCbCtr := 0
  pc _ := .idle
  calls := 0
  changes := 0
  gone _ := false
  accesses := []

namespace State

def touch (s : State Task) (r : Cb) : State Task :=
  { s with accesses := s.accesses ++ [⟨r, s.gone r⟩] }

def setCb (s : State Task) (r : Cb) (cb : SelectCb Task) : State Task :=
  { s with selectCb := Function.update s.selectCb r (some cb) }

def setSock (s : State Task) (i : Socket) (sock : LwipSock) : State Task :=
  { s with sock := Function.update s.sock i sock }

variable [DecidableEq Task]

def setPc (s : State Task) (τ : Task) (pc : Pc) : State Task :=
  { s with pc := Function.update s.pc τ pc }

/-! ## `event_callback` -/

def doSignal (sock : LwipSock) (i : Socket) (cb : SelectCb Task) : Bool :=
  (decide (sock.rcvevent > 0) && cb.readset i) || (sock.sendevent && cb.writeset i) ||
    (sock.errevent && cb.exceptset i)

/-- After the semaphore: the check of the pointers, and the sampling of the counter. -/
def sample (s : State Task) (e : Task) (i : Socket) (r : Cb) : State Task :=
  (s.touch r).setPc e (.unprotected i r s.selectCbCtr s.changes)

section Priorities

variable (prio : Task → Nat)

/-- `sys_sem_signal`, and the rest of the turn if it does not switch tasks. The kernel yields
to a woken task of at least the caller's priority. With equal priorities its ring of ready
tasks comes to the caller before the woken task; that the woken task may run first there too
only adds runs. -/
def signal (s : State Task) (e : Task) (i : Socket) (r : Cb) (cb : SelectCb Task) :
    State Task :=
  let s := s.setCb r { cb with semSignalled := true, sem := true }
  if s.pc cb.task = .blocked r then
    let s := s.setPc cb.task (.semWait r)
    if prio cb.task ≥ prio e then s.setPc e (.switchedOut i r) else s.sample e i r
  else
    s.sample e i r

/-- The turn of the walk at `scb`, up to where the protection is dropped. -/
def walk (s : State Task) (e : Task) (i : Socket) (scb : Option Cb) : State Task :=
  match scb with
  | none => s.setPc e .idle
  | some r =>
    let s := s.touch r
    match s.selectCb r with
    | none => s
    | some cb =>
      if !cb.semSignalled && doSignal (s.sock i) i cb then
        s.signal prio e i r cb
      else
        s.sample e i r

/-- `event_callback` from its start to the first point where it drops the protection. -/
def eventCallback (s : State Task) (e : Task) (i : Socket) (evt : NetconnEvt) : State Task :=
  let s := s.setSock i ((s.sock i).setEvent evt)
  if (s.sock i).selectWaiting = 0 then s else s.walk prio e i s.list.head

/-- The protection is taken again: the next record, or the list from its start. -/
def reprotect (s : State Task) (e : Task) (i : Socket) (r : Cb) (last : BitVec 32) :
    State Task :=
  if last ≠ s.selectCbCtr then
    s.walk prio e i s.list.head
  else
    (s.touch r).walk prio e i (s.list.next r)

end Priorities

/-! ## `lwip_select` -/

def register (s : State Task) (τ : Task) (cb : SelectCb Task) (first : Socket) : State Task :=
  { (s.setCb s.calls cb).setPc τ (.increase s.calls first) with
    list := s.list.push s.calls
    selectCbCtr := s.selectCbCtr + 1
    calls := s.calls + 1
    changes := s.changes + 1 }

def unregister (s : State Task) (τ : Task) (r : Cb) : State Task :=
  { s.setPc τ (.unlinked r) with
    list := s.list.unlink r
    selectCbCtr := s.selectCbCtr + 1
    changes := s.changes + 1 }

def addWaiting (s : State Task) (cb : SelectCb Task) (i : Socket) (n : Int) : State Task :=
  if cb.selects i then
    s.setSock i { s.sock i with selectWaiting := (s.sock i).selectWaiting + n }
  else
    s

end State

/-! ## Steps -/

inductive Action (Task : Type*)
  /-- `lwip_select` finds nothing and registers. -/
  | select (τ : Task) (readset writeset exceptset : Socket → Bool) (maxfdp1 : Nat) (timed : Bool)
  | countWaiting (τ : Task)
  /-- The second `lwip_selscan`; what it finds depends on what happens meanwhile. -/
  | scan (τ : Task) (ready : Bool)
  | semTake (τ : Task)
  /-- A blocked task runs again, but for the semaphore: its block time is over. -/
  | unblock (τ : Task)
  | timeout (τ : Task)
  | unlink (τ : Task)
  | selectReturns (τ : Task)
  | event (e : Task) (i : Socket) (evt : NetconnEvt)
  | switchedIn (e : Task)
  | reprotect (e : Task)

variable [DecidableEq Task]

section Step

variable (prio : Task → Nat) (lwipSocketOffset : Nat)

def step (s : State Task) : Action Task → Option (State Task)
  | .select τ readset writeset exceptset maxfdp1 timed =>
    match s.pc τ with
    | .idle =>
      let cb : SelectCb Task :=
        { readset := readset, writeset := writeset, exceptset := exceptset
          semSignalled := false, sem := false, task := τ, maxfdp1 := maxfdp1, timed := timed }
      some (s.register τ cb lwipSocketOffset)
    | _ => none
  | .countWaiting τ =>
    match s.pc τ with
    | .increase r i =>
      (s.selectCb r).map fun cb =>
        if i < cb.maxfdp1 then
          (s.addWaiting cb i 1).setPc τ (.increase r (i + 1))
        else
          s.setPc τ (.scan r)
    | .decrease r i =>
      (s.selectCb r).map fun cb =>
        if i < cb.maxfdp1 then
          (s.addWaiting cb i (-1)).setPc τ (.decrease r (i + 1))
        else
          s.setPc τ (.unlink r)
    | _ => none
  | .scan τ ready =>
    match s.pc τ with
    | .scan r => some (s.setPc τ (if ready then .decrease r lwipSocketOffset else .semWait r))
    | _ => none
  | .semTake τ =>
    match s.pc τ with
    | .semWait r =>
      (s.selectCb r).map fun cb =>
        if cb.sem then
          (s.setCb r { cb with sem := false }).setPc τ (.decrease r lwipSocketOffset)
        else
          s.setPc τ (.blocked r)
    | _ => none
  | .unblock τ =>
    match s.pc τ with
    | .blocked r => some (s.setPc τ (.semWait r))
    | _ => none
  | .timeout τ =>
    match s.pc τ with
    | .semWait r =>
      match s.selectCb r with
      | some cb =>
        if cb.timed && !cb.sem then some (s.setPc τ (.decrease r lwipSocketOffset)) else none
      | none => none
    | _ => none
  | .unlink τ =>
    match s.pc τ with
    | .unlink r => some (s.unregister τ r)
    | _ => none
  | .selectReturns τ =>
    match s.pc τ with
    | .unlinked r => some { s.setPc τ .idle with gone := Function.update s.gone r true }
    | _ => none
  | .event e i evt =>
    match s.pc e with
    | .idle => some (s.eventCallback prio e i evt)
    | _ => none
  | .switchedIn e =>
    match s.pc e with
    | .switchedOut i r => some (s.sample e i r)
    | _ => none
  | .reprotect e =>
    match s.pc e with
    | .unprotected i r last _ => some (s.reprotect prio e i r last)
    | _ => none

inductive Moves (s : State Task) : Action Task → State Task → Prop
  | select {τ : Task} {readset writeset exceptset : Socket → Bool} {maxfdp1 : Nat} {timed : Bool}
      (here : s.pc τ = .idle) :
      Moves s (.select τ readset writeset exceptset maxfdp1 timed)
        (s.register τ
          { readset := readset, writeset := writeset, exceptset := exceptset
            semSignalled := false, sem := false, task := τ, maxfdp1 := maxfdp1, timed := timed }
          lwipSocketOffset)
  | increase {τ : Task} {r : Cb} {i : Socket} {cb : SelectCb Task}
      (here : s.pc τ = .increase r i) (record : s.selectCb r = some cb) (more : i < cb.maxfdp1) :
      Moves s (.countWaiting τ) ((s.addWaiting cb i 1).setPc τ (.increase r (i + 1)))
  | increased {τ : Task} {r : Cb} {i : Socket} {cb : SelectCb Task}
      (here : s.pc τ = .increase r i) (record : s.selectCb r = some cb) (done : cb.maxfdp1 ≤ i) :
      Moves s (.countWaiting τ) (s.setPc τ (.scan r))
  | decrease {τ : Task} {r : Cb} {i : Socket} {cb : SelectCb Task}
      (here : s.pc τ = .decrease r i) (record : s.selectCb r = some cb) (more : i < cb.maxfdp1) :
      Moves s (.countWaiting τ) ((s.addWaiting cb i (-1)).setPc τ (.decrease r (i + 1)))
  | decreased {τ : Task} {r : Cb} {i : Socket} {cb : SelectCb Task}
      (here : s.pc τ = .decrease r i) (record : s.selectCb r = some cb) (done : cb.maxfdp1 ≤ i) :
      Moves s (.countWaiting τ) (s.setPc τ (.unlink r))
  | scan {τ : Task} {ready : Bool} {r : Cb} (here : s.pc τ = .scan r) :
      Moves s (.scan τ ready)
        (s.setPc τ (if ready then .decrease r lwipSocketOffset else .semWait r))
  | takes {τ : Task} {r : Cb} {cb : SelectCb Task} (here : s.pc τ = .semWait r)
      (record : s.selectCb r = some cb) (free : cb.sem = true) :
      Moves s (.semTake τ)
        ((s.setCb r { cb with sem := false }).setPc τ (.decrease r lwipSocketOffset))
  | blocks {τ : Task} {r : Cb} {cb : SelectCb Task} (here : s.pc τ = .semWait r)
      (record : s.selectCb r = some cb) (taken : cb.sem = false) :
      Moves s (.semTake τ) (s.setPc τ (.blocked r))
  | unblock {τ : Task} {r : Cb} (here : s.pc τ = .blocked r) :
      Moves s (.unblock τ) (s.setPc τ (.semWait r))
  | timeout {τ : Task} {r : Cb} {cb : SelectCb Task} (here : s.pc τ = .semWait r)
      (record : s.selectCb r = some cb) (late : (cb.timed && !cb.sem) = true) :
      Moves s (.timeout τ) (s.setPc τ (.decrease r lwipSocketOffset))
  | unlink {τ : Task} {r : Cb} (here : s.pc τ = .unlink r) :
      Moves s (.unlink τ) (s.unregister τ r)
  | selectReturns {τ : Task} {r : Cb} (here : s.pc τ = .unlinked r) :
      Moves s (.selectReturns τ)
        { s.setPc τ .idle with gone := Function.update s.gone r true }
  | event {e : Task} {i : Socket} {evt : NetconnEvt} (here : s.pc e = .idle) :
      Moves s (.event e i evt) (s.eventCallback prio e i evt)
  | switchedIn {e : Task} {i : Socket} {r : Cb} (here : s.pc e = .switchedOut i r) :
      Moves s (.switchedIn e) (s.sample e i r)
  | reprotect {e : Task} {i : Socket} {r : Cb} {last : BitVec 32} {n : Nat}
      (here : s.pc e = .unprotected i r last n) :
      Moves s (.reprotect e) (s.reprotect prio e i r last)

variable {prio lwipSocketOffset}

theorem moves_of_step {s t : State Task} {a : Action Task}
    (hstep : step prio lwipSocketOffset s a = some t) : Moves prio lwipSocketOffset s a t := by
  cases a with
  | select τ readset writeset exceptset maxfdp1 timed =>
    simp only [step] at hstep
    split at hstep
    · next hτ =>
      cases hstep
      exact .select hτ
    · cases hstep
  | countWaiting τ =>
    simp only [step] at hstep
    split at hstep
    · next hτ =>
      obtain ⟨cb, hcb, rfl⟩ := Option.map_eq_some_iff.mp hstep
      split
      · next hlt => exact .increase hτ hcb hlt
      · next hge => exact .increased hτ hcb (Nat.le_of_not_lt hge)
    · next hτ =>
      obtain ⟨cb, hcb, rfl⟩ := Option.map_eq_some_iff.mp hstep
      split
      · next hlt => exact .decrease hτ hcb hlt
      · next hge => exact .decreased hτ hcb (Nat.le_of_not_lt hge)
    · cases hstep
  | scan τ ready =>
    simp only [step] at hstep
    split at hstep
    · next hτ =>
      cases hstep
      exact .scan hτ
    · cases hstep
  | semTake τ =>
    simp only [step] at hstep
    split at hstep
    · next hτ =>
      obtain ⟨cb, hcb, rfl⟩ := Option.map_eq_some_iff.mp hstep
      split
      · next hfree => exact .takes hτ hcb hfree
      · next htaken => exact .blocks hτ hcb (Bool.eq_false_iff.mpr htaken)
    · cases hstep
  | unblock τ =>
    simp only [step] at hstep
    split at hstep
    · next hτ =>
      cases hstep
      exact .unblock hτ
    · cases hstep
  | timeout τ =>
    simp only [step] at hstep
    split at hstep
    · next hτ =>
      split at hstep
      · next hcb =>
        split at hstep
        · next hlate =>
          cases hstep
          exact .timeout hτ hcb hlate
        · cases hstep
      · cases hstep
    · cases hstep
  | unlink τ =>
    simp only [step] at hstep
    split at hstep
    · next hτ =>
      cases hstep
      exact .unlink hτ
    · cases hstep
  | selectReturns τ =>
    simp only [step] at hstep
    split at hstep
    · next hτ =>
      cases hstep
      exact .selectReturns hτ
    · cases hstep
  | event e i evt =>
    simp only [step] at hstep
    split at hstep
    · next he =>
      cases hstep
      exact .event he
    · cases hstep
  | switchedIn e =>
    simp only [step] at hstep
    split at hstep
    · next he =>
      cases hstep
      exact .switchedIn he
    · cases hstep
  | reprotect e =>
    simp only [step] at hstep
    split at hstep
    · next he =>
      cases hstep
      exact .reprotect he
    · cases hstep

end Step

/-! ## The walk and the list -/

/-- The record that a task has on the list. -/
def Pc.linked : Pc → Option Cb
  | .increase r _ => some r
  | .scan r => some r
  | .semWait r => some r
  | .blocked r => some r
  | .decrease r _ => some r
  | .unlink r => some r
  | _ => none

/-- The record on the stack of a task. -/
def Pc.record : Pc → Option Cb
  | .unlinked r => some r
  | pc => pc.linked

/-- A walker may go on from the record it stands at, or will see that the list has changed. -/
def Pc.WalkOk (pc : Pc) (changes : Nat) (rs : List Cb) : Prop :=
  match pc with
  | .switchedOut _ r => r ∈ rs
  | .unprotected _ r last n => last = BitVec.ofNat 32 n ∧ n ≤ changes ∧ (n = changes → r ∈ rs)
  | _ => True

/-- The list holds the records `rs`, those of the waiting calls. -/
structure SelectInv (s : State Task) (rs : List Cb) : Prop where
  holds : s.list.Holds rs
  mem : ∀ r, r ∈ rs ↔ ∃ τ, (s.pc τ).linked = some r
  owner : ∀ τ r, (s.pc τ).record = some r → ∃ cb, s.selectCb r = some cb ∧ cb.task = τ
  fresh : ∀ r, s.calls ≤ r → s.selectCb r = none
  gone : ∀ r ∈ rs, s.gone r = false
  goneFresh : ∀ r, s.calls ≤ r → s.gone r = false
  walk : ∀ e, (s.pc e).WalkOk s.changes rs
  ctr : s.selectCbCtr = BitVec.ofNat 32 s.changes
  accesses : ∀ x ∈ s.accesses, x.gone = false

/-- No record of a call that has returned was accessed. -/
def AccessesLive (s : State Task) : Prop :=
  ∀ x ∈ s.accesses, x.gone = false

omit [DecidableEq Task] in
theorem Pc.record_of_linked {pc : Pc} {r : Cb} (h : pc.linked = some r) : pc.record = some r := by
  cases pc <;> first | exact h | cases h

omit [DecidableEq Task] in
@[simp] theorem State.addWaiting_pc (s : State Task) (cb : SelectCb Task) (i : Socket) (n : Int) :
    (s.addWaiting cb i n).pc = s.pc := by
  unfold State.addWaiting
  split <;> rfl

namespace SelectInv

variable {s : State Task} {rs : List Cb} {r : Cb} {τ e : Task} {i : Socket}

omit [DecidableEq Task] in
theorem init (sock : Socket → LwipSock) : SelectInv (init sock : State Task) [] where
  holds := ⟨rfl, List.nodup_nil⟩
  mem r := ⟨nofun, fun ⟨τ, hτ⟩ => by cases hτ⟩
  owner := nofun
  fresh _ _ := rfl
  gone := nofun
  goneFresh _ _ := rfl
  walk _ := trivial
  ctr := rfl
  accesses := nofun

omit [DecidableEq Task] in
theorem known (h : SelectInv s rs) (hr : r ∈ rs) :
    ∃ cb, s.selectCb r = some cb ∧ (s.pc cb.task).linked = some r := by
  obtain ⟨τ, hτ⟩ := (h.mem r).mp hr
  obtain ⟨cb, hcb, rfl⟩ := h.owner τ r (Pc.record_of_linked hτ)
  exact ⟨cb, hcb, hτ⟩

omit [DecidableEq Task] in
theorem unlinked_not_mem (h : SelectInv s rs) (hτ : s.pc τ = .unlinked r) : r ∉ rs := by
  intro hr
  obtain ⟨cb, hcb, hlinked⟩ := h.known hr
  obtain ⟨cb', hcb', htask⟩ := h.owner τ r (by rw [hτ]; rfl)
  rw [hcb] at hcb'
  cases hcb'
  rw [htask, hτ] at hlinked
  cases hlinked

omit [DecidableEq Task] in
theorem calls_not_mem (h : SelectInv s rs) : s.calls ∉ rs := by
  intro hr
  obtain ⟨cb, hcb, -⟩ := h.known hr
  rw [h.fresh s.calls (Nat.le_refl _)] at hcb
  cases hcb

omit [DecidableEq Task] in
theorem touch (h : SelectInv s rs) (hr : r ∈ rs) : SelectInv (s.touch r) rs :=
  { h with
    accesses := fun x hx => by
      rcases List.mem_append.mp hx with hold | hlast
      · exact h.accesses x hold
      · rw [List.mem_singleton.mp hlast]
        exact h.gone r hr }

omit [DecidableEq Task] in
theorem setSock (h : SelectInv s rs) (i : Socket) (sock : LwipSock) :
    SelectInv (s.setSock i sock) rs :=
  { h with }

omit [DecidableEq Task] in
theorem setCb (h : SelectInv s rs) {cb cb' : SelectCb Task} (hcb : s.selectCb r = some cb)
    (htask : cb'.task = cb.task) : SelectInv (s.setCb r cb') rs :=
  { h with
    owner := fun τ q hq => by
      obtain ⟨cb₀, hcb₀, hτ⟩ := h.owner τ q hq
      simp only [State.setCb]
      by_cases hqr : q = r
      · subst hqr
        rw [hcb] at hcb₀
        cases hcb₀
        exact ⟨cb', Function.update_self .., htask.trans hτ⟩
      · exact ⟨cb₀, by rw [Function.update_of_ne hqr, hcb₀], hτ⟩
    fresh := fun q hq => by
      have hnone := h.fresh q hq
      have hqr : q ≠ r := by
        rintro rfl
        rw [hcb] at hnone
        cases hnone
      simp only [State.setCb, Function.update_of_ne hqr]
      exact hnone }

theorem setPc (h : SelectInv s rs) {pc : Pc} (hlinked : pc.linked = (s.pc τ).linked)
    (hrecord : ∀ r, pc.record = some r → (s.pc τ).record = some r)
    (hwalk : pc.WalkOk s.changes rs) : SelectInv (s.setPc τ pc) rs := by
  refine { h with mem := fun r => ?_, owner := fun τ' r hr => ?_, walk := fun e => ?_ }
  · rw [h.mem r]
    have hsame : ∀ τ', ((s.setPc τ pc).pc τ').linked = (s.pc τ').linked := by
      intro τ'
      simp only [State.setPc]
      by_cases hτ : τ' = τ
      · rw [hτ, Function.update_self, hlinked]
      · rw [Function.update_of_ne hτ]
    simp only [hsame]
  · rcases update_cases (fun p : Pc => p.record = some r) hr with ⟨rfl, hr'⟩ | ⟨-, hr'⟩
    · exact h.owner τ' r (hrecord r hr')
    · exact h.owner τ' r hr'
  · simp only [State.setPc]
    by_cases he : e = τ
    · rw [he, Function.update_self]
      exact hwalk
    · rw [Function.update_of_ne he]
      exact h.walk e

theorem goesOn (h : SelectInv s rs) (hτ : (s.pc τ).linked = some r) {pc : Pc}
    (hpc : pc.linked = some r) : SelectInv (s.setPc τ pc) rs := by
  refine h.setPc (hpc.trans hτ.symm) (fun q hq => ?_) ?_
  · rw [Pc.record_of_linked hpc] at hq
    cases hq
    exact Pc.record_of_linked hτ
  · cases pc <;> trivial

omit [DecidableEq Task] in
theorem addWaiting (h : SelectInv s rs) (cb : SelectCb Task) (i : Socket) (n : Int) :
    SelectInv (s.addWaiting cb i n) rs := by
  unfold State.addWaiting
  split
  · exact h.setSock i _
  · exact h

/-! ### `event_callback` -/

theorem sample (h : SelectInv s rs) (hr : r ∈ rs) (he : (s.pc e).linked = none) :
    SelectInv (s.sample e i r) rs := by
  unfold State.sample
  exact (h.touch hr).setPc he.symm nofun ⟨h.ctr, Nat.le_refl _, fun _ => hr⟩

theorem signal (prio : Task → Nat) (h : SelectInv s rs) (hr : r ∈ rs) {cb : SelectCb Task}
    (hcb : s.selectCb r = some cb) (he : (s.pc e).linked = none) :
    SelectInv (s.signal prio e i r cb) rs := by
  have hset : SelectInv (s.setCb r { cb with semSignalled := true, sem := true }) rs :=
    h.setCb hcb rfl
  unfold State.signal
  simp only
  split
  · next hblocked =>
    have hwoken : SelectInv ((s.setCb r { cb with semSignalled := true, sem := true }).setPc
        cb.task (.semWait r)) rs :=
      hset.setPc (by rw [hblocked]; rfl) (fun q hq => by rw [hblocked]; exact hq) trivial
    have hne : e ≠ cb.task := by
      intro heq
      have hlinked : (s.pc e).linked = some r := by
        rw [heq]
        exact congrArg Pc.linked hblocked
      rw [he] at hlinked
      cases hlinked
    have he' : (((s.setCb r { cb with semSignalled := true, sem := true }).setPc
        cb.task (.semWait r)).pc e).linked = none := by
      simp only [State.setPc, Function.update_of_ne hne]
      exact he
    split
    · exact hwoken.setPc he'.symm nofun hr
    · exact hwoken.sample hr he'
  · exact hset.sample hr he

theorem walk_step (prio : Task → Nat) (h : SelectInv s rs) {scb : Option Cb}
    (hscb : ∀ r, scb = some r → r ∈ rs) (he : (s.pc e).linked = none) :
    SelectInv (s.walk prio e i scb) rs := by
  unfold State.walk
  split
  · exact h.setPc he.symm nofun trivial
  · next r =>
    have hr := hscb r rfl
    have htouch := h.touch hr
    simp only
    split
    · exact htouch
    · next cb hcb =>
      split
      · exact htouch.signal prio hr hcb he
      · exact htouch.sample hr he

omit [DecidableEq Task] in
theorem head_mem (h : SelectInv s rs) : ∀ r, s.list.head = some r → r ∈ rs :=
  fun _ hr => h.holds.head_mem hr

theorem eventCallback (prio : Task → Nat) (h : SelectInv s rs) (he : s.pc e = .idle)
    (evt : NetconnEvt) : SelectInv (s.eventCallback prio e i evt) rs := by
  have hset := h.setSock i ((s.sock i).setEvent evt)
  unfold State.eventCallback
  simp only
  split
  · exact hset
  · exact hset.walk_step prio h.head_mem (by simp only [State.setSock, he]; rfl)

omit [DecidableEq Task] in
theorem eq_changes (h : SelectInv s rs) {last : BitVec 32} {n : Nat}
    (hlast : last = BitVec.ofNat 32 n) (heq : last = s.selectCbCtr)
    (hctr : s.changes ≠ n → ¬ 2 ^ 32 ∣ s.changes - n) : n = s.changes := by
  by_contra hne
  have hval : s.selectCbCtr.toNat = last.toNat := by rw [heq]
  rw [hlast, h.ctr, BitVec.toNat_ofNat, BitVec.toNat_ofNat] at hval
  exact hctr (Ne.symm hne) (Nat.dvd_of_mod_eq_zero (Nat.sub_mod_eq_zero_of_mod_eq hval))

theorem reprotect (prio : Task → Nat) (h : SelectInv s rs) {last : BitVec 32} {n : Nat}
    (he : s.pc e = .unprotected i r last n)
    (hctr : s.changes ≠ n → ¬ 2 ^ 32 ∣ s.changes - n) :
    SelectInv (s.reprotect prio e i r last) rs := by
  have hwalk := h.walk e
  rw [he] at hwalk
  obtain ⟨hlast, hle, hsame⟩ := hwalk
  have hlinked : (s.pc e).linked = none := by rw [he]; rfl
  unfold State.reprotect
  split
  · exact h.walk_step prio h.head_mem hlinked
  · next heq =>
    have hr : r ∈ rs := hsame (h.eq_changes hlast (not_not.mp heq) hctr)
    exact (h.touch hr).walk_step prio (fun q hq => h.holds.next_mem hr hq) hlinked

/-! ### `lwip_select` -/

theorem walkOk_succ {pc : Pc} {n : Nat} {rs' : List Cb} (h : pc.WalkOk n rs)
    (hkeep : ∀ i r, pc = .switchedOut i r → r ∈ rs') : pc.WalkOk (n + 1) rs' := by
  cases pc with
  | switchedOut i r => exact hkeep i r rfl
  | unprotected i r last m =>
    obtain ⟨hlast, hle, -⟩ := h
    refine ⟨hlast, by omega, fun heq => ?_⟩
    omega
  | _ => trivial

theorem register (h : SelectInv s rs) (hτ : s.pc τ = .idle) {cb : SelectCb Task}
    (htask : cb.task = τ) (first : Socket) :
    SelectInv (s.register τ cb first) (s.calls :: rs) := by
  have hnew := h.calls_not_mem
  have hpc : ∀ τ', (s.register τ cb first).pc τ' =
      if τ' = τ then .increase s.calls first else s.pc τ' :=
    fun τ' => Function.update_apply ..
  have hcb : ∀ r, (s.register τ cb first).selectCb r =
      if r = s.calls then some cb else s.selectCb r :=
    fun r => Function.update_apply ..
  refine ⟨h.holds.push hnew, fun r => ?_, fun τ' r hr => ?_, fun r hr => ?_, fun r hr => ?_,
    fun r hr => ?_, fun e => ?_, ?_, h.accesses⟩
  · constructor
    · intro hr
      rcases List.mem_cons.mp hr with rfl | hr
      · exact ⟨τ, by rw [hpc, if_pos rfl]; rfl⟩
      · obtain ⟨τ', hτ'⟩ := (h.mem r).mp hr
        refine ⟨τ', ?_⟩
        rw [hpc, if_neg]
        · exact hτ'
        · rintro rfl
          rw [hτ] at hτ'
          cases hτ'
    · rintro ⟨τ', hτ'⟩
      rw [hpc] at hτ'
      split at hτ'
      · cases hτ'
        exact List.mem_cons_self
      · exact List.mem_cons_of_mem _ ((h.mem r).mpr ⟨τ', hτ'⟩)
  · rw [hpc] at hr
    split at hr
    · next heq =>
      cases hr
      exact ⟨cb, by rw [hcb, if_pos rfl], htask.trans heq.symm⟩
    · obtain ⟨cb', hcb', htask'⟩ := h.owner τ' r hr
      refine ⟨cb', ?_, htask'⟩
      rw [hcb, if_neg]
      · exact hcb'
      · rintro rfl
        rw [h.fresh s.calls (Nat.le_refl _)] at hcb'
        cases hcb'
  · have hle : s.calls + 1 ≤ r := hr
    rw [hcb, if_neg (Nat.ne_of_gt hle)]
    exact h.fresh r (Nat.le_of_succ_le hle)
  · rcases List.mem_cons.mp hr with rfl | hr
    · exact h.goneFresh s.calls (Nat.le_refl _)
    · exact h.gone r hr
  · exact h.goneFresh r (Nat.le_of_succ_le hr)
  · rw [hpc]
    split
    · trivial
    · refine walkOk_succ (h.walk e) fun i r he => List.mem_cons_of_mem _ ?_
      have hwalk := h.walk e
      rw [he] at hwalk
      exact hwalk
  · change s.selectCbCtr + 1 = BitVec.ofNat 32 (s.changes + 1)
    rw [h.ctr, BitVec.ofNat_add]
    rfl

theorem unregister (h : SelectInv s rs) (hτ : s.pc τ = .unlink r)
    (hstays : ∀ e i, s.pc e ≠ .switchedOut i r) : SelectInv (s.unregister τ r) (rs.erase r) := by
  have hr : r ∈ rs := (h.mem r).mpr ⟨τ, by rw [hτ]; rfl⟩
  have hpc : ∀ τ', (s.unregister τ r).pc τ' = if τ' = τ then .unlinked r else s.pc τ' :=
    fun τ' => Function.update_apply ..
  refine ⟨h.holds.unlink hr, fun q => ?_, fun τ' q hq => ?_, h.fresh, fun q hq => ?_,
    h.goneFresh, fun e => ?_, ?_, h.accesses⟩
  · rw [h.holds.nodup.mem_erase_iff, h.mem q]
    constructor
    · rintro ⟨hqr, τ', hτ'⟩
      refine ⟨τ', ?_⟩
      rw [hpc, if_neg]
      · exact hτ'
      · rintro rfl
        rw [hτ] at hτ'
        cases hτ'
        exact hqr rfl
    · rintro ⟨τ', hτ'⟩
      rw [hpc] at hτ'
      split at hτ'
      · cases hτ'
      · next hne =>
        refine ⟨?_, τ', hτ'⟩
        -- A record is linked by one task only.
        rintro rfl
        obtain ⟨cb, hcb, rfl⟩ := h.owner τ' q (Pc.record_of_linked hτ')
        obtain ⟨cb', hcb', rfl⟩ := h.owner τ q (by rw [hτ]; rfl)
        rw [hcb] at hcb'
        cases hcb'
        exact hne rfl
  · rw [hpc] at hq
    split at hq
    · next heq =>
      cases hq
      rw [heq]
      exact h.owner τ r (by rw [hτ]; rfl)
    · exact h.owner τ' q hq
  · exact h.gone q (List.mem_of_mem_erase hq)
  · rw [hpc]
    split
    · trivial
    · refine walkOk_succ (h.walk e) fun i q he => ?_
      have hwalk := h.walk e
      rw [he] at hwalk
      refine (h.holds.nodup.mem_erase_iff).mpr ⟨?_, hwalk⟩
      rintro rfl
      exact hstays e i he
  · change s.selectCbCtr + 1 = BitVec.ofNat 32 (s.changes + 1)
    rw [h.ctr, BitVec.ofNat_add]
    rfl

theorem selectReturns (h : SelectInv s rs) (hτ : s.pc τ = .unlinked r) :
    SelectInv { s.setPc τ .idle with gone := Function.update s.gone r true } rs := by
  have hr := h.unlinked_not_mem hτ
  obtain ⟨cb, hcb, -⟩ := h.owner τ r (by rw [hτ]; rfl)
  have hidle : SelectInv (s.setPc τ .idle) rs :=
    h.setPc (by rw [hτ]; rfl) nofun trivial
  have hgone : ∀ q, q ≠ r → Function.update s.gone r true q = s.gone q :=
    fun q hq => Function.update_of_ne hq ..
  refine { hidle with gone := fun q hq => ?_, goneFresh := fun q hq => ?_ }
  · refine (hgone q ?_).trans (h.gone q hq)
    rintro rfl
    exact hr hq
  · refine (hgone q ?_).trans (h.goneFresh q hq)
    rintro rfl
    rw [h.fresh q hq] at hcb
    cases hcb

end SelectInv

/-! ## Runs -/

/-- The record at which a switched out `event_callback` stands. -/
def Pc.standsAt : Pc → Option Cb
  | .switchedOut _ r => some r
  | _ => none

/-- How many changes of the list `last_select_cb_ctr` stands for. -/
def Pc.sampled : Pc → Option Nat
  | .unprotected _ _ _ n => some n
  | _ => none

/-- No record is unlinked while an `event_callback` is switched out in `sys_sem_signal` there. -/
def SelectStays (s : State Task) : Action Task → Prop
  | .unlink τ => ∀ e, ∀ r ∈ (s.pc e).standsAt, s.pc τ ≠ .unlink r
  | _ => True

/-- The counter has not come around to the value that was sampled. -/
def CtrTells (s : State Task) : Action Task → Prop
  | .reprotect e => ∀ n ∈ (s.pc e).sampled, s.changes ≠ n → ¬ 2 ^ 32 ∣ s.changes - n
  | _ => True

/-- The two conditions under which a walk keeps to the list. -/
def WalkSafe (s : State Task) (a : Action Task) (_ : State Task) : Prop :=
  SelectStays s a ∧ CtrTells s a

instance [Fintype Task] (s : State Task) : (a : Action Task) → Decidable (SelectStays s a)
  | .unlink τ => inferInstanceAs (Decidable (∀ e, ∀ r ∈ (s.pc e).standsAt, s.pc τ ≠ .unlink r))
  | .select .. | .countWaiting _ | .scan .. | .semTake _ | .unblock _ | .timeout _
  | .selectReturns _ | .event .. | .switchedIn _ | .reprotect _ => .isTrue trivial

instance (s : State Task) : (a : Action Task) → Decidable (CtrTells s a)
  | .reprotect e => inferInstanceAs
      (Decidable (∀ n ∈ (s.pc e).sampled, s.changes ≠ n → ¬ 2 ^ 32 ∣ s.changes - n))
  | .select .. | .countWaiting _ | .scan .. | .semTake _ | .unblock _ | .timeout _ | .unlink _
  | .selectReturns _ | .event .. | .switchedIn _ => .isTrue trivial

instance [Fintype Task] (s : State Task) (a : Action Task) (t : State Task) :
    Decidable (WalkSafe s a t) :=
  inferInstanceAs (Decidable (_ ∧ _))

theorem step_inv {prio : Task → Nat} {offset : Nat} {s t : State Task} {rs : List Cb}
    {a : Action Task} (h : SelectInv s rs) (hstep : step prio offset s a = some t)
    (hsafe : WalkSafe s a t) : ∃ rs', SelectInv t rs' := by
  obtain ⟨hstays, hctr⟩ := hsafe
  cases moves_of_step hstep with
  | select hτ => exact ⟨_, h.register hτ rfl offset⟩
  | @increase τ r i cb hτ =>
    exact ⟨rs, (h.addWaiting cb i 1).goesOn (by rw [State.addWaiting_pc, hτ]; rfl) rfl⟩
  | @decrease τ r i cb hτ =>
    exact ⟨rs, (h.addWaiting cb i (-1)).goesOn (by rw [State.addWaiting_pc, hτ]; rfl) rfl⟩
  | @scan τ ready r hτ =>
    refine ⟨rs, h.goesOn (r := r) (by rw [hτ]; rfl) ?_⟩
    cases ready <;> rfl
  | @takes τ r cb hτ hcb =>
    have htaken : SelectInv (s.setCb r { cb with sem := false }) rs := h.setCb hcb rfl
    exact ⟨rs, htaken.goesOn (r := r) (congrArg Pc.linked hτ) rfl⟩
  | increased hτ | decreased hτ | blocks hτ | unblock hτ | timeout hτ =>
    exact ⟨rs, h.goesOn (by rw [hτ]; rfl) rfl⟩
  | @unlink τ r hτ =>
    refine ⟨_, h.unregister hτ fun e i he => ?_⟩
    exact hstays e r (by rw [he]; rfl) hτ
  | selectReturns hτ => exact ⟨rs, h.selectReturns hτ⟩
  | event he => exact ⟨rs, h.eventCallback prio he _⟩
  | @switchedIn e i r he =>
    have hr := h.walk e
    rw [he] at hr
    exact ⟨rs, h.sample hr (by rw [he]; rfl)⟩
  | reprotect he => exact ⟨rs, h.reprotect prio he (hctr _ (by rw [he]; rfl))⟩

/-- A call that unlinks its record while a walker is switched out there can return before
the walker goes on. -/
theorem walker_left_behind {prio : Task → Nat} {offset : Nat} {s : State Task} {τ e : Task}
    {i : Socket} {r : Cb} (hτ : s.pc τ = .unlink r) (he : s.pc e = .switchedOut i r) :
    ∃ u, run (step prio offset) s [.unlink τ, .selectReturns τ, .switchedIn e] = some u ∧
      ¬ AccessesLive u := by
  have hne : e ≠ τ := by
    rintro rfl
    rw [hτ] at he
    cases he
  let t := s.unregister τ r
  let v : State Task := { t.setPc τ .idle with gone := Function.update t.gone r true }
  have hunlink : step prio offset s (.unlink τ) = some t := by
    simp only [step, hτ, t]
  have hreturns : step prio offset t (.selectReturns τ) = some v := by
    have htpc : t.pc τ = .unlinked r := Function.update_self ..
    simp only [step, htpc, v]
  have hin : step prio offset v (.switchedIn e) = some (v.sample e i r) := by
    have hvpc : v.pc e = .switchedOut i r := by
      change Function.update (Function.update s.pc τ _) τ _ e = _
      rw [Function.update_of_ne hne, Function.update_of_ne hne, he]
    simp only [step, hvpc]
  refine ⟨v.sample e i r, ?_, fun hlive => ?_⟩
  · rw [run_cons, hunlink, Option.bind_some, run_cons, hreturns, Option.bind_some, run_cons, hin]
    rfl
  · have hlast : (⟨r, true⟩ : Access) ∈ (v.sample e i r).accesses := by
      have hgone : v.gone r = true := Function.update_self ..
      rw [← hgone]
      exact List.mem_append_right _ List.mem_cons_self
    cases hlive _ hlast

/-- The walk of `event_callback` accesses live records only, as long as no record is unlinked
under a walker that is switched out there, and the counter does not come around. -/
theorem walk_records_live (prio : Task → Nat) (offset : Nat) (sock : Socket → LwipSock)
    (as : List (Action Task)) (s : State Task)
    (hrun : run (step prio offset) (init sock) as = some s) :
    (EveryStep (step prio offset) WalkSafe (init sock) as → AccessesLive s) ∧
      ∀ τ e i r, s.pc τ = .unlink r → s.pc e = .switchedOut i r →
        ∃ u, run (step prio offset) s [.unlink τ, .selectReturns τ, .switchedIn e] = some u ∧
          ¬ AccessesLive u := by
  refine ⟨fun hsafe => ?_, fun τ e i r hτ he => walker_left_behind hτ he⟩
  have hinv : ∃ rs, SelectInv s rs := by
    refine run_invariant_under (I := fun s => ∃ rs, SelectInv s rs) (fun u a v hu hstep hP => ?_)
      ⟨[], SelectInv.init sock⟩ hsafe hrun
    obtain ⟨rs, hrs⟩ := hu
    exact step_inv hrs hstep hP
  obtain ⟨rs, hrs⟩ := hinv
  exact hrs.accesses

/-- No socket has data, and no call waits for one. -/
def quiet : Socket → LwipSock :=
  fun _ => { rcvevent := 0, sendevent := false, errevent := false, selectWaiting := 0 }

/-- Task 0 waits for data on socket 32, it comes in through task 1, and task 0 is about to
unlink its record. -/
def dataComesIn : List (Action (Fin 2)) :=
  [.select 0 (fun i => i == 32) (fun _ => false) (fun _ => false) 33 false, .countWaiting 0,
    .countWaiting 0, .scan 0 false, .semTake 0, .event 1 32 .rcvplus, .semTake 0,
    .countWaiting 0, .countWaiting 0]

/-- With the priority of task 0 below that of task 1 the walk goes on before the record is
unlinked; with its priority above that it is left behind. -/
theorem walk_records_live_priorities :
    (∃ s, run (step (fun τ : Fin 2 => τ.val) 32) (init quiet)
        (dataComesIn ++ [.unlink 0, .selectReturns 0, .reprotect 1]) = some s ∧
      s.accesses = [⟨0, false⟩, ⟨0, false⟩] ∧ AccessesLive s) ∧
      ∃ s u, run (step (fun τ : Fin 2 => 1 - τ.val) 32) (init quiet) dataComesIn = some s ∧
        run (step (fun τ : Fin 2 => 1 - τ.val) 32) s [.unlink 0, .selectReturns 0, .switchedIn 1] =
          some u ∧ ¬ AccessesLive u := by
  constructor
  · have hruns : (run (step (fun τ : Fin 2 => τ.val) 32) (init quiet)
        (dataComesIn ++ [.unlink 0, .selectReturns 0, .reprotect 1])).map State.accesses =
          some [⟨0, false⟩, ⟨0, false⟩] := by
      decide +kernel
    obtain ⟨s, hrun, haccesses⟩ := Option.map_eq_some_iff.mp hruns
    refine ⟨s, hrun, haccesses, (walk_records_live _ 32 quiet _ s hrun).1 ?_⟩
    decide +kernel
  · have hruns : (run (step (fun τ : Fin 2 => 1 - τ.val) 32) (init quiet) dataComesIn).map
        (fun s => (s.pc 0, s.pc 1)) = some (.unlink 0, .switchedOut 32 0) := by
      decide +kernel
    obtain ⟨s, hrun, hpcs⟩ := Option.map_eq_some_iff.mp hruns
    obtain ⟨hτ, he⟩ := Prod.mk.inj hpcs
    obtain ⟨u, hu, hdead⟩ := (walk_records_live _ 32 quiet _ s hrun).2 0 1 32 0 hτ he
    exact ⟨s, u, hrun, hu, hdead⟩

/-- The walk reads the record of a call that has returned, whose task has the higher priority. -/
theorem walk_reads_dead_record :
    ¬ ∀ (prio : Fin 2 → Nat) (as : List (Action (Fin 2))) (s : State (Fin 2)),
      run (step prio 32) (init quiet) as = some s → AccessesLive s := by
  intro hclaim
  have hruns : (run (step (fun τ : Fin 2 => 1 - τ.val) 32) (init quiet)
      (dataComesIn ++ [.unlink 0, .selectReturns 0, .switchedIn 1])).map State.accesses =
        some [⟨0, false⟩, ⟨0, true⟩] := by
    decide +kernel
  obtain ⟨s, hrun, haccesses⟩ := Option.map_eq_some_iff.mp hruns
  have hlive := hclaim (fun τ => 1 - τ.val) _ s hrun ⟨0, true⟩ (by rw [haccesses]; simp)
  cases hlive

end FreeLwip.Sockets
