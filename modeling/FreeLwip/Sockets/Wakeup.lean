import FreeLwip.Sockets.Waiting

/-!
# Wake-ups of `lwip_select` (`sockets.c`)

The walk of `event_callback`, with the checks of addresses that the fork has put into it, against
the second scan of the waiting calls. The sections under SYS_ARCH_PROTECT exclude each other:
while a task is switched out in one of them, no other task comes into one.
-/

namespace FreeLwip.Sockets.Wakeup

open Run Linked TaskCount

variable {Task : Type*}

/-- `p < 0x00800000 || p > 0x00ffffff` -/
def outOfRange (p : BitVec 32) : Bool :=
  p < 0x00800000#32 || 0x00ffffff#32 < p

/-- The walk runs into NIOS2_BREAK when it has looked at `scb`. -/
def breaks (addr : Cb → BitVec 32) (next : Option Cb) (scb : Cb) : Bool :=
  match next with
  | some q => outOfRange (addr q) || outOfRange (addr scb)
  | none => outOfRange (addr scb)

structure Walks (Task : Type*) where
  base : State Task
  lastdata : Socket → Bool
  -- `i` and `nready` of the second `lwip_selscan` of each task.
  scanned : Task → Socket
  nready : Task → Bool
  /-- The task that is switched out under SYS_ARCH_PROTECT. -/
  protector : Option Task
  /-- An `event_callback` has run into NIOS2_BREAK. -/
  broken : Bool
  -- The history: the calls that each `event_callback` has to wake, because their socket is
  -- ready from the event on.
  owes : Task → Cb → Bool

section Step

variable (prio : Task → Nat) (lwipSocketOffset : Nat) (addr : Cb → BitVec 32)

/-- What `lwip_selscan` takes for a ready socket. -/
def scanReady (w : Walks Task) (cb : SelectCb Task) (i : Socket) : Bool :=
  (cb.readset i && (w.lastdata i || decide ((w.base.sock i).rcvevent > 0))) ||
    (cb.writeset i && (w.base.sock i).sendevent) || (cb.exceptset i && (w.base.sock i).errevent)

inductive Act (Task : Type*)
  | base (a : Action Task)
  /-- One turn of the second `lwip_selscan`. -/
  | scanSock (τ : Task)
  | scanEnd (τ : Task)
  /-- `lwip_recvfrom` keeps what it has not copied, or has copied the last of it. -/
  | recvfrom (i : Socket) (lastdata : Bool)

/-- The step enters a section under SYS_ARCH_PROTECT. -/
def protects : Act Task → Bool
  | .base (.select ..) | .base (.countWaiting _) | .base (.unlink _) => true
  | .base (.event ..) | .base (.reprotect _) => true
  | .scanSock _ => true
  | _ => false

/-- The socket whose event the task walks the list for. -/
def walksFor : Pc → Option Socket
  | .switchedOut i _ => some i
  | .unprotected i _ _ _ => some i
  | _ => none

/-- After a turn of `event_callback` has led to `t`. -/
def walked (w : Walks Task) (e : Task) (t : State Task) : Walks Task :=
  match t.pc e with
  | .switchedOut _ _ => { w with base := t, protector := some e }
  | .unprotected _ r _ _ =>
    { w with base := t, protector := none, broken := breaks addr (t.list.next r) r }
  | _ => { w with base := t, protector := none }

variable [DecidableEq Task]

/-- An event has come at socket `i`: it has to wake the calls that ask for what is ready now,
and the walks that are under way keep to what is ready still. -/
def owesAfter (w : Walks Task) (e : Task) (i : Socket) (t : State Task) (e' : Task) (r : Cb) :
    Bool :=
  if e' = e then ready lwipSocketOffset t r i
  else w.owes e' r && (walksFor (w.base.pc e') ≠ some i || ready lwipSocketOffset t r i)

/-- A step of the tasks has led to `t`. -/
def moved (w : Walks Task) (t : State Task) : Action Task → Walks Task
  | .event e i _ => { walked addr w e t with owes := owesAfter lwipSocketOffset w e i t }
  | .switchedIn e => walked addr w e t
  | .reprotect e => walked addr w e t
  | .countWaiting τ =>
    -- The loop of the scan comes after this one.
    { w with
      base := t
      scanned := Function.update w.scanned τ lwipSocketOffset
      nready := Function.update w.nready τ false }
  | _ => { w with base := t }

def turn (w : Walks Task) : Act Task → Option (Walks Task)
  | .base (.scan _ _) => none
  | .base a => (Sockets.step prio lwipSocketOffset w.base a).map fun t =>
    moved lwipSocketOffset addr w t a
  | .scanSock τ =>
    match w.base.pc τ with
    | .scan r =>
      match w.base.selectCb r with
      | some cb =>
        if w.scanned τ < cb.maxfdp1 then
          some { w with
            scanned := Function.update w.scanned τ (w.scanned τ + 1)
            nready := Function.update w.nready τ
              (w.nready τ || scanReady w cb (w.scanned τ)) }
        else
          none
      | none => none
    | _ => none
  | .scanEnd τ =>
    match w.base.pc τ with
    | .scan r =>
      match w.base.selectCb r with
      | some cb =>
        if w.scanned τ < cb.maxfdp1 then none
        else (Sockets.step prio lwipSocketOffset w.base (.scan τ (w.nready τ))).map fun t =>
          { w with base := t }
      | none => none
    | _ => none
  | .recvfrom i lastdata => some { w with lastdata := Function.update w.lastdata i lastdata }

/-- Nothing goes on from NIOS2_BREAK. -/
def step (w : Walks Task) (a : Act Task) : Option (Walks Task) :=
  if w.broken || (w.protector.isSome && protects a) then none
  else turn prio lwipSocketOffset addr w a

end Step

/-- No call waits. -/
def init (sock : Socket → LwipSock) (lastdata : Socket → Bool) : Walks Task where
  base := Sockets.init fun i => { sock i with selectWaiting := 0 }
  lastdata := lastdata
  scanned _ := 0
  nready _ := false
  protector := none
  broken := false
  owes _ _ := false

/-! ## Wake-ups -/

/-- The second scan of the call has gone past socket `i` without a find. -/
def passed (scanned : Socket) (nready : Bool) (r : Cb) (i : Socket) : Pc → Prop
  | .scan q => q = r ∧ i < scanned ∧ nready = false
  | .semWait q => q = r
  | .blocked q => q = r
  | _ => False

/-- The call goes to sleep, or sleeps, and no event has woken it. -/
def Unwoken (w : Walks Task) (τ : Task) (r : Cb) (i : Socket) : Prop :=
  passed (w.scanned τ) (w.nready τ) r i (w.base.pc τ) ∧ signalled w.base r = false

/-- Whatever a sleeping call asks for, if it is ready, an event is on its way to the call. -/
def NoneLost (lwipSocketOffset : Nat) (w : Walks Task) : Prop :=
  ∀ τ r i, Unwoken w τ r i → ready lwipSocketOffset w.base r i = true →
    ∃ e, walksFor (w.base.pc e) = some i ∧ w.owes e r = true

/-- An `event_callback` that returns leaves nobody asleep whom it had to wake. -/
def Returned (w : Walks Task) (a : Act Task) (v : Walks Task) : Prop :=
  match a with
  | .base (.event e i _) =>
    v.base.pc e = .idle → ∀ τ r, v.owes e r = true → ¬ Unwoken v τ r i
  | .base (.reprotect e) =>
    ∀ i, walksFor (w.base.pc e) = some i → v.base.pc e = .idle →
      ∀ τ r, v.owes e r = true → ¬ Unwoken v τ r i
  | _ => True

/-- The record that the walk comes to. -/
def comesTo (s : State Task) : Action Task → Option Cb
  | .event _ i _ => if (s.sock i).selectWaiting = 0 then none else s.list.head
  | .switchedIn e =>
    match s.pc e with
    | .switchedOut _ r => some r
    | _ => none
  | .reprotect e =>
    match s.pc e with
    | .unprotected _ r last _ => if last ≠ s.selectCbCtr then s.list.head else s.list.next r
    | _ => none
  | _ => none

/-- The records at which a walk stops, and the ones behind them, are where the checks want them;
and the counter of the list tells. -/
def WalkOk (addr : Cb → BitVec 32) (w : Walks Task) (a : Act Task) (_ : Walks Task) : Prop :=
  match a with
  | .base a => (∀ r ∈ comesTo w.base a, breaks addr (w.base.list.next r) r = false) ∧
      CtrTells w.base a
  | _ => True

/-- The walk comes to the record yet, or will see that the list has changed. -/
def Ahead (changes : Nat) (rs : List Cb) (r : Cb) : Pc → Prop
  | .switchedOut _ q => r ∈ after q rs
  | .unprotected _ q _ n => n = changes → r ∈ after q rs
  | _ => False

structure WakeInv [DecidableEq Task] [Fintype Task] (lwipSocketOffset : Nat) (w : Walks Task)
    (rs : List Cb) : Prop where
  select : SelectInv w.base rs
  waiting : WaitingInv lwipSocketOffset w.base
  protector : ∀ e i r, w.base.pc e = .switchedOut i r → w.protector = some e
  broken : w.broken = false
  owed : ∀ e i r, walksFor (w.base.pc e) = some i → w.owes e r = true →
    ready lwipSocketOffset w.base r i = true
  ahead : ∀ e i r, walksFor (w.base.pc e) = some i → w.owes e r = true → r ∈ rs →
    signalled w.base r = true ∨ Ahead w.base.changes rs r (w.base.pc e)
  noneLost : NoneLost lwipSocketOffset w

/-- What a turn of `event_callback` in task `e` leaves of the other tasks. -/
structure TurnOf (w v : Walks Task) (e : Task) : Prop where
  pc : ∀ τ, τ ≠ e →
    v.base.pc τ = w.base.pc τ ∨ ∃ r, w.base.pc τ = .blocked r ∧ v.base.pc τ = .semWait r
  signalled : ∀ r, signalled w.base r = true → signalled v.base r = true
  scan : v.scanned = w.scanned ∧ v.nready = w.nready

section Lemmas

variable {scanned : Socket} {nready : Bool} {pc : Pc} {r : Cb} {i : Socket}

theorem linked_of_passed (h : passed scanned nready r i pc) : pc.linked = some r := by
  cases pc with
  | scan q => exact congrArg some h.1
  | semWait q => exact congrArg some h
  | blocked q => exact congrArg some h
  | _ => cases h

theorem linked_of_walksFor (h : walksFor pc = some i) : pc.linked = none := by
  cases pc <;> first | rfl | cases h

theorem marks_of_passed {offset : Nat} {s : State Task} (h : passed scanned nready r i pc)
    (hselected : selected offset s r i = true) : marks offset s i pc = true := by
  cases pc with
  | scan q =>
    obtain ⟨rfl, -⟩ := h
    exact hselected
  | semWait q =>
    cases h
    exact hselected
  | blocked q =>
    cases h
    exact hselected
  | _ => cases h

namespace TurnOf

variable {w v : Walks Task} {e e' τ : Task}

theorem walker (h : TurnOf w v e) (hne : e' ≠ e) (hwalks : walksFor (v.base.pc e') = some i) :
    v.base.pc e' = w.base.pc e' := by
  rcases h.pc e' hne with hsame | ⟨q, -, hq⟩
  · exact hsame
  · rw [hq] at hwalks
    cases hwalks

theorem walks (h : TurnOf w v e) (hne : e' ≠ e) (hwalks : walksFor (w.base.pc e') = some i) :
    walksFor (v.base.pc e') = some i := by
  rcases h.pc e' hne with hsame | ⟨q, hq, -⟩
  · rw [hsame]
    exact hwalks
  · rw [hq] at hwalks
    cases hwalks

theorem unwoken_before (h : TurnOf w v e) (hself : (v.base.pc e).linked = none)
    (hu : Unwoken v τ r i) : Unwoken w τ r i := by
  obtain ⟨hp, hs⟩ := hu
  rw [h.scan.1, h.scan.2] at hp
  refine ⟨?_, ?_⟩
  · have hne : τ ≠ e := by
      rintro rfl
      rw [linked_of_passed hp] at hself
      cases hself
    rcases h.pc τ hne with hsame | ⟨q, hw, hv⟩
    · rwa [hsame] at hp
    · rw [hv] at hp
      rw [hw]
      exact hp
  · cases hw : Sockets.signalled w.base r with
    | false => rfl
    | true =>
      rw [h.signalled r hw] at hs
      cases hs

end TurnOf

end Lemmas

section Invariant

variable [DecidableEq Task] [Fintype Task] {offset : Nat} {w v : Walks Task} {rs rs' : List Cb}
  {τ e : Task} {r : Cb} {i : Socket}

namespace WakeInv

theorem mem_of_unwoken (h : WakeInv offset w rs) (hu : Unwoken w τ r i) : r ∈ rs :=
  (h.select.mem r).mpr ⟨τ, linked_of_passed hu.1⟩

theorem side (h : WakeInv offset w rs) (τ : Task) (hselect : SelectInv v.base rs')
    (hwaiting : WaitingInv offset v.base) (hpc : ∀ σ, σ ≠ τ → v.base.pc σ = w.base.pc σ)
    (hold : walksFor (w.base.pc τ) = none) (hnew : walksFor (v.base.pc τ) = none)
    (hkeep : v.protector = w.protector ∧ v.broken = w.broken ∧ v.owes = w.owes)
    (hscan : ∀ σ, σ ≠ τ → v.scanned σ = w.scanned σ ∧ v.nready σ = w.nready σ)
    (hcb : ∀ r, w.base.selectCb r ≠ none → signalled v.base r = signalled w.base r ∧
      ∀ i, ready offset v.base r i = ready offset w.base r i)
    (hahead : ∀ e i r, walksFor (w.base.pc e) = some i → w.owes e r = true → r ∈ rs' →
      r ∈ rs ∧ (Ahead w.base.changes rs r (w.base.pc e) →
        Ahead v.base.changes rs' r (w.base.pc e)))
    (hunwoken : ∀ r i, Unwoken v τ r i → ready offset v.base r i = true →
      Unwoken w τ r i ∧ w.base.selectCb r ≠ none) :
    WakeInv offset v rs' := by
  obtain ⟨hprotector, hbroken, howes⟩ := hkeep
  -- A walker is another task than the one that steps.
  have hwalker : ∀ e i, walksFor (v.base.pc e) = some i → v.base.pc e = w.base.pc e := by
    intro e i he
    apply hpc
    rintro rfl
    rw [hnew] at he
    cases he
  refine ⟨hselect, hwaiting, fun e i r he => ?_, hbroken.trans h.broken, fun e i r he ho => ?_,
    fun e i r he ho hr => ?_, fun σ r i hu hready => ?_⟩
  · have hsame := hwalker e i (by rw [he]; rfl)
    rw [hprotector]
    exact h.protector e i r (hsame ▸ he)
  · rw [hwalker e i he] at he
    rw [howes] at ho
    have hready := h.owed e i r he ho
    rwa [(hcb r (known_of_ready hready)).2 i]
  · rw [hwalker e i he]
    rw [hwalker e i he] at he
    rw [howes] at ho
    obtain ⟨hr', hmove⟩ := hahead e i r he ho hr
    rw [(hcb r (known_of_ready (h.owed e i r he ho))).1]
    exact (h.ahead e i r he ho hr').imp_right hmove
  · have hu' : Unwoken w σ r i ∧ w.base.selectCb r ≠ none := by
      by_cases hσ : σ = τ
      · subst hσ
        exact hunwoken r i hu hready
      · obtain ⟨hp, hs⟩ := hu
        rw [hpc σ hσ, (hscan σ hσ).1, (hscan σ hσ).2] at hp
        obtain ⟨cb, hcb', -⟩ := h.select.owner σ r (Pc.record_of_linked (linked_of_passed hp))
        have hknown : w.base.selectCb r ≠ none := by simp [hcb']
        rw [(hcb r hknown).1] at hs
        exact ⟨⟨hp, hs⟩, hknown⟩
    rw [(hcb r hu'.2).2 i] at hready
    obtain ⟨e, he, ho⟩ := h.noneLost σ r i hu'.1 hready
    refine ⟨e, ?_, by rw [howes]; exact ho⟩
    rw [hpc e]
    · exact he
    · rintro rfl
      rw [hold] at he
      cases he

theorem side_same (h : WakeInv offset w rs) (τ : Task) (hselect : ∃ rs', SelectInv v.base rs')
    (hwaiting : WaitingInv offset v.base) (hpc : ∀ σ, σ ≠ τ → v.base.pc σ = w.base.pc σ)
    (hold : walksFor (w.base.pc τ) = none) (hnew : walksFor (v.base.pc τ) = none)
    (hkeep : v.protector = w.protector ∧ v.broken = w.broken ∧ v.owes = w.owes)
    (hlist : v.base.list = w.base.list ∧ v.base.changes = w.base.changes)
    (hscan : ∀ σ, σ ≠ τ → v.scanned σ = w.scanned σ ∧ v.nready σ = w.nready σ)
    (hcb : ∀ r, signalled v.base r = signalled w.base r ∧
      ∀ i, ready offset v.base r i = ready offset w.base r i)
    (hunwoken : ∀ r i, passed (v.scanned τ) (v.nready τ) r i (v.base.pc τ) →
      ready offset w.base r i = true →
        passed (w.scanned τ) (w.nready τ) r i (w.base.pc τ)) :
    WakeInv offset v rs := by
  obtain ⟨rs', hselect⟩ := hselect
  have hholds : w.base.list.Holds rs' := hlist.1 ▸ hselect.holds
  obtain rfl := h.select.holds.unique hholds
  refine h.side τ hselect hwaiting hpc hold hnew hkeep hscan (fun r _ => hcb r)
    (fun e i r _ _ hr => ⟨hr, fun ha => by rwa [hlist.2]⟩) fun r i hu hready => ?_
  obtain ⟨hp, hs⟩ := hu
  rw [(hcb r).2 i] at hready
  rw [(hcb r).1] at hs
  exact ⟨⟨hunwoken r i hp hready, hs⟩, known_of_ready hready⟩

theorem not_switchedOut (h : WakeInv offset w rs) (hnone : w.protector = none) (e : Task)
    (i : Socket) (r : Cb) : w.base.pc e ≠ .switchedOut i r := by
  intro he
  have hsome := h.protector e i r he
  rw [hnone] at hsome
  cases hsome

theorem ahead_succ (h : WakeInv offset w rs) (hnone : w.protector = none) {rs' : List Cb}
    (he : walksFor (w.base.pc e) = some i) :
    Ahead (w.base.changes + 1) rs' r (w.base.pc e) := by
  have hwalk := h.select.walk e
  cases hpc : w.base.pc e with
  | switchedOut j q => exact absurd hpc (h.not_switchedOut hnone e j q)
  | unprotected j q last n =>
    -- it will see that the list has changed
    rw [hpc] at hwalk
    intro hn
    have hle := hwalk.2.1
    omega
  | _ =>
    rw [hpc] at he
    cases he

theorem register (h : WakeInv offset w rs) (hnone : w.protector = none)
    (hτ : w.base.pc τ = .idle) {cb : SelectCb Task} (htask : cb.task = τ) :
    WakeInv offset { w with base := w.base.register τ cb offset } (w.base.calls :: rs) := by
  have hself : (w.base.register τ cb offset).pc τ = .increase w.base.calls offset :=
    Function.update_self ..
  have hcb : ∀ r, w.base.selectCb r ≠ none →
      (w.base.register τ cb offset).selectCb r = w.base.selectCb r := by
    intro r hr
    apply Function.update_of_ne
    rintro rfl
    exact hr (h.select.fresh _ (Nat.le_refl _))
  refine h.side τ (h.select.register hτ htask offset) (h.waiting.register h.select hτ cb)
    (fun σ hσ => Function.update_of_ne hσ ..) (by rw [hτ]; rfl) (by rw [hself]; rfl)
    ⟨rfl, rfl, rfl⟩ (fun _ _ => ⟨rfl, rfl⟩) (fun r hr => ?_) (fun e i r he ho hr => ?_)
    fun r i hu _ => ?_
  · refine ⟨by simp only [signalled, hcb r hr], fun i => ?_⟩
    simp only [ready, hcb r hr]
    rfl
  · refine ⟨?_, fun _ => h.ahead_succ hnone he⟩
    have hknown := known_of_ready (h.owed e i r he ho)
    refine (List.mem_cons.mp hr).resolve_left ?_
    rintro rfl
    exact hknown (h.select.fresh _ (Nat.le_refl _))
  · have hp : passed (w.scanned τ) (w.nready τ) r i ((w.base.register τ cb offset).pc τ) := hu.1
    rw [hself] at hp
    cases hp

theorem unregister (h : WakeInv offset w rs) (hnone : w.protector = none)
    (hτ : w.base.pc τ = .unlink r) (hwaiting : WaitingInv offset (w.base.unregister τ r)) :
    WakeInv offset { w with base := w.base.unregister τ r } (rs.erase r) := by
  have hself : (w.base.unregister τ r).pc τ = .unlinked r := Function.update_self ..
  refine h.side τ (h.select.unregister hτ fun e i => h.not_switchedOut hnone e i r) hwaiting
    (fun σ hσ => Function.update_of_ne hσ ..) (by rw [hτ]; rfl) (by rw [hself]; rfl)
    ⟨rfl, rfl, rfl⟩ (fun _ _ => ⟨rfl, rfl⟩) (fun _ _ => ⟨rfl, fun _ => rfl⟩)
    (fun e i q he ho hq => ?_) fun q i hu _ => ?_
  · exact ⟨List.mem_of_mem_erase hq, fun _ => h.ahead_succ hnone he⟩
  · have hp : passed (w.scanned τ) (w.nready τ) q i ((w.base.unregister τ r).pc τ) := hu.1
    rw [hself] at hp
    cases hp

theorem turned (h : WakeInv offset w rs) (hturn : TurnOf w v e) (hselect : SelectInv v.base rs)
    (hwaiting : WaitingInv offset v.base) (hchanges : v.base.changes = w.base.changes)
    (hout : ∀ e', e' ≠ e → ∀ i r, w.base.pc e' ≠ .switchedOut i r)
    (hprotector : ∀ i r, v.base.pc e = .switchedOut i r → v.protector = some e)
    (hbroken : v.broken = false)
    (howes : ∀ e', e' ≠ e → ∀ i r, walksFor (w.base.pc e') = some i → v.owes e' r = true →
      w.owes e' r = true ∧ ready offset v.base r i = true)
    (hself : ∀ i r, walksFor (v.base.pc e) = some i → v.owes e r = true →
      ready offset v.base r i = true ∧
        (r ∈ rs → signalled v.base r = true ∨ Ahead v.base.changes rs r (v.base.pc e)))
    (hnone : NoneLost offset v) : WakeInv offset v rs := by
  refine ⟨hselect, hwaiting, fun e' i r he => ?_, hbroken, fun e' i r he ho => ?_,
    fun e' i r he ho hr => ?_, hnone⟩
  · by_cases hne : e' = e
    · subst hne
      exact hprotector i r he
    · have hsame := hturn.walker (i := i) hne (by rw [he]; rfl)
      exact absurd (hsame ▸ he) (hout e' hne i r)
  · by_cases hne : e' = e
    · subst hne
      exact (hself i r he ho).1
    · rw [hturn.walker hne he] at he
      exact (howes e' hne i r he ho).2
  · by_cases hne : e' = e
    · subst hne
      exact (hself i r he ho).2 hr
    · have hsame := hturn.walker hne he
      rw [hsame] at he
      rw [hchanges, hsame]
      exact (h.ahead e' i r he (howes e' hne i r he ho).1 hr).imp_left (hturn.signalled r)

end WakeInv

omit [Fintype Task] in
theorem walk_spec (offset : Nat) {s : State Task} (prio : Task → Nat) (h : SelectInv s rs)
    {rest : List Cb} {scb : Option Cb} (hscb : scb = rest.head?)
    (hrest : ∀ q post, rest = q :: post → q ∈ rs ∧ after q rs = post) :
    (rest = [] ∧ (s.walk prio e i scb).pc e = .idle) ∨
      ∃ q post, rest = q :: post ∧ walksFor ((s.walk prio e i scb).pc e) = some i ∧
        (ready offset s q i = true → signalled (s.walk prio e i scb) q = true) ∧
        ∀ r ∈ post, Ahead (s.walk prio e i scb).changes rs r ((s.walk prio e i scb).pc e) := by
  cases rest with
  | nil =>
    subst hscb
    exact .inl ⟨rfl, Function.update_self ..⟩
  | cons q post =>
    subst hscb
    obtain ⟨hq, hafter⟩ := hrest q post rfl
    obtain ⟨cb, hcb, -⟩ := h.known hq
    obtain ⟨hpc, hsignal⟩ := walk_record offset (e := e) (i := i) prio hcb
    refine .inr ⟨q, post, rfl, ?_, hsignal, fun r hr => ?_⟩
    · rcases hpc with hpc | hpc
      · exact (congrArg walksFor hpc).trans rfl
      · exact (congrArg walksFor hpc).trans rfl
    · rw [← hafter] at hr
      rcases hpc with hpc | hpc
      · change Ahead _ rs r ((s.walk prio e i (some q)).pc e)
        rw [hpc]
        exact hr
      · change Ahead _ rs r ((s.walk prio e i (some q)).pc e)
        rw [hpc]
        exact fun _ => hr

omit [Fintype Task] in
theorem walk_stands {s : State Task} (prio : Task → Nat) (h : SelectInv s rs) {scb : Option Cb}
    (hscb : ∀ q, scb = some q → q ∈ rs) {j : Socket} {last : BitVec 32} {n : Nat}
    (hpc : (s.walk prio e i scb).pc e = .unprotected j r last n) : scb = some r := by
  cases scb with
  | none =>
    simp only [State.walk, State.setPc, Function.update_self] at hpc
    cases hpc
  | some q =>
    obtain ⟨cb, hcb, -⟩ := h.known (hscb q rfl)
    rcases (walk_record 0 (e := e) (i := i) prio hcb).1 with hq | hq
    · rw [hq] at hpc
      cases hpc
    · rw [hq] at hpc
      cases hpc
      rfl

section Walked

variable {addr : Cb → BitVec 32} {t : State Task}

omit [DecidableEq Task] [Fintype Task]

@[simp] theorem walked_base : (walked addr w e t).base = t := by
  unfold walked
  split <;> rfl

@[simp] theorem walked_owes : (walked addr w e t).owes = w.owes := by
  unfold walked
  split <;> rfl

theorem walked_scan : (walked addr w e t).scanned = w.scanned ∧
    (walked addr w e t).nready = w.nready := by
  unfold walked
  split <;> exact ⟨rfl, rfl⟩

theorem walked_protector (h : t.pc e = .switchedOut i r) :
    (walked addr w e t).protector = some e := by
  unfold walked
  simp only [h]

theorem walked_broken (hw : w.broken = false) (h : ∀ i r last n,
    t.pc e = .unprotected i r last n → breaks addr (t.list.next r) r = false) :
    (walked addr w e t).broken = false := by
  unfold walked
  split
  · exact hw
  · next i r last n he => exact h i r last n he
  · exact hw

end Walked

theorem WakeInv.event_turn {t : State Task} (h : WakeInv offset w rs) (prio : Task → Nat)
    (he : w.base.pc e = .idle) (evt : NetconnEvt) (ht : t = w.base.eventCallback prio e i evt)
    (hbase : v.base = t) (hturn : TurnOf w v e) :
    (t.pc e = .idle ∧ ∀ τ r, Unwoken v τ r i → ready offset t r i = false) ∨
      (walksFor (t.pc e) = some i ∧ ∀ r ∈ rs, ready offset t r i = true →
        signalled t r = true ∨ Ahead t.changes rs r (t.pc e)) := by
  have hframe : Frame (w.base.setSock i ((w.base.sock i).setEvent evt)) t e :=
    ht ▸ Frame.eventCallback prio w.base e i evt
  have hwaiting : WaitingInv offset t := ht ▸ h.waiting.eventCallback prio he evt
  rw [eventCallback_eq] at ht
  split at ht
  · next hzero =>
    refine .inl ⟨by rw [ht]; exact he, fun τ r hu => ?_⟩
    have hmarks : marks offset t i (t.pc τ) = false :=
      hwaiting.not_marks (by rw [ht]; cases evt <;> simpa [State.setSock, LwipSock.setEvent]) τ
    by_contra hready
    have hp := hu.1
    rw [hbase] at hp
    rw [marks_of_passed hp (selected_of_ready (by simpa using hready))] at hmarks
    cases hmarks
  · have hset := h.select.setSock i ((w.base.sock i).setEvent evt)
    rcases walk_spec offset (e := e) (i := i) prio hset hset.holds.head_eq
      (fun q post hq => by subst hq; exact ⟨List.mem_cons_self, after_cons_self⟩)
      with ⟨hnil, hidle⟩ | ⟨q, post, hq, hwalks, hsignal, hahead⟩
    · have hreturns : t.pc e = .idle := by rw [ht]; exact hidle
      refine .inl ⟨hreturns, fun τ r hu => ?_⟩
      have hself : (v.base.pc e).linked = none := by
        rw [hbase, hreturns]
        rfl
      have hr := h.mem_of_unwoken (hturn.unwoken_before hself hu)
      rw [hnil] at hr
      cases hr
    · refine .inr ⟨by rw [ht]; exact hwalks, fun r hr hready => ?_⟩
      rw [hq] at hr
      rcases List.mem_cons.mp hr with rfl | hr
      · rw [ready_congr hframe.wants (by rw [hframe.sock])] at hready
        exact .inl (ht ▸ hsignal hready)
      · exact .inr (ht ▸ hahead r hr)

theorem WakeInv.event {addr : Cb → BitVec 32} (h : WakeInv offset w rs) (prio : Task → Nat)
    (hnone : w.protector = none) (he : w.base.pc e = .idle) (evt : NetconnEvt)
    (hok : ∀ q ∈ comesTo w.base (.event e i evt), breaks addr (w.base.list.next q) q = false)
    (hv : v = moved offset addr w (w.base.eventCallback prio e i evt) (.event e i evt)) :
    WakeInv offset v rs ∧
      (v.base.pc e = .idle → ∀ τ r, v.owes e r = true → ¬ Unwoken v τ r i) := by
  obtain ⟨t, ht⟩ : ∃ t, t = w.base.eventCallback prio e i evt := ⟨_, rfl⟩
  have hframe : Frame (w.base.setSock i ((w.base.sock i).setEvent evt)) t e :=
    ht ▸ Frame.eventCallback prio w.base e i evt
  have hselect : SelectInv t rs := ht ▸ h.select.eventCallback prio he evt
  have hwaiting : WaitingInv offset t := ht ▸ h.waiting.eventCallback prio he evt
  have hbase : v.base = t := by rw [hv, ht]; exact walked_base
  have howes : v.owes = owesAfter offset w e i t := by rw [hv, ht]; rfl
  have hturn : TurnOf w v e := by
    refine ⟨hbase ▸ hframe.pc, hbase ▸ hframe.signalled, ?_⟩
    rw [hv]
    exact walked_scan
  have hbroken : v.broken = false := by
    rw [hv, ← ht]
    refine walked_broken h.broken fun j r last n hpc => ?_
    rw [hframe.list]
    refine hok r ?_
    rw [ht, eventCallback_eq] at hpc
    split at hpc
    · cases he.symm.trans hpc
    · next hwaiting =>
      simp only [comesTo, if_neg hwaiting]
      exact walk_stands prio (h.select.setSock i _) h.select.head_mem hpc
  have hself : ∀ r, v.owes e r = ready offset t r i := by
    intro r
    rw [howes]
    exact if_pos rfl
  have hothers : ∀ e' r, e' ≠ e → v.owes e' r =
      (w.owes e' r && (walksFor (w.base.pc e') ≠ some i || ready offset t r i)) := by
    intro e' r hne
    rw [howes]
    exact if_neg hne
  have hother : ∀ k, k ≠ i → ∀ r, ready offset t r k = ready offset w.base r k := by
    intro k hk r
    refine ready_congr (s := w.base) hframe.wants ?_
    rw [hframe.sock]
    exact Function.update_of_ne hk ..
  have hcases := h.event_turn (i := i) prio he evt ht hbase hturn
  have hidle : t.pc e = .idle → ∀ τ r, Unwoken v τ r i → ready offset t r i = false := by
    intro hpc
    rcases hcases with ⟨-, hnobody⟩ | ⟨hwalks, -⟩
    · exact hnobody
    · rw [hpc] at hwalks
      cases hwalks
  refine ⟨h.turned hturn (hbase ▸ hselect) (hbase ▸ hwaiting) (by rw [hbase, hframe.changes]; rfl)
    (fun e' _ k r => h.not_switchedOut hnone e' k r) (fun k r hout => ?_) hbroken
    (fun e' hne k r hk ho => ?_) (fun k r hk ho => ?_) fun τ r k hu hready => ?_,
    fun hpc τ r ho hu => ?_⟩
  · rw [hbase, ht] at hout
    rw [hv]
    exact walked_protector hout
  · rw [hothers e' r hne, hk, Bool.and_eq_true] at ho
    refine ⟨ho.1, ?_⟩
    rw [hbase]
    by_cases hki : k = i
    · simpa [hki] using ho.2
    · rw [hother k hki]
      exact h.owed e' k r hk ho.1
  · rw [hself] at ho
    rw [hbase] at hk ⊢
    rcases hcases with ⟨hpc, -⟩ | ⟨hwalks, hahead⟩
    · rw [hpc] at hk
      cases hk
    · rw [hwalks] at hk
      cases hk
      exact ⟨ho, fun hr => hahead r hr ho⟩
  · rw [hbase] at hready ⊢
    by_cases hki : k = i
    · subst hki
      rcases hcases with ⟨-, hnobody⟩ | ⟨hwalks, -⟩
      · rw [hnobody τ r hu] at hready
        cases hready
      · exact ⟨e, hwalks, by rw [hself]; exact hready⟩
    · have hlinked : (v.base.pc e).linked = none := by
        rw [hbase]
        rcases hcases with ⟨hpc, -⟩ | ⟨hwalks, -⟩
        · rw [hpc]
          rfl
        · exact linked_of_walksFor hwalks
      rw [hother k hki] at hready
      obtain ⟨e', he', ho⟩ := h.noneLost τ r k (hturn.unwoken_before hlinked hu) hready
      have hne : e' ≠ e := by
        rintro rfl
        rw [he] at he'
        cases he'
      refine ⟨e', hbase ▸ hturn.walks hne he', ?_⟩
      rw [hothers e' r hne, he', ho]
      simp [hki]
  · rw [hself] at ho
    rw [hbase] at hpc
    rw [hidle hpc τ r hu] at ho
    cases ho

theorem WakeInv.goesOn {addr : Cb → BitVec 32} {t : State Task} (h : WakeInv offset w rs)
    (he : walksFor (w.base.pc e) = some i)
    (hout : ∀ e', e' ≠ e → ∀ i r, w.base.pc e' ≠ .switchedOut i r) (hframe : Frame w.base t e)
    (hselect : SelectInv t rs) (hwaiting : WaitingInv offset t)
    (hpcs : t.pc e = .idle ∨ walksFor (t.pc e) = some i)
    (hrest : ∀ r ∈ rs, w.owes e r = true →
      signalled t r = true ∨ Ahead t.changes rs r (t.pc e))
    (hok : ∀ j r last n, t.pc e = .unprotected j r last n →
      breaks addr (t.list.next r) r = false) :
    WakeInv offset (walked addr w e t) rs ∧ (t.pc e = .idle →
      ∀ τ r, w.owes e r = true → ¬ Unwoken (walked addr w e t) τ r i) := by
  obtain ⟨v, hv⟩ : ∃ v, v = walked addr w e t := ⟨_, rfl⟩
  have hbase : v.base = t := by rw [hv]; exact walked_base
  have howes : v.owes = w.owes := by rw [hv]; exact walked_owes
  have hturn : TurnOf w v e := by
    refine ⟨hbase ▸ hframe.pc, hbase ▸ hframe.signalled, ?_⟩
    rw [hv]
    exact walked_scan
  have hlinked : (v.base.pc e).linked = none := by
    rw [hbase]
    rcases hpcs with hpc | hwalks
    · rw [hpc]
      rfl
    · exact linked_of_walksFor hwalks
  have hready : ∀ r k, ready offset v.base r k = ready offset w.base r k := by
    intro r k
    rw [hbase]
    exact ready_congr hframe.wants (by rw [hframe.sock])
  have hdone : v.base.pc e = .idle → ∀ τ r, w.owes e r = true → ¬ Unwoken v τ r i := by
    intro hidle τ r ho hu
    have hr := h.mem_of_unwoken (hturn.unwoken_before hlinked hu)
    rw [hbase] at hidle
    rcases hrest r hr ho with hwoken | hahead
    · rw [← hbase, hu.2] at hwoken
      cases hwoken
    · rw [hidle] at hahead
      cases hahead
  rw [← hv]
  refine ⟨h.turned hturn (hbase ▸ hselect) (hbase ▸ hwaiting) (by rw [hbase, hframe.changes])
    hout (fun k r hk => ?_) (by rw [hv]; exact walked_broken h.broken hok)
    (fun e' hne k r hk ho => ?_) (fun k r hk ho => ?_) fun τ r k hu hr => ?_,
    fun hidle => hdone (hbase ▸ hidle)⟩
  · rw [hv]
    rw [hbase] at hk
    exact walked_protector hk
  · rw [howes] at ho
    rw [hready]
    exact ⟨ho, h.owed e' k r hk ho⟩
  · rw [howes] at ho
    rw [hbase] at hk
    have hki : k = i := by
      rcases hpcs with hpc | hwalks
      · rw [hpc] at hk
        cases hk
      · exact Option.some.inj (hk.symm.trans hwalks)
    rw [hready, hki, hbase]
    exact ⟨h.owed e i r he ho, fun hr => hrest r hr ho⟩
  · rw [hready] at hr
    obtain ⟨e', he', ho⟩ :=
      h.noneLost τ r k (hturn.unwoken_before hlinked hu) hr
    rw [howes]
    by_cases hne : e' = e
    · subst hne
      cases he.symm.trans he'
      refine ⟨e', ?_, ho⟩
      rcases hpcs with hidle | hwalks
      · exact absurd hu (hdone (by rw [hbase, hidle]) τ r ho)
      · rw [hbase]
        exact hwalks
    · exact ⟨e', hturn.walks hne he', ho⟩

theorem WakeInv.switchedIn {addr : Cb → BitVec 32} {q : Cb} (h : WakeInv offset w rs)
    (he : w.base.pc e = .switchedOut i q)
    (hok : ∀ r ∈ comesTo w.base (.switchedIn e), breaks addr (w.base.list.next r) r = false) :
    WakeInv offset (walked addr w e (w.base.sample e i q)) rs := by
  have hself : (w.base.sample e i q).pc e = .unprotected i q w.base.selectCbCtr w.base.changes :=
    Function.update_self ..
  have hwalks : walksFor (w.base.pc e) = some i := by rw [he]; rfl
  have hq : q ∈ rs := by
    have hwalk := h.select.walk e
    rw [he] at hwalk
    exact hwalk
  have hlinked : (w.base.pc e).linked = none := by rw [he]; rfl
  have hframe := Frame.sample w.base e i q
  refine (h.goesOn hwalks (fun e' hne k r hk => hne ?_) hframe (h.select.sample hq hlinked)
    (h.waiting.frame hframe hlinked (by rw [hself]; rfl)) (.inr (by rw [hself]; rfl))
    (fun r hr ho => ?_) fun j r last n hpc => ?_).1
  · have hprotector := (h.protector e' k r hk).symm.trans (h.protector e i q he)
    exact Option.some.inj hprotector
  · refine (h.ahead e i r hwalks ho hr).imp_right fun hahead => ?_
    rw [he] at hahead
    rw [hself]
    exact fun _ => hahead
  · rw [hself] at hpc
    cases hpc
    exact hok q (by simp [comesTo, he])

theorem WakeInv.reprotect {addr : Cb → BitVec 32} {q : Cb} {last : BitVec 32} {n : Nat}
    (h : WakeInv offset w rs) (prio : Task → Nat) (hnone : w.protector = none)
    (he : w.base.pc e = .unprotected i q last n)
    (hok : ∀ r ∈ comesTo w.base (.reprotect e), breaks addr (w.base.list.next r) r = false)
    (hctr : w.base.changes ≠ n → ¬ 2 ^ 32 ∣ w.base.changes - n) :
    WakeInv offset (walked addr w e (w.base.reprotect prio e i q last)) rs ∧
      ((w.base.reprotect prio e i q last).pc e = .idle → ∀ τ r, w.owes e r = true →
        ¬ Unwoken (walked addr w e (w.base.reprotect prio e i q last)) τ r i) := by
  obtain ⟨t, ht⟩ : ∃ t, t = w.base.reprotect prio e i q last := ⟨_, rfl⟩
  have hwalks : walksFor (w.base.pc e) = some i := by rw [he]; rfl
  have hlinked : (w.base.pc e).linked = none := by rw [he]; rfl
  have hframe : Frame w.base t e := ht ▸ Frame.reprotect prio w.base e i q last
  have hselect : SelectInv t rs := ht ▸ h.select.reprotect prio he hctr
  have hwaiting : WaitingInv offset t := ht ▸ h.waiting.reprotect prio hlinked q last
  obtain ⟨hlast, hle, hsame⟩ : last = BitVec.ofNat 32 n ∧ n ≤ w.base.changes ∧
      (n = w.base.changes → q ∈ rs) := by
    have hwalk := h.select.walk e
    rwa [he] at hwalk
  -- The walk starts again, or goes on behind `q`.
  obtain ⟨s, rest, hs, hst, hrest, howed⟩ : ∃ s rest, SelectInv s rs ∧
      (∃ scb, scb = rest.head? ∧ t = s.walk prio e i scb ∧
        comesTo w.base (.reprotect e) = scb ∧ Frame w.base s e) ∧
      (∀ r post, rest = r :: post → r ∈ rs ∧ after r rs = post) ∧
      ∀ r ∈ rs, w.owes e r = true → signalled w.base r = true ∨ r ∈ rest := by
    unfold State.reprotect at ht
    split at ht
    · next hchanged =>
      refine ⟨w.base, rs, h.select, ⟨_, h.select.holds.head_eq, ht, ?_, Frame.refl _ e⟩,
        fun r post hr => ?_, fun r hr _ => .inr hr⟩
      · simp only [comesTo, he, if_pos hchanged]
      · subst hr
        exact ⟨List.mem_cons_self, after_cons_self⟩
    · next hunchanged =>
      have hn := h.select.eq_changes hlast (not_not.mp hunchanged) hctr
      have hq := hsame hn
      refine ⟨w.base.touch q, after q rs, h.select.touch hq,
        ⟨_, h.select.holds.next_eq hq, ht, ?_, Frame.touch _ e q⟩, fun r post hr => ?_,
        fun r hr ho => ?_⟩
      · simp only [comesTo, he, if_neg hunchanged]
      · refine ⟨mem_of_mem_after (x := q) ?_, after_of_after_eq_cons h.select.holds.nodup hr⟩
        rw [hr]
        exact List.mem_cons_self
      · refine (h.ahead e i r hwalks ho hr).imp_right fun hahead => ?_
        rw [he] at hahead
        exact hahead hn
  obtain ⟨scb, hscb, htw, hcomes, hfs⟩ := hst
  have hmem : ∀ r, scb = some r → r ∈ rs := by
    intro r hr
    cases hcons : rest with
    | nil =>
      rw [hscb, hcons] at hr
      cases hr
    | cons q' post =>
      rw [hscb, hcons] at hr
      cases hr
      exact (hrest _ post hcons).1
  have hok' : ∀ j r last n, t.pc e = .unprotected j r last n →
      breaks addr (t.list.next r) r = false := by
    intro j r last n hpc
    rw [hframe.list]
    refine hok r ?_
    rw [hcomes]
    rw [htw] at hpc
    exact walk_stands prio hs hmem hpc
  have hturn := walk_spec offset (e := e) (i := i) prio hs hscb hrest
  rw [← htw] at hturn
  rw [← ht]
  refine h.goesOn hwalks (fun e' _ => h.not_switchedOut hnone e') hframe hselect hwaiting
    (hturn.imp And.right fun ⟨_, _, _, hw, _⟩ => hw) (fun r hr ho => ?_) hok'
  rcases howed r hr ho with hwoken | hr'
  · exact .inl (hframe.signalled r hwoken)
  rcases hturn with ⟨hnil, -⟩ | ⟨q', post, hcons, -, hsignal, hahead⟩
  · rw [hnil] at hr'
    cases hr'
  · rw [hcons] at hr'
    rcases List.mem_cons.mp hr' with rfl | hr'
    · refine .inl (hsignal ?_)
      rw [ready_congr hfs.wants (by rw [hfs.sock])]
      exact h.owed e i r hwalks ho
    · exact .inr (hahead r hr')

/-! ### Steps of the calls -/

omit [Fintype Task] in
theorem setPc_signalled (s : State Task) (τ : Task) (pc : Pc) (r : Cb) :
    signalled (s.setPc τ pc) r = signalled s r ∧
      ∀ i, ready offset (s.setPc τ pc) r i = ready offset s r i :=
  ⟨rfl, fun _ => rfl⟩

theorem WakeInv.setPc (h : WakeInv offset w rs) {pc : Pc}
    (hselect : ∃ rs', SelectInv (w.base.setPc τ pc) rs')
    (hwaiting : WaitingInv offset (w.base.setPc τ pc))
    (hold : walksFor (w.base.pc τ) = none) (hnew : walksFor pc = none)
    (hunwoken : ∀ r i, passed (w.scanned τ) (w.nready τ) r i pc →
      ready offset w.base r i = true →
        passed (w.scanned τ) (w.nready τ) r i (w.base.pc τ)) :
    WakeInv offset { w with base := w.base.setPc τ pc } rs := by
  have hself : (w.base.setPc τ pc).pc τ = pc := Function.update_self ..
  refine h.side_same τ hselect hwaiting (fun σ hσ => Function.update_of_ne hσ ..) hold
    ((congrArg walksFor hself).trans hnew) ⟨rfl, rfl, rfl⟩ ⟨rfl, rfl⟩ (fun _ _ => ⟨rfl, rfl⟩)
    (setPc_signalled w.base τ pc) fun r i hp => hunwoken r i ?_
  rw [← hself]
  exact hp

omit [DecidableEq Task] [Fintype Task] in
theorem scanReady_of_ready {cb : SelectCb Task} (hcb : w.base.selectCb r = some cb)
    (h : ready offset w.base r i = true) : scanReady w cb i = true := by
  simp only [ready, hcb, State.doSignal, Bool.and_eq_true, Bool.or_eq_true] at h
  simp only [scanReady, Bool.and_eq_true, Bool.or_eq_true]
  tauto

theorem WakeInv.scanSock (h : WakeInv offset w rs) {cb : SelectCb Task}
    (hτ : w.base.pc τ = .scan r) (hcb : w.base.selectCb r = some cb) :
    WakeInv offset { w with
      scanned := Function.update w.scanned τ (w.scanned τ + 1)
      nready := Function.update w.nready τ (w.nready τ || scanReady w cb (w.scanned τ)) } rs := by
  refine h.side_same τ ⟨rs, h.select⟩ h.waiting (fun _ _ => rfl) (by rw [hτ]; rfl)
    (by change walksFor (w.base.pc τ) = none; rw [hτ]; rfl) ⟨rfl, rfl, rfl⟩ ⟨rfl, rfl⟩
    (fun σ hσ => ⟨Function.update_of_ne hσ .., Function.update_of_ne hσ ..⟩)
    (fun _ => ⟨rfl, fun _ => rfl⟩) fun q i hp hready => ?_
  simp only [Function.update_self, hτ] at hp ⊢
  obtain ⟨rfl, hlt, hquiet⟩ := hp
  rw [Bool.or_eq_false_iff] at hquiet
  refine ⟨rfl, Nat.lt_of_le_of_ne (Nat.le_of_lt_succ hlt) ?_, hquiet.1⟩
  rintro rfl
  rw [scanReady_of_ready hcb hready] at hquiet
  cases hquiet.2

theorem WakeInv.scanEnd (h : WakeInv offset w rs) {cb : SelectCb Task} {t : State Task}
    (hτ : w.base.pc τ = .scan r) (hcb : w.base.selectCb r = some cb)
    (hend : ¬ w.scanned τ < cb.maxfdp1)
    (hselect : ∃ rs', SelectInv t rs') (hwaiting : WaitingInv offset t)
    (ht : t = w.base.setPc τ (if w.nready τ then .decrease r offset else .semWait r)) :
    WakeInv offset { w with base := t } rs := by
  subst ht
  refine h.setPc hselect hwaiting (by rw [hτ]; rfl) (by split <;> rfl) fun q i hp hready => ?_
  split at hp
  · cases hp
  · next hquiet =>
    cases hp
    simp only [ready, hcb, Bool.and_eq_true, decide_eq_true_eq] at hready
    rw [hτ]
    exact ⟨rfl, Nat.lt_of_lt_of_le hready.1.2 (Nat.le_of_not_lt hend), by simpa using hquiet⟩

omit [DecidableEq Task] [Fintype Task] in
theorem addWaiting_same (s : State Task) (cb : SelectCb Task) (k : Socket) (n : Int) :
    (s.addWaiting cb k n).list = s.list ∧ (s.addWaiting cb k n).changes = s.changes ∧
      ∀ r, signalled (s.addWaiting cb k n) r = signalled s r ∧
        ∀ i, ready offset (s.addWaiting cb k n) r i = ready offset s r i := by
  unfold State.addWaiting
  split
  · refine ⟨rfl, rfl, fun r => ⟨rfl, fun i => ?_⟩⟩
    by_cases hik : i = k
    · subst hik
      simp [ready, State.setSock, State.doSignal]
    · simp [ready, State.setSock, hik]
  · exact ⟨rfl, rfl, fun _ => ⟨rfl, fun _ => rfl⟩⟩

omit [Fintype Task] in
theorem countWaiting_cases {prio : Task → Nat} {s t : State Task}
    (hstep : Sockets.step prio offset s (.countWaiting τ) = some t) :
    ∃ u pc, t = u.setPc τ pc ∧ (u = s ∨ ∃ cb k n, u = s.addWaiting cb k n) ∧
      walksFor (s.pc τ) = none ∧ walksFor pc = none ∧
        ∀ r i, passed offset false r i pc → i < offset := by
  cases moves_of_step hstep with
  | increase hτ =>
    rw [hτ]
    exact ⟨_, _, rfl, .inr ⟨_, _, 1, rfl⟩, rfl, rfl, fun _ _ hp => hp.elim⟩
  | increased hτ =>
    rw [hτ]
    exact ⟨_, _, rfl, .inl rfl, rfl, rfl, fun _ _ hp => hp.2.1⟩
  | decrease hτ =>
    rw [hτ]
    exact ⟨_, _, rfl, .inr ⟨_, _, -1, rfl⟩, rfl, rfl, fun _ _ hp => hp.elim⟩
  | decreased hτ =>
    rw [hτ]
    exact ⟨_, _, rfl, .inl rfl, rfl, rfl, fun _ _ hp => hp.elim⟩

theorem WakeInv.countWaiting {prio : Task → Nat} {t : State Task} (h : WakeInv offset w rs)
    (hstep : Sockets.step prio offset w.base (.countWaiting τ) = some t)
    (hselect : ∃ rs', SelectInv t rs') (hwaiting : WaitingInv offset t) :
    WakeInv offset { w with
      base := t
      scanned := Function.update w.scanned τ offset
      nready := Function.update w.nready τ false } rs := by
  obtain ⟨u, pc, rfl, hu, hold, hnew, hpassed⟩ := countWaiting_cases hstep
  have hself : (u.setPc τ pc).pc τ = pc := Function.update_self ..
  have hsame : u.pc = w.base.pc ∧ u.list = w.base.list ∧ u.changes = w.base.changes ∧
      ∀ r, signalled u r = signalled w.base r ∧
        ∀ i, ready offset u r i = ready offset w.base r i := by
    rcases hu with rfl | ⟨cb, k, n, rfl⟩
    · exact ⟨rfl, rfl, rfl, fun _ => ⟨rfl, fun _ => rfl⟩⟩
    · exact ⟨State.addWaiting_pc w.base cb k n, addWaiting_same w.base cb k n⟩
  refine h.side_same τ hselect hwaiting (fun σ hσ => ?_) hold
    ((congrArg walksFor hself).trans hnew) ⟨rfl, rfl, rfl⟩ ⟨hsame.2.1, hsame.2.2.1⟩
    (fun σ hσ => ⟨Function.update_of_ne hσ .., Function.update_of_ne hσ ..⟩) hsame.2.2.2
    fun r i hp hready => ?_
  · rw [← hsame.1]
    exact Function.update_of_ne hσ ..
  · simp only [Function.update_self, hself] at hp
    have hlt := hpassed r i hp
    unfold ready at hready
    split at hready
    · simp only [Bool.and_eq_true, decide_eq_true_eq] at hready
      exact absurd hlt (Nat.not_lt.mpr hready.1.1)
    · cases hready

theorem WakeInv.semTake {prio : Task → Nat} {t : State Task} (h : WakeInv offset w rs)
    (hstep : Sockets.step prio offset w.base (.semTake τ) = some t)
    (hselect : ∃ rs', SelectInv t rs') (hwaiting : WaitingInv offset t) :
    WakeInv offset { w with base := t } rs := by
  cases moves_of_step hstep with
  | @takes _ r cb hτ hcb =>
    obtain ⟨u, hu⟩ : ∃ u, u = w.base.setCb r { cb with sem := false } := ⟨_, rfl⟩
    have hself : (u.setPc τ (.decrease r offset)).pc τ = .decrease r offset :=
      Function.update_self ..
    rw [← hu] at hselect hwaiting
    have hsame : ∀ q, signalled u q = signalled w.base q ∧
        ∀ i, ready offset u q i = ready offset w.base q i := by
      intro q
      rw [hu]
      refine ⟨?_, fun i => ready_congr (sameWants_setCb hcb cb.semSignalled false) rfl⟩
      unfold signalled State.setCb
      by_cases hq : q = r
      · simp [hq, hcb]
      · simp [Function.update_of_ne hq]
    rw [← hu]
    refine h.side_same τ hselect hwaiting (fun σ hσ => ?_) (by rw [hτ]; rfl)
      ((congrArg walksFor hself).trans rfl) ⟨rfl, rfl, rfl⟩ (by rw [hu]; exact ⟨rfl, rfl⟩)
      (fun _ _ => ⟨rfl, rfl⟩) hsame fun q i hp _ => ?_
    · rw [hu]
      exact Function.update_of_ne hσ ..
    · change passed (w.scanned τ) (w.nready τ) q i ((u.setPc τ (.decrease r offset)).pc τ) at hp
      rw [hself] at hp
      cases hp
  | blocks hτ =>
    refine h.setPc hselect hwaiting (by rw [hτ]; rfl) rfl fun q i hp _ => ?_
    rw [hτ]
    exact hp

omit [Fintype Task] in
theorem step_base {prio : Task → Nat} {addr : Cb → BitVec 32} {a : Action Task}
    (hstep : step prio offset addr w (.base a) = some v) :
    ∃ t, Sockets.step prio offset w.base a = some t ∧ v = moved offset addr w t a ∧
      (∀ τ ready, a ≠ .scan τ ready) ∧ (protects (.base a) = true → w.protector = none) := by
  unfold step at hstep
  split at hstep
  · cases hstep
  · next hfree =>
    have hprotects : protects (.base a) = true → w.protector = none := by
      intro hp
      rw [hp, Bool.and_true, Bool.or_eq_true, not_or] at hfree
      exact Option.not_isSome_iff_eq_none.mp hfree.2
    cases a with
    | scan τ ready => cases hstep
    | _ =>
      obtain ⟨t, ht, rfl⟩ := Option.map_eq_some_iff.mp hstep
      exact ⟨t, ht, rfl, nofun, hprotects⟩

theorem WakeInv.step_base {prio : Task → Nat} {addr : Cb → BitVec 32} {a : Action Task}
    (h : WakeInv offset w rs) (hstep : step prio offset addr w (.base a) = some v)
    (hok : WalkOk addr w (.base a) v) :
    Returned w (.base a) v ∧ ∃ rs', WakeInv offset v rs' := by
  obtain ⟨hchecks, hctr⟩ := hok
  obtain ⟨t, ht, rfl, hscan, hprotects⟩ := Wakeup.step_base hstep
  have hstays : SelectStays w.base a := by
    cases a with
    | unlink τ =>
      intro e r hr hτ
      have hnone := hprotects rfl
      cases hpc : w.base.pc e with
      | switchedOut i q => exact h.not_switchedOut hnone e i q hpc
      | _ =>
        rw [hpc] at hr
        cases hr
    | _ => trivial
  have hselect : ∃ rs', SelectInv t rs' := step_inv h.select ht ⟨hstays, hctr⟩
  have hwaiting := h.waiting.step h.select ht
  cases moves_of_step ht with
  | select hτ => exact ⟨trivial, _, h.register (hprotects rfl) hτ rfl⟩
  | increase | increased | decrease | decreased =>
    exact ⟨trivial, rs, h.countWaiting ht hselect hwaiting⟩
  | scan => exact absurd rfl (hscan _ _)
  | takes | blocks => exact ⟨trivial, rs, h.semTake ht hselect hwaiting⟩
  | unblock hτ =>
    refine ⟨trivial, rs, h.setPc hselect hwaiting (by rw [hτ]; rfl) rfl fun q i hp _ => ?_⟩
    rw [hτ]
    exact hp
  | timeout hτ =>
    refine ⟨trivial, rs, h.setPc hselect hwaiting (by rw [hτ]; rfl) rfl ?_⟩
    exact fun _ _ hp _ => hp.elim
  | unlink hτ => exact ⟨trivial, _, h.unregister (hprotects rfl) hτ hwaiting⟩
  | @selectReturns τ r hτ =>
    refine ⟨trivial, rs, h.side_same τ hselect hwaiting
      (fun σ hσ => Function.update_of_ne hσ ..) (by rw [hτ]; rfl) ?_ ⟨rfl, rfl, rfl⟩ ⟨rfl, rfl⟩
      (fun _ _ => ⟨rfl, rfl⟩) (fun _ => ⟨rfl, fun _ => rfl⟩) fun q i hp _ => ?_⟩
    · exact (congrArg walksFor (Function.update_self ..)).trans rfl
    · change passed (w.scanned τ) (w.nready τ) q i ((w.base.setPc τ .idle).pc τ) at hp
      simp only [State.setPc, Function.update_self] at hp
      cases hp
  | event he =>
    obtain ⟨hinv, hreturns⟩ := h.event prio (hprotects rfl) he _ hchecks rfl
    exact ⟨hreturns, rs, hinv⟩
  | switchedIn he => exact ⟨trivial, rs, h.switchedIn he hchecks⟩
  | reprotect he =>
    obtain ⟨hinv, hreturns⟩ := h.reprotect prio (hprotects rfl) he hchecks
      (hctr _ (by rw [he]; rfl))
    refine ⟨fun k hk hidle τ r ho => ?_, rs, hinv⟩
    rw [he] at hk
    cases hk
    simp only [moved, walked_base] at hidle
    simp only [moved, walked_owes] at ho
    exact hreturns hidle τ r ho

theorem WakeInv.step {prio : Task → Nat} {addr : Cb → BitVec 32} {a : Act Task}
    (h : WakeInv offset w rs) (hstep : step prio offset addr w a = some v)
    (hok : WalkOk addr w a v) : Returned w a v ∧ ∃ rs', WakeInv offset v rs' := by
  cases a with
  | base a => exact h.step_base hstep hok
  | scanSock τ =>
    simp only [Wakeup.step, turn] at hstep
    split at hstep
    · cases hstep
    split at hstep
    · next r hτ =>
      split at hstep
      · next cb hcb =>
        split at hstep
        · cases hstep
          exact ⟨trivial, rs, h.scanSock hτ hcb⟩
        · cases hstep
      · cases hstep
    · cases hstep
  | scanEnd τ =>
    simp only [Wakeup.step, turn] at hstep
    split at hstep
    · cases hstep
    split at hstep
    · next r hτ =>
      split at hstep
      · next cb hcb =>
        split at hstep
        · cases hstep
        · next hend =>
          obtain ⟨t, ht, rfl⟩ := Option.map_eq_some_iff.mp hstep
          have hselect := step_inv h.select ht ⟨trivial, trivial⟩
          have hwaiting := h.waiting.step h.select ht
          refine ⟨trivial, rs, h.scanEnd hτ hcb hend hselect hwaiting ?_⟩
          simp only [Sockets.step, hτ, Option.some.injEq] at ht
          exact ht.symm
      · cases hstep
    · cases hstep
  | recvfrom i lastdata =>
    simp only [Wakeup.step, turn] at hstep
    split at hstep
    · cases hstep
    cases hstep
    exact ⟨trivial, rs, h.select, h.waiting, h.protector, h.broken, h.owed, h.ahead, h.noneLost⟩

theorem WakeInv.init (sock : Socket → LwipSock) (lastdata : Socket → Bool) :
    WakeInv offset (init sock lastdata : Walks Task) [] where
  select := SelectInv.init _
  waiting :=
    { waiting := fun i => by
        have hzero : count (fun pc => marks offset (Wakeup.init sock lastdata : Walks Task).base
            i pc = true) (Wakeup.init sock lastdata : Walks Task).base.pc = 0 :=
          count_eq_zero.mpr fun τ hτ => by cases hτ
        rw [hzero]
        rfl
      loops := nofun }
  protector := nofun
  broken := rfl
  owed := nofun
  ahead := nofun
  noneLost := fun τ r i hu _ => by cases hu.1

end Invariant

/-- No wake-up is lost, as long as the records at which the walks stop pass the checks of their
addresses, and the counter does not come around. -/
theorem no_wakeup_lost [DecidableEq Task] [Fintype Task] (prio : Task → Nat)
    (lwipSocketOffset : Nat) (addr : Cb → BitVec 32) (sock : Socket → LwipSock)
    (lastdata : Socket → Bool) (as : List (Act Task)) (w : Walks Task)
    (hrun : run (step prio lwipSocketOffset addr) (init sock lastdata) as = some w)
    (hok : EveryStep (step prio lwipSocketOffset addr) (WalkOk addr) (init sock lastdata) as) :
    w.broken = false ∧ NoneLost lwipSocketOffset w ∧
      EveryStep (step prio lwipSocketOffset addr) Returned (init sock lastdata) as := by
  have hstep : ∀ u a v, (∃ rs, WakeInv lwipSocketOffset u rs) →
      step prio lwipSocketOffset addr u a = some v → WalkOk addr u a v →
        Returned u a v ∧ ∃ rs, WakeInv lwipSocketOffset v rs := by
    rintro u a v ⟨rs, hu⟩ hstep hok
    exact hu.step hstep hok
  have hinit : ∃ rs, WakeInv lwipSocketOffset (init sock lastdata : Walks Task) rs :=
    ⟨[], WakeInv.init sock lastdata⟩
  obtain ⟨rs, hinv⟩ : ∃ rs, WakeInv lwipSocketOffset w rs :=
    run_invariant_under (I := fun u => ∃ rs, WakeInv lwipSocketOffset u rs)
      (fun u a v hu h hP => (hstep u a v hu h hP).2) hinit hok hrun
  exact ⟨hinv.broken, hinv.noneLost, everyStep_of_invariant_under hstep as hinit hok⟩

instance [Fintype Task] [DecidableEq Task] (addr : Cb → BitVec 32) (w : Walks Task) :
    (a : Act Task) → (v : Walks Task) → Decidable (WalkOk addr w a v)
  | .base _, _ => inferInstanceAs (Decidable (_ ∧ _))
  | .scanSock _, _ => inferInstanceAs (Decidable True)
  | .scanEnd _, _ => inferInstanceAs (Decidable True)
  | .recvfrom _ _, _ => inferInstanceAs (Decidable True)

/-- A call sleeps on socket 32, and data comes in for it. -/
def wakes : List (Act Bool) :=
  [.base (.select false (fun i => i == 32) (fun _ => false) (fun _ => false) 33 false),
    .base (.countWaiting false), .base (.countWaiting false), .scanSock false, .scanEnd false,
    .base (.semTake false), .base (.event true 32 .rcvplus)]

/-- The record is in range: the walk comes to the end of the list, and the call is woken. -/
theorem no_wakeup_lost_in_range :
    ∃ w, run (step (fun τ : Bool => if τ then 1 else 0) 32 fun _ => 0x00900000#32)
        (init quiet fun _ => false) (wakes ++ [.base (.reprotect true)]) = some w ∧
      (w.base.pc false, w.base.pc true) = (.semWait 0, .idle) ∧
      w.broken = false ∧ NoneLost 32 w := by
  have hruns : (run (step (fun τ : Bool => if τ then 1 else 0) 32 fun _ => 0x00900000#32)
      (init quiet fun _ => false) (wakes ++ [.base (.reprotect true)])).map
        (fun w => (w.base.pc false, w.base.pc true)) = some (.semWait 0, .idle) := by
    decide +kernel
  obtain ⟨w, hrun, hpcs⟩ := Option.map_eq_some_iff.mp hruns
  obtain ⟨hbroken, hnone, -⟩ :=
    no_wakeup_lost _ 32 _ quiet (fun _ => false) _ w hrun (by decide +kernel)
  exact ⟨w, hrun, hpcs, hbroken, hnone⟩

/-- The walk runs into NIOS2_BREAK at a live record below 0x00800000. -/
theorem walk_breaks :
    ¬ ∀ (prio : Bool → Nat) (addr : Cb → BitVec 32) (as : List (Act Bool)) (w : Walks Bool),
      (∀ r, addr r < 0x02000000#32) →
        run (step prio 32 addr) (init quiet fun _ => false) as = some w →
          w.broken = false ∧ NoneLost 32 w ∧
            EveryStep (step prio 32 addr) Returned (init quiet fun _ => false) as := by
  intro hclaim
  have hruns : (run (step (fun τ : Bool => if τ then 1 else 0) 32 fun _ => 0x00100000#32)
      (init quiet fun _ => false) wakes).map Walks.broken = some true := by
    decide +kernel
  obtain ⟨w, hrun, hbroken⟩ := Option.map_eq_some_iff.mp hruns
  have hwhole := (hclaim _ _ wakes w (fun _ => by decide) hrun).1
  rw [hbroken] at hwhole
  cases hwhole

end FreeLwip.Sockets.Wakeup
