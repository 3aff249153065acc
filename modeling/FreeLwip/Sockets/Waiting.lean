import FreeLwip.Sockets.Select
import FreeLwip.Lib.TaskCount

/-!
# The counts of waiting calls, and what a walk leaves

`select_waiting` of each socket is the number of calls that have counted themselves in there. A
turn of `event_callback` changes nothing of a record but that its call is woken.
-/

namespace FreeLwip.Sockets

open Run Linked TaskCount

variable {Task : Type*}

/-! ## What stays with a record -/

/-- The call asks for socket `i`, and it is ready. -/
def ready (lwipSocketOffset : Nat) (s : State Task) (r : Cb) (i : Socket) : Bool :=
  match s.selectCb r with
  | some cb =>
    decide (lwipSocketOffset ≤ i) && decide (i < cb.maxfdp1) && State.doSignal (s.sock i) i cb
  | none => false

/-- What the call asks for. -/
def wants (cb : SelectCb Task) : (Socket → Bool) × (Socket → Bool) × (Socket → Bool) × Nat :=
  (cb.readset, cb.writeset, cb.exceptset, cb.maxfdp1)

def SameWants (s t : State Task) : Prop :=
  ∀ r, (t.selectCb r).map wants = (s.selectCb r).map wants

def signalled (s : State Task) (r : Cb) : Bool :=
  match s.selectCb r with
  | some cb => cb.semSignalled
  | none => false

/-- The marking loop of the call comes to socket `i`, and counts. -/
def selected (lwipSocketOffset : Nat) (s : State Task) (r : Cb) (i : Socket) : Bool :=
  match s.selectCb r with
  | some cb => decide (lwipSocketOffset ≤ i) && decide (i < cb.maxfdp1) && cb.selects i
  | none => false

section Frame

variable {offset : Nat} {s t u : State Task} {rs : List Cb} {r q : Cb} {e τ : Task} {i : Socket}

theorem selected_congr (h : SameWants s t) : selected offset t r i = selected offset s r i := by
  have hr := h r
  unfold selected
  cases hs : s.selectCb r <;> cases ht : t.selectCb r <;>
    simp_all [wants, SelectCb.selects]

theorem ready_congr (h : SameWants s t) (hsock : t.sock i = s.sock i) :
    ready offset t r i = ready offset s r i := by
  have hr := h r
  unfold ready
  cases hs : s.selectCb r <;> cases ht : t.selectCb r <;>
    simp_all [wants, State.doSignal]

theorem selected_of_ready (h : ready offset s r i = true) : selected offset s r i = true := by
  unfold ready at h
  unfold selected
  cases hs : s.selectCb r with
  | none => simp [hs] at h
  | some cb =>
    simp only [hs, Bool.and_eq_true, State.doSignal, SelectCb.selects] at h ⊢
    refine ⟨h.1, ?_⟩
    simp only [Bool.or_eq_true, Bool.and_eq_true] at h ⊢
    tauto

theorem known_of_ready (h : ready offset s r i = true) : s.selectCb r ≠ none := by
  intro hnone
  simp [ready, hnone] at h

theorem sameWants_setCb {cb : SelectCb Task} (hcb : s.selectCb r = some cb) (b c : Bool) :
    SameWants s (s.setCb r { cb with semSignalled := b, sem := c }) := by
  intro q
  by_cases hqr : q = r
  · subst hqr
    simp [State.setCb, hcb, wants]
  · simp [State.setCb, Function.update_of_ne hqr]

/-- What a turn of `event_callback` in task `e` leaves as it was. -/
structure Frame (s t : State Task) (e : Task) : Prop where
  sock : t.sock = s.sock
  list : t.list = s.list
  changes : t.changes = s.changes
  wants : SameWants s t
  signalled : ∀ r, signalled s r = true → signalled t r = true
  pc : ∀ τ, τ ≠ e → t.pc τ = s.pc τ ∨ ∃ r, s.pc τ = .blocked r ∧ t.pc τ = .semWait r

namespace Frame

theorem trans (h : Frame s t e) (h' : Frame t u e) : Frame s u e where
  sock := h'.sock.trans h.sock
  list := h'.list.trans h.list
  changes := h'.changes.trans h.changes
  wants r := (h'.wants r).trans (h.wants r)
  signalled r hr := h'.signalled r (h.signalled r hr)
  pc τ hτ := by
    rcases h.pc τ hτ with hsame | ⟨r, hs, ht⟩
    · rw [← hsame]
      exact h'.pc τ hτ
    · rcases h'.pc τ hτ with hsame | ⟨q, hq, -⟩
      · exact .inr ⟨r, hs, hsame.trans ht⟩
      · rw [ht] at hq
        cases hq

theorem refl (s : State Task) (e : Task) : Frame s s e :=
  ⟨rfl, rfl, rfl, fun _ => rfl, fun _ h => h, fun _ _ => .inl rfl⟩

theorem touch (s : State Task) (e : Task) (r : Cb) : Frame s (s.touch r) e :=
  ⟨rfl, rfl, rfl, fun _ => rfl, fun _ h => h, fun _ _ => .inl rfl⟩

variable [DecidableEq Task]

theorem setPc (s : State Task) (e : Task) (pc : Pc) : Frame s (s.setPc e pc) e :=
  ⟨rfl, rfl, rfl, fun _ => rfl, fun _ h => h, fun _ h => .inl (Function.update_of_ne h ..)⟩

theorem sample (s : State Task) (e : Task) (i : Socket) (r : Cb) : Frame s (s.sample e i r) e :=
  (touch s e r).trans (setPc _ e _)

theorem wake (hτ : s.pc τ = .blocked r) : Frame s (s.setPc τ (.semWait r)) e := by
  refine ⟨rfl, rfl, rfl, fun _ => rfl, fun _ h => h, fun σ _ => ?_⟩
  by_cases hσ : σ = τ
  · subst hσ
    exact .inr ⟨r, hτ, Function.update_self ..⟩
  · exact .inl (Function.update_of_ne hσ ..)

omit [DecidableEq Task] in
theorem setCb {cb : SelectCb Task} (hcb : s.selectCb r = some cb) (c : Bool) :
    Frame s (s.setCb r { cb with semSignalled := true, sem := c }) e := by
  refine ⟨rfl, rfl, rfl, sameWants_setCb hcb true c, fun q hq => ?_, fun _ _ => .inl rfl⟩
  unfold Sockets.signalled State.setCb
  by_cases hqr : q = r
  · simp [hqr]
  · simp only [Function.update_of_ne hqr]
    exact hq

theorem signal (prio : Task → Nat) {cb : SelectCb Task} (hcb : s.selectCb r = some cb) :
    Frame s (s.signal prio e i r cb) e := by
  have hset : Frame s (s.setCb r { cb with semSignalled := true, sem := true }) e :=
    setCb hcb true
  unfold State.signal
  simp only
  split
  · next hblocked =>
    have hwoken := hset.trans (wake (e := e) hblocked)
    split
    · exact hwoken.trans (setPc _ e _)
    · exact hwoken.trans (sample _ e i r)
  · exact hset.trans (sample _ e i r)

theorem walk (prio : Task → Nat) (s : State Task) (e : Task) (i : Socket) (scb : Option Cb) :
    Frame s (s.walk prio e i scb) e := by
  unfold State.walk
  split
  · exact setPc s e .idle
  · next r =>
    have htouch := touch s e r
    simp only
    split
    · exact htouch
    · next cb hcb =>
      have hcb' : (s.touch r).selectCb r = some cb := hcb
      split
      · exact htouch.trans (signal prio hcb')
      · exact htouch.trans (sample _ e i r)

theorem eventCallback (prio : Task → Nat) (s : State Task) (e : Task) (i : Socket)
    (evt : NetconnEvt) :
    Frame (s.setSock i ((s.sock i).setEvent evt)) (s.eventCallback prio e i evt) e := by
  unfold State.eventCallback
  simp only
  split
  · exact refl _ e
  · exact walk prio _ e i _

theorem reprotect (prio : Task → Nat) (s : State Task) (e : Task) (i : Socket) (r : Cb)
    (last : BitVec 32) : Frame s (s.reprotect prio e i r last) e := by
  unfold State.reprotect
  split
  · exact walk prio s e i _
  · exact (touch s e r).trans (walk prio _ e i _)

end Frame

variable [DecidableEq Task]

theorem signal_pc (prio : Task → Nat) (s : State Task) (e : Task) (i : Socket) (r : Cb)
    (cb : SelectCb Task) :
    (s.signal prio e i r cb).pc e = .switchedOut i r ∨
      (s.signal prio e i r cb).pc e = .unprotected i r s.selectCbCtr s.changes := by
  unfold State.signal
  simp only
  split
  · split
    · exact .inl (Function.update_self ..)
    · exact .inr (Function.update_self ..)
  · exact .inr (Function.update_self ..)

theorem signalled_signal (prio : Task → Nat) {cb : SelectCb Task} :
    signalled (s.signal prio e i r cb) r = true := by
  unfold State.signal
  simp only
  split
  · split <;> simp [signalled, State.setPc, State.setCb, State.sample, State.touch]
  · simp [signalled, State.setPc, State.setCb, State.sample, State.touch]

theorem walk_record (offset : Nat) (prio : Task → Nat) {cb : SelectCb Task}
    (hcb : s.selectCb q = some cb) :
    ((s.walk prio e i (some q)).pc e = .switchedOut i q ∨
      (s.walk prio e i (some q)).pc e = .unprotected i q s.selectCbCtr s.changes) ∧
      (ready offset s q i = true → signalled (s.walk prio e i (some q)) q = true) := by
  have hwalk : s.walk prio e i (some q) =
      if !cb.semSignalled && State.doSignal (s.sock i) i cb then (s.touch q).signal prio e i q cb
      else (s.touch q).sample e i q := by
    unfold State.walk
    simp only [State.touch, hcb]
    rfl
  rw [hwalk]
  split
  · exact ⟨signal_pc prio _ e i q cb, fun _ => signalled_signal prio⟩
  · next hquiet =>
    refine ⟨.inr (Function.update_self ..), fun hready => ?_⟩
    simp only [ready, hcb, Bool.and_eq_true] at hready
    simp only [hready.2, Bool.and_true, Bool.not_eq_true', Bool.not_eq_false] at hquiet
    simp [signalled, State.sample, State.setPc, State.touch, hcb, hquiet]

theorem eventCallback_eq (prio : Task → Nat) (s : State Task) (e : Task) (i : Socket)
    (evt : NetconnEvt) :
    s.eventCallback prio e i evt =
      if (s.sock i).selectWaiting = 0 then s.setSock i ((s.sock i).setEvent evt)
      else (s.setSock i ((s.sock i).setEvent evt)).walk prio e i s.list.head := by
  unfold State.eventCallback
  cases evt <;> simp [State.setSock, LwipSock.setEvent]

theorem walk_linked (prio : Task → Nat) (he : (s.pc e).linked = none) (scb : Option Cb) :
    ((s.walk prio e i scb).pc e).linked = none := by
  cases scb with
  | none =>
    simp only [State.walk, State.setPc, Function.update_self]
    rfl
  | some q =>
    cases hcb : s.selectCb q with
    | none =>
      simp only [State.walk, State.touch, hcb]
      exact he
    | some cb =>
      rcases (walk_record 0 (e := e) (i := i) prio hcb).1 with hpc | hpc <;>
        rw [hpc] <;> rfl

end Frame

/-! ## The count of waiting calls -/

/-- The call has counted itself in at socket `i`, and not out again. -/
def marks (lwipSocketOffset : Nat) (s : State Task) (i : Socket) (pc : Pc) : Bool :=
  match pc with
  | .increase r k => selected lwipSocketOffset s r i && decide (i < k)
  | .scan r => selected lwipSocketOffset s r i
  | .semWait r => selected lwipSocketOffset s r i
  | .blocked r => selected lwipSocketOffset s r i
  | .decrease r k => selected lwipSocketOffset s r i && decide (k ≤ i)
  | _ => false

/-- Where a loop of a call stands. -/
def loopAt : Pc → Option Socket
  | .increase _ k => some k
  | .decrease _ k => some k
  | _ => none

structure WaitingInv [Fintype Task] (lwipSocketOffset : Nat) (s : State Task) : Prop where
  waiting : ∀ i, (s.sock i).selectWaiting =
    count (fun pc => marks lwipSocketOffset s i pc = true) s.pc
  loops : ∀ τ, ∀ k ∈ loopAt (s.pc τ), lwipSocketOffset ≤ k

section Count

variable {offset : Nat} {s t : State Task} {rs : List Cb} {r : Cb} {τ e : Task} {i : Socket}

theorem marks_congr (h : SameWants s t) (pc : Pc) :
    marks offset t i pc = marks offset s i pc := by
  cases pc <;> simp only [marks, selected_congr h]

theorem marks_increase {cb : SelectCb Task} (hcb : s.selectCb r = some cb) {k : Socket}
    (hk : offset ≤ k) (hlt : k < cb.maxfdp1) :
    (if marks offset s i (.increase r (k + 1)) = true then 1 else 0 : Int) =
      (if marks offset s i (.increase r k) = true then 1 else 0) +
        if i = k ∧ cb.selects k = true then 1 else 0 := by
  simp only [marks, selected, hcb]
  by_cases hik : i = k
  · subst hik
    cases hsel : cb.selects i <;> simp [hk, hlt]
  · have hlt' : i < k + 1 ↔ i < k :=
      ⟨fun h => Nat.lt_of_le_of_ne (Nat.le_of_lt_succ h) hik, Nat.lt_succ_of_lt⟩
    simp [hik, hlt']

theorem marks_increase_end {cb : SelectCb Task} (hcb : s.selectCb r = some cb) {k : Socket}
    (hend : cb.maxfdp1 ≤ k) : marks offset s i (.scan r) = marks offset s i (.increase r k) := by
  simp only [marks, selected, hcb]
  by_cases hi : i < cb.maxfdp1
  · simp [Nat.lt_of_lt_of_le hi hend]
  · simp [hi]

theorem marks_decrease {cb : SelectCb Task} (hcb : s.selectCb r = some cb) {k : Socket}
    (hk : offset ≤ k) (hlt : k < cb.maxfdp1) :
    (if marks offset s i (.decrease r (k + 1)) = true then 1 else 0 : Int) =
      (if marks offset s i (.decrease r k) = true then 1 else 0) +
        if i = k ∧ cb.selects k = true then -1 else 0 := by
  simp only [marks, selected, hcb]
  by_cases hik : i = k
  · subst hik
    cases hsel : cb.selects i <;> simp [hk, hlt]
  · have hle : k ≤ i ↔ k + 1 ≤ i :=
      ⟨fun h => Nat.lt_of_le_of_ne h (Ne.symm hik), Nat.le_of_succ_le⟩
    simp [hik, hle]

theorem marks_decrease_end {cb : SelectCb Task} (hcb : s.selectCb r = some cb) {k : Socket}
    (hend : cb.maxfdp1 ≤ k) : marks offset s i (.unlink r) = marks offset s i (.decrease r k) := by
  simp only [marks, selected, hcb]
  by_cases hi : i < cb.maxfdp1
  · simp [Nat.lt_of_lt_of_le hi hend]
  · simp [hi]

theorem marks_decrease_start :
    marks offset s i (.decrease r offset) = selected offset s r i := by
  simp only [marks, selected]
  split <;> simp +contextual

variable [Fintype Task]

theorem WaitingInv.same (h : WaitingInv offset s)
    (hwaiting : ∀ i, (t.sock i).selectWaiting = (s.sock i).selectWaiting)
    (hmarks : ∀ τ i, marks offset t i (t.pc τ) = marks offset s i (s.pc τ))
    (hloops : ∀ τ, ∀ k ∈ loopAt (t.pc τ), offset ≤ k) : WaitingInv offset t where
  waiting i := by
    rw [hwaiting i, h.waiting i]
    exact congrArg Nat.cast (count_congr fun τ => by rw [hmarks τ i])
  loops := hloops

omit [Fintype Task] in
theorem marks_of_linked {pc : Pc} (h : pc.linked = none) : marks offset s i pc = false := by
  cases pc <;> first | rfl | cases h

omit [Fintype Task] in
theorem loopAt_of_linked {pc : Pc} (h : pc.linked = none) : loopAt pc = none := by
  cases pc <;> first | rfl | cases h

theorem WaitingInv.not_marks (h : WaitingInv offset s) (hzero : (s.sock i).selectWaiting = 0)
    (τ : Task) : marks offset s i (s.pc τ) = false := by
  have hcount := h.waiting i
  rw [hzero] at hcount
  have hnone := count_eq_zero.mp (Nat.cast_eq_zero.mp hcount.symm) τ
  simpa using hnone

theorem WaitingInv.frame (h : WaitingInv offset s) (hf : Frame s t e)
    (hs : (s.pc e).linked = none) (ht : (t.pc e).linked = none) : WaitingInv offset t := by
  refine h.same (fun i => by rw [hf.sock]) (fun τ i => ?_) fun τ k hk => ?_
  · rw [marks_congr hf.wants]
    by_cases hτ : τ = e
    · rw [hτ, marks_of_linked hs, marks_of_linked ht]
    · rcases hf.pc τ hτ with hsame | ⟨r, hs, ht⟩
      · rw [hsame]
      · rw [hs, ht]
        rfl
  · by_cases hτ : τ = e
    · rw [hτ, loopAt_of_linked ht] at hk
      cases hk
    · rcases hf.pc τ hτ with hsame | ⟨r, hs, ht⟩
      · rw [hsame] at hk
        exact h.loops τ k hk
      · rw [ht] at hk
        cases hk

variable [DecidableEq Task]

theorem WaitingInv.setPc (h : WaitingInv offset s) {pc : Pc}
    (hmarks : ∀ i, marks offset s i pc = marks offset s i (s.pc τ))
    (hloops : ∀ k ∈ loopAt pc, offset ≤ k) : WaitingInv offset (s.setPc τ pc) := by
  refine h.same (fun _ => rfl) (fun σ i => ?_) fun σ k hk => ?_
  · rw [marks_congr (s := s) fun _ => rfl]
    by_cases hσ : σ = τ
    · rw [hσ]
      exact (congrArg _ (Function.update_self ..)).trans (hmarks i)
    · exact congrArg _ (Function.update_of_ne hσ ..)
  · rcases update_cases (fun pc : Pc => k ∈ loopAt pc) hk with ⟨-, hk'⟩ | ⟨-, hk'⟩
    · exact hloops k hk'
    · exact h.loops σ k hk'

omit [Fintype Task] [DecidableEq Task] in
theorem addWaiting_waiting (cb : SelectCb Task) (k : Socket) (n : Int) :
    ((s.addWaiting cb k n).sock i).selectWaiting =
      (s.sock i).selectWaiting + if i = k ∧ cb.selects k = true then n else 0 := by
  unfold State.addWaiting
  by_cases hsel : cb.selects k = true
  · rw [if_pos hsel]
    by_cases hik : i = k
    · simp [State.setSock, hik, hsel]
    · simp [State.setSock, hik]
  · simp [hsel]

omit [Fintype Task] [DecidableEq Task] in
theorem sameWants_addWaiting (cb : SelectCb Task) (k : Socket) (n : Int) :
    SameWants s (s.addWaiting cb k n) := by
  intro r
  unfold State.addWaiting
  split <;> rfl

theorem WaitingInv.turn (h : WaitingInv offset s) {cb : SelectCb Task} {k : Socket} {n : Int}
    {pc : Pc} (hmarks : ∀ i, (if marks offset s i pc = true then 1 else 0) =
      (if marks offset s i (s.pc τ) = true then 1 else 0) +
        if i = k ∧ cb.selects k = true then n else 0)
    (hloops : ∀ k ∈ loopAt pc, offset ≤ k) :
    WaitingInv offset ((s.addWaiting cb k n).setPc τ pc) where
  waiting i := by
    have hsame : SameWants s ((s.addWaiting cb k n).setPc τ pc) := sameWants_addWaiting cb k n
    simp only [marks_congr hsame]
    change ((s.addWaiting cb k n).sock i).selectWaiting =
      (count _ (Function.update (s.addWaiting cb k n).pc τ pc) : Nat)
    have hcount := congrArg (Nat.cast (R := Int)) (count_update
      (P := fun pc => marks offset s i pc = true) (f := s.pc) τ pc)
    simp only [Nat.cast_add, Nat.cast_ite, Nat.cast_one, Nat.cast_zero] at hcount
    rw [addWaiting_waiting, State.addWaiting_pc, h.waiting i]
    rw [hmarks i] at hcount
    omega
  loops σ j hj := by
    rcases update_cases (fun pc : Pc => j ∈ loopAt pc) hj with ⟨-, hj'⟩ | ⟨-, hj'⟩
    · exact hloops j hj'
    · rw [State.addWaiting_pc] at hj'
      exact h.loops σ j hj'

theorem WaitingInv.register (h : WaitingInv offset s) (hs : SelectInv s rs)
    (hτ : s.pc τ = .idle) (cb : SelectCb Task) : WaitingInv offset (s.register τ cb offset) := by
  have hpc : ∀ σ, (s.register τ cb offset).pc σ =
      if σ = τ then .increase s.calls offset else s.pc σ :=
    fun σ => Function.update_apply ..
  have hselected : ∀ q i, q ≠ s.calls →
      selected offset (s.register τ cb offset) q i = selected offset s q i := by
    intro q i hq
    have hcb : (s.register τ cb offset).selectCb q = s.selectCb q := Function.update_of_ne hq ..
    simp only [selected, hcb]
  refine h.same (fun _ => rfl) (fun σ i => ?_) fun σ k hk => ?_
  · rw [hpc]
    split
    · next hσ =>
      rw [hσ, hτ]
      simp only [marks, selected]
      split <;> simp +contextual
    · have hold : ∀ q, (s.pc σ).linked = some q → q ≠ s.calls := by
        rintro q hq rfl
        obtain ⟨cb', hcb', -⟩ := hs.owner σ s.calls (Pc.record_of_linked hq)
        rw [hs.fresh s.calls (Nat.le_refl _)] at hcb'
        cases hcb'
      cases hpcσ : s.pc σ <;> simp only [marks] <;>
        rw [hselected _ _ (hold _ (by rw [hpcσ]; rfl))]
  · rw [hpc] at hk
    split at hk
    · cases hk
      exact Nat.le_refl _
    · exact h.loops σ k hk

theorem WaitingInv.eventCallback (h : WaitingInv offset s) (prio : Task → Nat)
    (he : s.pc e = .idle) (evt : NetconnEvt) :
    WaitingInv offset (s.eventCallback prio e i evt) := by
  have hset : WaitingInv offset (s.setSock i ((s.sock i).setEvent evt)) := by
    refine h.same (fun k => ?_) (fun σ k => marks_congr (s := s) (fun _ => rfl) _) h.loops
    by_cases hk : k = i
    · subst hk
      cases evt <;> simp [State.setSock, LwipSock.setEvent]
    · simp [State.setSock, hk]
  have he' : ((s.setSock i ((s.sock i).setEvent evt)).pc e).linked = none := by
    change (s.pc e).linked = none
    rw [he]
    rfl
  refine hset.frame (Frame.eventCallback prio s e i evt) he' ?_
  unfold State.eventCallback
  simp only
  split
  · exact he'
  · exact walk_linked prio he' _

theorem WaitingInv.reprotect (h : WaitingInv offset s) (prio : Task → Nat)
    (he : (s.pc e).linked = none) (r : Cb) (last : BitVec 32) :
    WaitingInv offset (s.reprotect prio e i r last) := by
  refine h.frame (Frame.reprotect prio s e i r last) he ?_
  unfold State.reprotect
  split
  · exact walk_linked prio he _
  · exact walk_linked (s := s.touch r) prio he _

theorem WaitingInv.increase (h : WaitingInv offset s) {k : Socket} {cb : SelectCb Task}
    (hτ : s.pc τ = .increase r k) (hcb : s.selectCb r = some cb) (hlt : k < cb.maxfdp1) :
    WaitingInv offset ((s.addWaiting cb k 1).setPc τ (.increase r (k + 1))) := by
  have hk : offset ≤ k := h.loops τ k (by rw [hτ]; rfl)
  refine h.turn (fun i => ?_) fun j hj => ?_
  · rw [hτ]
    exact marks_increase hcb hk hlt
  · cases hj
    exact Nat.le_succ_of_le hk

theorem WaitingInv.decrease (h : WaitingInv offset s) {k : Socket} {cb : SelectCb Task}
    (hτ : s.pc τ = .decrease r k) (hcb : s.selectCb r = some cb) (hlt : k < cb.maxfdp1) :
    WaitingInv offset ((s.addWaiting cb k (-1)).setPc τ (.decrease r (k + 1))) := by
  have hk : offset ≤ k := h.loops τ k (by rw [hτ]; rfl)
  refine h.turn (fun i => ?_) fun j hj => ?_
  · rw [hτ]
    exact marks_decrease hcb hk hlt
  · cases hj
    exact Nat.le_succ_of_le hk

theorem WaitingInv.leave (h : WaitingInv offset s) (hτ : s.pc τ = .scan r ∨ s.pc τ = .semWait r) :
    WaitingInv offset (s.setPc τ (.decrease r offset)) := by
  refine h.setPc (fun i => marks_decrease_start.trans ?_) (by simp [loopAt])
  rcases hτ with hτ | hτ <;> rw [hτ] <;> rfl

theorem WaitingInv.step {prio : Task → Nat} {a : Action Task} (h : WaitingInv offset s)
    (hs : SelectInv s rs) (hstep : Sockets.step prio offset s a = some t) :
    WaitingInv offset t := by
  cases moves_of_step hstep with
  | select hτ => exact h.register hs hτ _
  | increase hτ hcb hlt => exact h.increase hτ hcb hlt
  | increased hτ hcb hend =>
    refine h.setPc (fun i => ?_) (by simp [loopAt])
    rw [hτ]
    exact marks_increase_end hcb hend
  | decrease hτ hcb hlt => exact h.decrease hτ hcb hlt
  | decreased hτ hcb hend =>
    refine h.setPc (fun i => ?_) (by simp [loopAt])
    rw [hτ]
    exact marks_decrease_end hcb hend
  | @scan τ ready r hτ =>
    cases ready with
    | false => exact h.setPc (fun i => by rw [hτ]; rfl) (by simp [loopAt])
    | true => exact h.leave (.inl hτ)
  | @takes τ r cb hτ hcb =>
    have htaken : WaitingInv offset (s.setCb r { cb with sem := false }) :=
      h.same (fun _ => rfl) (fun σ i => marks_congr (sameWants_setCb hcb cb.semSignalled false) _)
        h.loops
    exact htaken.leave (.inr hτ)
  | blocks hτ | unblock hτ => exact h.setPc (fun i => by rw [hτ]; rfl) (by simp [loopAt])
  | timeout hτ => exact h.leave (.inr hτ)
  | @unlink τ r hτ =>
    have hpc : WaitingInv offset (s.setPc τ (.unlinked r)) :=
      h.setPc (fun i => by rw [hτ]; rfl) (by simp [loopAt])
    exact ⟨hpc.waiting, hpc.loops⟩
  | @selectReturns τ r hτ =>
    have hpc : WaitingInv offset (s.setPc τ .idle) :=
      h.setPc (fun i => by rw [hτ]; rfl) (by simp [loopAt])
    exact ⟨hpc.waiting, hpc.loops⟩
  | event he => exact h.eventCallback prio he _
  | @switchedIn e i r he =>
    have he' : (s.pc e).linked = none := by rw [he]; rfl
    have hpc : ((s.sample e i r).pc e).linked = none :=
      (congrArg Pc.linked (Function.update_self ..)).trans rfl
    exact h.frame (Frame.sample s e i r) he' hpc
  | @reprotect e i r last n he => exact h.reprotect prio (by rw [he]; rfl) r last

end Count

end FreeLwip.Sockets
