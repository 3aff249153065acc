import FreeLwip.Lib.Run
import FreeLwip.Lib.DeltaList
import FreeLwip.Kernel.TimeOut

/-!
# Timeouts (`timers.c`, and `sys_arch_mbox_fetch` of `sys_arch.c`)

The tcpip thread waits for a message until the first timeout is due, and takes the time that
it waited off the first timeout. One tick is one millisecond.
-/

namespace FreeLwip.SysArch

open Run DeltaList Kernel

/-! ## The timeout list -/

structure Timeo (H A : Type*) where
  time : BitVec 32
  h : Option H
  arg : A
  /-- The tick of the registration plus its `msecs`; the code has no such field. -/
  due : Nat

variable {H A : Type*}

def insertAfter (timeout t : Timeo H A) : List (Timeo H A) → List (Timeo H A)
  | [] => [t, { timeout with time := timeout.time - t.time }]
  | n :: rest =>
    let timeout := { timeout with time := timeout.time - t.time }
    if n.time > timeout.time then
      t :: timeout :: { n with time := n.time - timeout.time } :: rest
    else
      t :: insertAfter timeout n rest

def insertTimeout (timeout : Timeo H A) : List (Timeo H A) → List (Timeo H A)
  | [] => [timeout]
  | t :: rest =>
    if t.time > timeout.time then
      timeout :: { t with time := t.time - timeout.time } :: rest
    else
      insertAfter timeout t rest

def removeTimeout [DecidableEq H] [DecidableEq A] (handler : Option H) (arg : A) :
    List (Timeo H A) → List (Timeo H A)
  | [] => []
  | t :: rest =>
    if t.h = handler ∧ t.arg = arg then
      match rest with
      | [] => []
      | n :: rest => { n with time := n.time + t.time } :: rest
    else
      t :: removeTimeout handler arg rest

/-- An entry as the library has it. -/
def Timeo.entry (t : Timeo H A) : Nat × Option H × A × Nat :=
  (t.time.toNat, t.h, t.arg, t.due)

theorem entries_cons (t : Timeo H A) (rest : List (Timeo H A)) :
    (t :: rest).map Timeo.entry =
      (t.time.toNat, t.h, t.arg, t.due) :: rest.map Timeo.entry := rfl

theorem insertAfter_entries {timeout t : Timeo H A} (hle : t.time ≤ timeout.time)
    (rest : List (Timeo H A)) :
    (insertAfter timeout t rest).map Timeo.entry =
      insertEntry timeout.time.toNat (timeout.h, timeout.arg, timeout.due)
        ((t :: rest).map Timeo.entry) := by
  have hsub : (timeout.time - t.time).toNat = timeout.time.toNat - t.time.toNat :=
    BitVec.toNat_sub_of_le hle
  rw [entries_cons, insertEntry_of_le (BitVec.le_def.mp hle), ← hsub]
  induction rest generalizing timeout t with
  | nil => rfl
  | cons n rest ih =>
    simp only [insertAfter]
    split
    · next hlt =>
      rw [entries_cons n, insertEntry_of_lt (BitVec.lt_def.mp hlt)]
      simp only [entries_cons]
      rw [BitVec.toNat_sub_of_le (BitVec.le_of_lt hlt)]
    · next hge =>
      have hle' : n.time ≤ timeout.time - t.time := BitVec.not_lt.mp hge
      have hrest := @ih { timeout with time := timeout.time - t.time } n hle'
        (BitVec.toNat_sub_of_le hle')
      rw [entries_cons t, hrest, entries_cons n, insertEntry_of_le (BitVec.le_def.mp hle'),
        BitVec.toNat_sub_of_le hle']

theorem insertTimeout_entries (timeout : Timeo H A) (l : List (Timeo H A)) :
    (insertTimeout timeout l).map Timeo.entry =
      insertEntry timeout.time.toNat (timeout.h, timeout.arg, timeout.due)
        (l.map Timeo.entry) := by
  cases l with
  | nil => rfl
  | cons t rest =>
    simp only [insertTimeout]
    split
    · next hlt =>
      rw [entries_cons t, insertEntry_of_lt (BitVec.lt_def.mp hlt)]
      simp only [entries_cons]
      rw [BitVec.toNat_sub_of_le (BitVec.le_of_lt hlt)]
    · next hge => exact insertAfter_entries (BitVec.not_lt.mp hge) rest

theorem removeTimeout_entries [DecidableEq H] [DecidableEq A] (handler : Option H) (arg : A)
    {l : List (Timeo H A)} (hspan : span (l.map Timeo.entry) < 2 ^ 32) :
    (removeTimeout handler arg l).map Timeo.entry =
      removeEntry (fun e => decide (e.1 = handler ∧ e.2.1 = arg)) (l.map Timeo.entry) := by
  induction l with
  | nil => rfl
  | cons t rest ih =>
    rw [entries_cons, span] at hspan
    simp only [removeTimeout, entries_cons, removeEntry, decide_eq_true_eq]
    split
    · cases rest with
      | nil => rfl
      | cons n rest =>
        rw [entries_cons, span] at hspan
        have hsum : (n.time + t.time).toNat = n.time.toNat + t.time.toNat := by
          rw [BitVec.toNat_add, Nat.mod_eq_of_lt (by omega)]
        simp only [entries_cons, hsum]
    · rw [entries_cons, ih (by omega)]

/-! ## The tcpip thread -/

def sysArchTimeout : BitVec 32 := 0xffffffff

/-- A call of `sys_arch_mbox_fetch` that has not returned. -/
structure Fetch where
  nStartTime : PortTickType
  timeout : BitVec 32
  xTicksToWait : PortTickType
  /-- None before `xQueueGenericReceive` has found the queue empty. -/
  xTimeOut : Option TimeOut
  /-- The tick of the call. -/
  start : Nat

/-- A call of the handler `h` that was due at the tick `due` and came at the tick `now`. -/
structure Call (H A : Type*) where
  due : Nat
  now : Nat
  h : H
  arg : A
  deriving DecidableEq, Repr

/-- A fetch that returned after `elapsed` ticks was charged with `timeNeeded`. -/
structure Charge where
  timeNeeded : BitVec 32
  elapsed : Nat
  deriving DecidableEq, Repr

structure TcpipThread (H A : Type*) where
  now : Nat
  nextTimeout : List (Timeo H A)
  /-- The free elements of MEMP_SYS_TIMEOUT. -/
  memp : Nat
  fetch : Option Fetch
  -- The history of the run; the code reads none of it.
  calls : List (Call H A)
  charges : List Charge

namespace TcpipThread

def init (H A : Type*) (now memp : Nat) : TcpipThread H A where
  now := now
  nextTimeout := []
  memp := memp
  fetch := none
  calls := []
  charges := []

def sysTimeout (s : TcpipThread H A) (msecs : BitVec 32) (handler : Option H) (arg : A) :
    TcpipThread H A :=
  if s.memp = 0 then
    s
  else
    let timeout :=
      { time := msecs, h := handler, arg := arg, due := s.now + msecs.toNat }
    { s with memp := s.memp - 1, nextTimeout := insertTimeout timeout s.nextTimeout }

def sysUntimeout [DecidableEq H] [DecidableEq A] (s : TcpipThread H A) (handler : Option H)
    (arg : A) : TcpipThread H A :=
  let found := s.nextTimeout.any fun t => t.h = handler ∧ t.arg = arg
  { s with
    nextTimeout := removeTimeout handler arg s.nextTimeout
    memp := if found then s.memp + 1 else s.memp }

/-- The entry of `sys_arch_mbox_fetch`; without a timeout it waits in turns of 10000 ticks. -/
def sysArchMboxFetch (s : TcpipThread H A) (timeout : BitVec 32) : TcpipThread H A :=
  let f : Fetch :=
    { nStartTime := xTickCount s.now, timeout := timeout
      xTicksToWait := if timeout ≠ 0 then timeout else 10000
      xTimeOut := none, start := s.now }
  { s with fetch := some f }

/-- What is called when `t` is taken off the list. -/
def called (s : TcpipThread H A) (t : Timeo H A) : List (Call H A) :=
  t.h.toList.map fun h => ⟨t.due, s.now, h, t.arg⟩

def callHandler (s : TcpipThread H A) : TcpipThread H A :=
  match s.nextTimeout with
  | [] => s
  | tmptimeout :: rest =>
    { s with
      nextTimeout := rest
      memp := s.memp + 1
      fetch := none
      calls := s.calls ++ s.called tmptimeout }

/-- `sys_timeouts_mbox_fetch` from the label `again` to the fetch or the handler. -/
def sysTimeoutsMboxFetch (s : TcpipThread H A) : TcpipThread H A :=
  match s.nextTimeout with
  | [] => s.sysArchMboxFetch 0
  | t :: _ => if t.time > 0 then s.sysArchMboxFetch t.time else s.callHandler

/-- `sys_arch_mbox_fetch` returns with a message: the rest of `sys_timeouts_mbox_fetch`. -/
def received (s : TcpipThread H A) (f : Fetch) : TcpipThread H A :=
  let nElapsed := xTickCount s.now - f.nStartTime
  let nElapsed := if nElapsed = 0 then 1 else nElapsed
  if f.timeout = 0 then
    { s with fetch := none }
  else if nElapsed = sysArchTimeout then
    s.callHandler
  else
    match s.nextTimeout with
    | [] => s
    | t :: rest =>
      { s with
        nextTimeout :=
          { t with time := if nElapsed < t.time then t.time - nElapsed else 0 } :: rest
        fetch := none
        charges := s.charges ++ [⟨nElapsed, s.now - f.start⟩] }

/-- `xQueueReceive` returns without a message. -/
def notReceived (s : TcpipThread H A) (f : Fetch) : TcpipThread H A :=
  if f.timeout = 0 then
    { s with fetch := some { f with xTicksToWait := 10000, xTimeOut := none } }
  else
    s.callHandler

end TcpipThread

namespace Timers

inductive Action (H A : Type*)
  | tick
  /-- What the handlers and the messages do. -/
  | sysTimeout (msecs : BitVec 32) (handler : Option H) (arg : A)
  | sysUntimeout (handler : Option H) (arg : A)
  /-- The thread comes back for the next message. -/
  | sysTimeoutsMboxFetch
  /-- The steps of `xQueueGenericReceive`. -/
  | queueEmpty
  | checkForTimeOut
  | message

variable [DecidableEq H] [DecidableEq A]

def step (s : TcpipThread H A) : Action H A → Option (TcpipThread H A)
  | .tick => some { s with now := s.now + 1 }
  | .sysTimeout msecs handler arg =>
    if s.fetch.isNone then some (s.sysTimeout msecs handler arg) else none
  | .sysUntimeout handler arg =>
    if s.fetch.isNone then some (s.sysUntimeout handler arg) else none
  | .sysTimeoutsMboxFetch => if s.fetch.isNone then some s.sysTimeoutsMboxFetch else none
  | .queueEmpty =>
    match s.fetch with
    | none => none
    | some f =>
      if f.xTimeOut.isNone then
        some { s with fetch := some { f with xTimeOut := some (vTaskSetTimeOutState s.now) } }
      else
        none
  | .checkForTimeOut =>
    match s.fetch with
    | none => none
    | some f =>
      match f.xTimeOut with
      | none => none
      | some xTimeOut =>
        match xTaskCheckForTimeOut s.now xTimeOut f.xTicksToWait with
        | (false, xTimeOut, xTicksToWait) =>
          let f := { f with xTimeOut := some xTimeOut, xTicksToWait := xTicksToWait }
          some { s with fetch := some f }
        | (true, _, _) => some (s.notReceived f)
  | .message => s.fetch.map s.received

/-- What a step can do. -/
inductive Moves (s : TcpipThread H A) : Action H A → TcpipThread H A → Prop
  | tick : Moves s .tick { s with now := s.now + 1 }
  | sysTimeout {msecs : BitVec 32} {handler : Option H} {arg : A} (running : s.fetch = none) :
      Moves s (.sysTimeout msecs handler arg) (s.sysTimeout msecs handler arg)
  | sysUntimeout {handler : Option H} {arg : A} (running : s.fetch = none) :
      Moves s (.sysUntimeout handler arg) (s.sysUntimeout handler arg)
  | sysTimeoutsMboxFetch (running : s.fetch = none) :
      Moves s .sysTimeoutsMboxFetch s.sysTimeoutsMboxFetch
  | queueEmpty {f : Fetch} (waiting : s.fetch = some f) (first : f.xTimeOut = none) :
      Moves s .queueEmpty
        { s with fetch := some { f with xTimeOut := some (vTaskSetTimeOutState s.now) } }
  | waits {f : Fetch} {xTimeOut xTimeOut' : TimeOut} {xTicksToWait : PortTickType}
      (waiting : s.fetch = some f) (entered : f.xTimeOut = some xTimeOut)
      (left : xTaskCheckForTimeOut s.now xTimeOut f.xTicksToWait =
        (false, xTimeOut', xTicksToWait)) :
      Moves s .checkForTimeOut
        { s with fetch := some { f with xTimeOut := some xTimeOut', xTicksToWait := xTicksToWait } }
  | expires {f : Fetch} {xTimeOut : TimeOut} (waiting : s.fetch = some f)
      (entered : f.xTimeOut = some xTimeOut)
      (expired : (xTaskCheckForTimeOut s.now xTimeOut f.xTicksToWait).1 = true) :
      Moves s .checkForTimeOut (s.notReceived f)
  | message {f : Fetch} (waiting : s.fetch = some f) : Moves s .message (s.received f)

theorem moves_of_step {s t : TcpipThread H A} {a : Action H A} (hstep : step s a = some t) :
    Moves s a t := by
  cases a with
  | tick =>
    cases hstep
    exact .tick
  | sysTimeout msecs handler arg =>
    simp only [step, Option.isNone_iff_eq_none, Option.ite_none_right_eq_some,
      Option.some.injEq] at hstep
    obtain ⟨hrunning, rfl⟩ := hstep
    exact .sysTimeout hrunning
  | sysUntimeout handler arg =>
    simp only [step, Option.isNone_iff_eq_none, Option.ite_none_right_eq_some,
      Option.some.injEq] at hstep
    obtain ⟨hrunning, rfl⟩ := hstep
    exact .sysUntimeout hrunning
  | sysTimeoutsMboxFetch =>
    simp only [step, Option.isNone_iff_eq_none, Option.ite_none_right_eq_some,
      Option.some.injEq] at hstep
    obtain ⟨hrunning, rfl⟩ := hstep
    exact .sysTimeoutsMboxFetch hrunning
  | queueEmpty =>
    simp only [step] at hstep
    split at hstep
    · cases hstep
    · next f hf =>
      split at hstep
      · next hnone =>
        cases hstep
        exact .queueEmpty hf (Option.isNone_iff_eq_none.mp hnone)
      · cases hstep
  | checkForTimeOut =>
    simp only [step] at hstep
    split at hstep
    · cases hstep
    · next f hf =>
      split at hstep
      · cases hstep
      · next xTimeOut hx =>
        split at hstep
        · next xTimeOut' xTicksToWait hleft =>
          cases hstep
          exact .waits hf hx hleft
        · next hexpired =>
          cases hstep
          exact .expires hf hx (by rw [hexpired])
  | message =>
    obtain ⟨f, hf, rfl⟩ := Option.map_eq_some_iff.mp hstep
    exact .message hf

/-! ## No timeout is early -/

/-- A charge of more time than has passed. -/
def Charge.over (c : Charge) : Bool := decide (c.elapsed < c.timeNeeded.toNat)

/-- How many fetches were charged with more time than they took. -/
def overcharged (s : TcpipThread H A) : Nat := s.charges.countP Charge.over

/-- The tick from which the times of the list count. -/
def base (s : TcpipThread H A) : Nat :=
  match s.fetch with
  | none => s.now
  | some f => f.start

/-- What holds while the thread waits. -/
structure FetchOk (s : TcpipThread H A) (f : Fetch) : Prop where
  start : f.start ≤ s.now
  nStartTime : f.nStartTime = xTickCount f.start
  empty : f.timeout = 0 ↔ s.nextTimeout = []
  head : ∀ t rest, s.nextTimeout = t :: rest → f.timeout = t.time
  ticks : f.timeout ≠ 0 → f.xTimeOut = none → f.xTicksToWait = f.timeout
  notBefore : f.timeout ≠ 0 → ∀ xTimeOut, f.xTimeOut = some xTimeOut →
    NotBefore (f.start + f.timeout.toNat) s.now xTimeOut f.xTicksToWait

structure TimersInv (s : TcpipThread H A) : Prop where
  span : span (s.nextTimeout.map Timeo.entry) < 2 ^ 32
  fetch : ∀ f, s.fetch = some f → FetchOk s f
  due : ∀ x h arg due, (x, h, arg, due) ∈ expiries (base s) (s.nextTimeout.map Timeo.entry) →
    due ≤ x + overcharged s
  calls : ∀ c ∈ s.calls, c.due ≤ c.now + overcharged s
  charges : ∀ c ∈ s.charges, c.timeNeeded.toNat ≤ c.elapsed ∨ c = ⟨1, 0⟩

namespace TimersInv

variable {s : TcpipThread H A}

omit [DecidableEq H] [DecidableEq A]

theorem init (now memp : Nat) : TimersInv (TcpipThread.init H A now memp) :=
  ⟨Nat.two_pow_pos 32, nofun, nofun, nofun, nofun⟩

theorem tick (h : TimersInv s) : TimersInv { s with now := s.now + 1 } where
  span := h.span
  fetch f hf := by
    have hok := h.fetch f hf
    exact { hok with
      start := Nat.le_succ_of_le hok.start
      notBefore := fun hne xTimeOut hx => (hok.notBefore hne xTimeOut hx).later (Nat.le_succ _) }
  due x h' arg due hx := by
    have hbase : base s ≤ base { s with now := s.now + 1 } := by
      unfold base
      simp only
      split <;> omega
    obtain ⟨y, hy, hmem⟩ := mem_expiries_mono (k := 0) hbase hx
    have hdue := h.due y h' arg due hmem
    simp only [overcharged] at hdue ⊢
    omega
  calls := h.calls
  charges := h.charges

theorem sysTimeout (h : TimersInv s) (hrunning : s.fetch = none) (msecs : BitVec 32)
    (handler : Option H) (arg : A) : TimersInv (s.sysTimeout msecs handler arg) := by
  unfold TcpipThread.sysTimeout
  split
  · exact h
  · simp only
    refine { h with span := ?_, fetch := fun f hf => ?_, due := fun x h' arg' due hx => ?_ }
    · rw [insertTimeout_entries, span_insert]
      exact max_lt msecs.isLt h.span
    · simp only [hrunning] at hf
      cases hf
    · rw [insertTimeout_entries, mem_expiries_insert] at hx
      rcases hx with heq | hx
      · simp only [base, hrunning] at heq
        cases heq
        exact Nat.le_add_right _ _
      · exact h.due x h' arg' due hx

theorem sysUntimeout [DecidableEq H] [DecidableEq A] (h : TimersInv s) (hrunning : s.fetch = none)
    (handler : Option H) (arg : A) : TimersInv (s.sysUntimeout handler arg) := by
  unfold TcpipThread.sysUntimeout
  simp only
  refine { h with span := ?_, fetch := fun f hf => ?_, due := fun x h' arg' due hx => ?_ }
  · rw [removeTimeout_entries handler arg h.span]
    exact lt_of_le_of_lt (span_remove_le _ _) h.span
  · simp only [hrunning] at hf
    cases hf
  · rw [removeTimeout_entries handler arg h.span, expiries_remove] at hx
    exact h.due x h' arg' due (List.mem_of_mem_eraseP hx)

theorem callHandler (h : TimersInv s) (hhead : ∀ t rest, s.nextTimeout = t :: rest →
    base s + t.time.toNat ≤ s.now) (hne : s.nextTimeout ≠ []) : TimersInv s.callHandler := by
  unfold TcpipThread.callHandler
  split
  · next hnil => exact absurd hnil hne
  · next t rest hlist =>
    have hnow := hhead t rest hlist
    have hspan := h.span
    have hdue := h.due
    rw [hlist, entries_cons] at hspan hdue
    rw [DeltaList.span] at hspan
    refine ⟨?_, fun f hf => (by cases hf), fun x h' arg due hx => ?_, fun c hc => ?_, h.charges⟩
    · simp only
      omega
    · obtain ⟨y, hy, hmem⟩ := mem_expiries_mono (k := 0) hnow hx
      have := hdue y h' arg due (List.mem_cons_of_mem _ hmem)
      simp only [overcharged] at this ⊢
      omega
    · have hfirst := hdue _ _ _ _ List.mem_cons_self
      simp only [overcharged] at hfirst ⊢
      rcases List.mem_append.mp hc with hc | hc
      · exact h.calls c hc
      · obtain ⟨handler, -, rfl⟩ := List.mem_map.mp hc
        simp only
        omega

theorem sysArchMboxFetch (h : TimersInv s) (hrunning : s.fetch = none) {timeout : BitVec 32}
    (hempty : timeout = 0 ↔ s.nextTimeout = [])
    (hhead : ∀ t rest, s.nextTimeout = t :: rest → timeout = t.time) :
    TimersInv (s.sysArchMboxFetch timeout) := by
  have hdue := h.due
  unfold base at hdue
  rw [hrunning] at hdue
  refine { h with fetch := fun f hf => ?_, due := hdue }
  cases hf
  exact ⟨le_refl _, rfl, hempty, hhead, fun hne _ => if_pos hne, nofun⟩

theorem sysTimeoutsMboxFetch (h : TimersInv s) (hrunning : s.fetch = none) :
    TimersInv s.sysTimeoutsMboxFetch := by
  unfold TcpipThread.sysTimeoutsMboxFetch
  split
  · next hnil =>
    refine h.sysArchMboxFetch hrunning (by simp [hnil]) fun t rest hlist => ?_
    rw [hnil] at hlist
    cases hlist
  · next t rest hlist =>
    split
    · next hpos =>
      have hne : t.time ≠ 0 := by
        intro h0
        rw [h0] at hpos
        exact absurd hpos (by decide)
      refine h.sysArchMboxFetch hrunning (by simpa [hlist] using hne) fun t' rest' hlist' => ?_
      rw [hlist] at hlist'
      cases hlist'
      rfl
    · next hzero =>
      refine h.callHandler (fun t' rest' hlist' => ?_) (by rw [hlist]; exact List.cons_ne_nil _ _)
      rw [hlist] at hlist'
      cases hlist'
      have h0 : t.time.toNat = 0 := by
        rw [gt_iff_lt, BitVec.lt_def] at hzero
        simpa using hzero
      rw [base, hrunning, h0]
      exact le_refl _

theorem queueEmpty (h : TimersInv s) {f : Fetch} (hf : s.fetch = some f)
    (hnone : f.xTimeOut = none) :
    TimersInv { s with
      fetch := some { f with xTimeOut := some (vTaskSetTimeOutState s.now) } } := by
  have hok := h.fetch f hf
  have hdue := h.due
  unfold base at hdue
  rw [hf] at hdue
  refine { h with fetch := fun f' hf' => ?_, due := hdue }
  cases hf'
  refine { hok with ticks := nofun, notBefore := fun hne xTimeOut hx => ?_ }
  cases hx
  have hticks := hok.ticks hne hnone
  obtain ⟨start, hstart, heq, hle⟩ := NotBefore.start s.now f.xTicksToWait
  refine ⟨start, hstart, heq, ?_⟩
  have hbegin := hok.start
  rw [hticks] at hle ⊢
  simp only
  omega

theorem nextTimeout_ne_nil (h : TimersInv s) {f : Fetch} (hf : s.fetch = some f)
    (htimeout : f.timeout ≠ 0) : s.nextTimeout ≠ [] :=
  fun hnil => htimeout ((h.fetch f hf).empty.mpr hnil)

theorem base_fetch {f : Fetch} (hf : s.fetch = some f) : base s = f.start := by
  rw [base, hf]

theorem reported (h : TimersInv s) {f : Fetch} (hf : s.fetch = some f) {nElapsed : BitVec 32}
    (heq : nElapsed = if xTickCount s.now - f.nStartTime = 0 then 1
      else xTickCount s.now - f.nStartTime) :
    nElapsed.toNat ≤ s.now - f.start ∨ (nElapsed = 1 ∧ s.now = f.start) := by
  have hok := h.fetch f hf
  have hstart := hok.start
  rw [hok.nStartTime] at heq
  split at heq
  · subst heq
    rcases Nat.eq_or_lt_of_le hstart with hsame | hlater
    · exact .inr ⟨rfl, hsame.symm⟩
    · left
      show 1 ≤ s.now - f.start
      omega
  · subst heq
    exact .inl (xTickCount_sub_le hstart)

theorem charged_entries (nElapsed : BitVec 32) (t : Timeo H A) (rest : List (Timeo H A)) :
    ({ t with time := if nElapsed < t.time then t.time - nElapsed else 0 } :: rest).map
        Timeo.entry =
      charge nElapsed.toNat ((t :: rest).map Timeo.entry) := by
  have htime : (if nElapsed < t.time then t.time - nElapsed else 0 : BitVec 32).toNat =
      t.time.toNat - nElapsed.toNat := by
    split
    · next hlt => exact BitVec.toNat_sub_of_le (BitVec.le_of_lt hlt)
    · next hge =>
      have hle := BitVec.le_def.mp (BitVec.not_lt.mp hge)
      show 0 = _
      omega
  rw [entries_cons, entries_cons, charge, htime]

theorem charged (h : TimersInv s) {f : Fetch} (hf : s.fetch = some f) {nElapsed : BitVec 32}
    (hreported : nElapsed.toNat ≤ s.now - f.start ∨ (nElapsed = 1 ∧ s.now = f.start))
    {t : Timeo H A} {rest : List (Timeo H A)} (hlist : s.nextTimeout = t :: rest) :
    TimersInv { s with
      nextTimeout := { t with time := if nElapsed < t.time then t.time - nElapsed else 0 } :: rest
      fetch := none
      charges := s.charges ++ [⟨nElapsed, s.now - f.start⟩] } := by
  have hstart := (h.fetch f hf).start
  have hspan := h.span
  have hdue := h.due
  rw [hlist] at hspan hdue
  rw [base_fetch hf] at hdue
  -- `k` is 1 for a charge of a tick that has not passed, and 0 for any other.
  obtain ⟨k, hk, hnow⟩ : ∃ k, (if Charge.over ⟨nElapsed, s.now - f.start⟩ then 1 else 0) = k ∧
      f.start + nElapsed.toNat ≤ s.now + k := by
    refine ⟨_, rfl, ?_⟩
    simp only [Charge.over, decide_eq_true_eq]
    rcases hreported with hle | ⟨rfl, hsame⟩
    · omega
    · rw [if_pos (by rw [hsame, Nat.sub_self]; decide)]
      show f.start + 1 ≤ s.now + 1
      omega
  have hover : ∀ c : TcpipThread H A,
      c.charges = s.charges ++ [⟨nElapsed, s.now - f.start⟩] →
        overcharged c = overcharged s + k := by
    intro c hc
    rw [overcharged, hc, List.countP_append, List.countP_singleton, hk, overcharged]
  refine ⟨?_, nofun, fun x h' arg due hx => ?_, fun c hc => ?_, fun c hc => ?_⟩
  · simp only [charged_entries]
    exact lt_of_le_of_lt (span_charge_le _ _) hspan
  · simp only [charged_entries, base] at hx
    obtain ⟨y, hy, hmem⟩ := mem_expiries_charge hnow hx
    have := hdue y h' arg due hmem
    rw [hover _ rfl]
    omega
  · have := h.calls c hc
    rw [hover _ rfl]
    omega
  · rcases List.mem_append.mp hc with hc | hc
    · exact h.charges c hc
    · obtain rfl := List.mem_singleton.mp hc
      rcases hreported with hle | ⟨rfl, hsame⟩
      · exact .inl hle
      · exact .inr (by rw [hsame, Nat.sub_self])

/-- What a message does: no timeout is pending, or the wait has outlasted every timeout, or the
first timeout is charged. -/
inductive Receives (s : TcpipThread H A) (f : Fetch) : TcpipThread H A → Prop
  | untimed (forever : f.timeout = 0) (empty : s.nextTimeout = []) :
      Receives s f { s with fetch := none }
  | outlasts (pending : f.timeout ≠ 0) (long : 2 ^ 32 - 1 ≤ s.now - f.start) :
      Receives s f s.callHandler
  | charges {nElapsed : BitVec 32} {t : Timeo H A} {rest : List (Timeo H A)}
      (pending : f.timeout ≠ 0) (positive : 0 < nElapsed.toNat)
      (reported : nElapsed.toNat ≤ s.now - f.start ∨ (nElapsed = 1 ∧ s.now = f.start))
      (list : s.nextTimeout = t :: rest) :
      Receives s f { s with
        nextTimeout :=
          { t with time := if nElapsed < t.time then t.time - nElapsed else 0 } :: rest
        fetch := none
        charges := s.charges ++ [⟨nElapsed, s.now - f.start⟩] }

theorem receives (h : TimersInv s) {f : Fetch} (hf : s.fetch = some f) :
    Receives s f (s.received f) := by
  unfold TcpipThread.received
  simp only
  generalize hreport : (if xTickCount s.now - f.nStartTime = 0 then 1
    else xTickCount s.now - f.nStartTime) = nElapsed
  have hreported := h.reported hf hreport.symm
  split
  · next hforever => exact .untimed hforever ((h.fetch f hf).empty.mp hforever)
  · next htimeout =>
    split
    · next hmax =>
      refine .outlasts htimeout ?_
      rcases hreported with hle | ⟨hone, -⟩
      · rw [hmax] at hle
        exact hle
      · rw [hmax] at hone
        cases hone
    · split
      · next hnil => exact absurd hnil (h.nextTimeout_ne_nil hf htimeout)
      · next hlist =>
        refine .charges htimeout ?_ hreported hlist
        rw [← hreport]
        split
        · decide
        · next hne => exact Nat.pos_of_ne_zero fun h0 => hne (BitVec.eq_of_toNat_eq h0)

theorem received (h : TimersInv s) {f : Fetch} (hf : s.fetch = some f) :
    TimersInv (s.received f) := by
  have hreceives := h.receives hf
  generalize s.received f = t at hreceives ⊢
  cases hreceives with
  | untimed _ hnil =>
    refine ⟨h.span, nofun, fun x h' arg due hx => ?_, h.calls, h.charges⟩
    simp only [hnil] at hx
    cases hx
  | outlasts htimeout hlong =>
    -- A fetch of 2^32 - 1 ticks looks like a timeout; by then every timeout is due.
    refine h.callHandler (fun t rest hlist => ?_) (h.nextTimeout_ne_nil hf htimeout)
    have ht := t.time.isLt
    have hstart := (h.fetch f hf).start
    rw [base_fetch hf]
    omega
  | charges _ _ hreported hlist => exact h.charged hf hreported hlist

theorem notReceived (h : TimersInv s) {f : Fetch} (hf : s.fetch = some f)
    {xTimeOut : TimeOut} (hx : f.xTimeOut = some xTimeOut)
    (hexpired : (xTaskCheckForTimeOut s.now xTimeOut f.xTicksToWait).1 = true) :
    TimersInv (s.notReceived f) := by
  have hok := h.fetch f hf
  have hbase := base_fetch hf
  unfold TcpipThread.notReceived
  split
  · next hforever =>
    have hdue := h.due
    rw [hbase] at hdue
    refine { h with fetch := fun f' hf' => ?_, due := hdue }
    cases hf'
    exact { hok with ticks := fun hne => absurd hforever hne, notBefore := nofun }
  · next htimeout =>
    refine h.callHandler (fun t rest hlist => ?_) (h.nextTimeout_ne_nil hf htimeout)
    have hdeadline := (hok.notBefore htimeout xTimeOut hx).expired hexpired
    rw [hbase, ← hok.head t rest hlist]
    exact hdeadline

theorem checkForTimeOut (h : TimersInv s) {f : Fetch} (hf : s.fetch = some f)
    {xTimeOut xTimeOut' : TimeOut} {xTicksToWait : PortTickType} (hx : f.xTimeOut = some xTimeOut)
    (hleft : xTaskCheckForTimeOut s.now xTimeOut f.xTicksToWait =
      (false, xTimeOut', xTicksToWait)) :
    TimersInv { s with
      fetch := some { f with xTimeOut := some xTimeOut', xTicksToWait := xTicksToWait } } := by
  have hok := h.fetch f hf
  have hdue := h.due
  rw [base_fetch hf] at hdue
  refine { h with fetch := fun f' hf' => ?_, due := hdue }
  cases hf'
  refine { hok with ticks := nofun, notBefore := fun hne xTimeOut'' hx'' => ?_ }
  cases hx''
  have hkeep := (hok.notBefore hne xTimeOut hx).left (by rw [hleft])
  rw [hleft] at hkeep
  exact hkeep

theorem step [DecidableEq H] [DecidableEq A] (h : TimersInv s) {a : Action H A}
    {t : TcpipThread H A} (hstep : Timers.step s a = some t) : TimersInv t := by
  cases moves_of_step hstep with
  | tick => exact h.tick
  | sysTimeout hrunning => exact h.sysTimeout hrunning _ _ _
  | sysUntimeout hrunning => exact h.sysUntimeout hrunning _ _
  | sysTimeoutsMboxFetch hrunning => exact h.sysTimeoutsMboxFetch hrunning
  | queueEmpty hf hnone => exact h.queueEmpty hf hnone
  | waits hf hx hleft => exact h.checkForTimeOut hf hx hleft
  | expires hf hx hexpired => exact h.notReceived hf hx hexpired
  | message hf => exact h.received hf

end TimersInv

/-! ## Every run -/

/-- No handler was called before it was due, and no fetch was charged with more than it took. -/
def NotEarly (s : TcpipThread H A) : Prop :=
  (∀ c ∈ s.calls, c.due ≤ c.now) ∧ ∀ c ∈ s.charges, c.timeNeeded.toNat ≤ c.elapsed

/-- A message that comes while a timeout is pending comes at least a tick after the fetch. -/
def TickPassed (s : TcpipThread H A) (a : Action H A) : Prop :=
  match a, s.fetch with
  | .message, some f => f.timeout ≠ 0 → f.start < s.now
  | _, _ => True

omit [DecidableEq H] [DecidableEq A] in
theorem notEarly_of_overcharged {s : TcpipThread H A} (h : TimersInv s)
    (hover : overcharged s = 0) : NotEarly s := by
  refine ⟨fun c hc => ?_, fun c hc => ?_⟩
  · have := h.calls c hc
    omega
  · rw [overcharged, List.countP_eq_zero] at hover
    have := hover c hc
    simp only [Charge.over, decide_eq_true_eq] at this
    omega

omit [DecidableEq H] [DecidableEq A] in
theorem overcharged_of_notEarly {s : TcpipThread H A} (h : NotEarly s) : overcharged s = 0 := by
  rw [overcharged, List.countP_eq_zero]
  intro c hc
  have := h.2 c hc
  simp only [Charge.over, decide_eq_true_eq]
  omega

omit [DecidableEq H] [DecidableEq A] in
theorem callHandler_charges (s : TcpipThread H A) : s.callHandler.charges = s.charges := by
  unfold TcpipThread.callHandler
  split <;> rfl

theorem charges_step {s t : TcpipThread H A} {a : Action H A} (hstep : step s a = some t)
    (hmessage : a ≠ .message) : t.charges = s.charges := by
  cases moves_of_step hstep with
  | tick | sysUntimeout | queueEmpty | waits => rfl
  | sysTimeout =>
    unfold TcpipThread.sysTimeout
    split <;> rfl
  | sysTimeoutsMboxFetch =>
    unfold TcpipThread.sysTimeoutsMboxFetch
    split
    · rfl
    · split
      · rfl
      · exact callHandler_charges s
  | expires =>
    unfold TcpipThread.notReceived
    split
    · rfl
    · exact callHandler_charges s
  | message => exact absurd rfl hmessage

omit [DecidableEq H] [DecidableEq A] in
/-- A message that comes within the tick of the fetch is charged with a tick. -/
theorem received_sameTick {s : TcpipThread H A} (h : TimersInv s) {f : Fetch}
    (hf : s.fetch = some f) (hsame : f.start = s.now) {t : Timeo H A} {rest : List (Timeo H A)}
    (hlist : s.nextTimeout = t :: rest) :
    0 < t.time.toNat ∧ s.received f = { s with
      nextTimeout := { t with time := t.time - 1 } :: rest
      fetch := none
      charges := s.charges ++ [⟨1, 0⟩] } := by
  have hok := h.fetch f hf
  have hone : (if xTickCount s.now - f.nStartTime = 0 then 1
      else xTickCount s.now - f.nStartTime) = 1 := by
    rw [hok.nStartTime, hsame, BitVec.sub_self]
    rfl
  have htimeout : f.timeout ≠ 0 := by
    rw [Ne, hok.empty, hlist]
    exact List.cons_ne_nil _ _
  have hpos : 0 < t.time.toNat := by
    rw [← hok.head t rest hlist]
    exact Nat.pos_of_ne_zero fun h0 => htimeout (BitVec.eq_of_toNat_eq h0)
  have hcharged : (if (1 : BitVec 32) < t.time then t.time - 1 else 0) = t.time - 1 := by
    split
    · rfl
    · next hge =>
      rw [BitVec.lt_def] at hge
      have heq : t.time = 1 := BitVec.eq_of_toNat_eq (by simp at hge ⊢; omega)
      rw [heq]
      rfl
  refine ⟨hpos, ?_⟩
  unfold TcpipThread.received
  simp only [hone, hsame, Nat.sub_self, hlist]
  rw [if_neg htimeout, if_neg (by decide), hcharged]

omit [DecidableEq H] [DecidableEq A] in
theorem received_charges {s : TcpipThread H A} (h : TimersInv s) {f : Fetch}
    (hf : s.fetch = some f) (htimeout : f.timeout ≠ 0) (hsame : f.start = s.now) :
    (s.received f).charges = s.charges ++ [⟨1, 0⟩] := by
  obtain ⟨t, rest, hlist⟩ := List.exists_cons_of_ne_nil (h.nextTimeout_ne_nil hf htimeout)
  rw [(received_sameTick h hf hsame hlist).2]

/-- From a fetch whose tick is not over, messages within that tick lead to the handler of the
first timeout, by the milliseconds too early that it has left. -/
theorem fires_early {s : TcpipThread H A} (h : TimersInv s) {f : Fetch} (hf : s.fetch = some f)
    (hsame : f.start = s.now) {t : Timeo H A} {rest : List (Timeo H A)}
    (hlist : s.nextTimeout = t :: rest) {handler : H} (hh : t.h = some handler)
    (hdue : s.now + t.time.toNat ≤ t.due) :
    ∃ bs u, run step s bs = some u ∧ ∃ c ∈ u.calls, c.h = handler ∧ c.now < c.due := by
  induction hk : t.time.toNat generalizing s f t with
  | zero =>
    have hpos := (received_sameTick h hf hsame hlist).1
    omega
  | succ k ih =>
    have hreceived := (received_sameTick h hf hsame hlist).2
    have hmessage : step s .message = some (s.received f) := by
      simp only [step, hf, Option.map_some]
    have htime : (t.time - 1).toNat = k := by
      rw [BitVec.toNat_sub_of_le (by rw [BitVec.le_def, hk]; simp), hk]
      rfl
    have hfetch : step (s.received f) .sysTimeoutsMboxFetch =
        some (s.received f).sysTimeoutsMboxFetch := by
      simp [step, hreceived]
    have hrun : ∀ bs, run step s (.message :: .sysTimeoutsMboxFetch :: bs) =
        run step (s.received f).sysTimeoutsMboxFetch bs := by
      intro bs
      rw [run_cons, hmessage, Option.bind_some, run_cons, hfetch, Option.bind_some]
    by_cases hpositive : t.time - 1 > 0
    · -- The thread waits again, for a tick less.
      have hnext : (s.received f).sysTimeoutsMboxFetch =
          (s.received f).sysArchMboxFetch (t.time - 1) := by
        simp only [TcpipThread.sysTimeoutsMboxFetch, hreceived, if_pos hpositive]
      obtain ⟨bs, u, hu, hearly⟩ := ih ((h.step hmessage).step hfetch)
        (f := { nStartTime := xTickCount s.now, timeout := t.time - 1,
                xTicksToWait := if t.time - 1 ≠ 0 then t.time - 1 else 10000,
                xTimeOut := none, start := s.now })
        (t := { t with time := t.time - 1 })
        (by rw [hnext, hreceived]; rfl) (by rw [hnext, hreceived]; rfl)
        (by rw [hnext, hreceived]; rfl) hh
        (by rw [hnext, hreceived]; simp only [TcpipThread.sysArchMboxFetch, htime]; omega) htime
      exact ⟨_, u, (hrun bs).trans hu, hearly⟩
    · have hcalls : (s.received f).sysTimeoutsMboxFetch.calls =
          s.calls ++ [⟨t.due, s.now, handler, t.arg⟩] := by
        simp only [TcpipThread.sysTimeoutsMboxFetch, hreceived, if_neg hpositive,
          TcpipThread.callHandler, TcpipThread.called, hh, Option.toList_some, List.map_cons,
          List.map_nil]
      refine ⟨_, _, hrun [], ⟨t.due, s.now, handler, t.arg⟩, ?_, rfl, by simp only; omega⟩
      rw [hcalls]
      exact List.mem_append_right _ List.mem_cons_self

omit [DecidableEq H] [DecidableEq A] in
theorem received_overcharged {s : TcpipThread H A} (h : TimersInv s) {f : Fetch}
    (hf : s.fetch = some f) (hpassed : f.timeout ≠ 0 → f.start < s.now) :
    overcharged (s.received f) = overcharged s := by
  have hreceives := h.receives hf
  generalize s.received f = t at hreceives ⊢
  cases hreceives with
  | untimed => rfl
  | outlasts => rw [overcharged, callHandler_charges, overcharged]
  | @charges nElapsed _ _ htimeout _ hreported =>
    have hlater := hpassed htimeout
    have hfair : Charge.over ⟨nElapsed, s.now - f.start⟩ = false := by
      simp only [Charge.over, decide_eq_false_iff_not]
      omega
    rw [overcharged, List.countP_append, List.countP_singleton, hfair]
    rfl

theorem notEarly_iff {s t : TcpipThread H A} {a : Action H A}
    (h : TimersInv s ∧ overcharged s = 0) (hstep : step s a = some t) :
    NotEarly t ↔ TickPassed s a := by
  obtain ⟨hinv, hover⟩ := h
  have ht := hinv.step hstep
  by_cases hmessage : a = .message
  · subst hmessage
    obtain ⟨f, hf, rfl⟩ := Option.map_eq_some_iff.mp hstep
    simp only [TickPassed, hf]
    constructor
    · intro hnot htimeout
      have hstart := (hinv.fetch f hf).start
      refine lt_of_le_of_ne hstart fun hsame => ?_
      have hcharge := hnot.2 ⟨1, 0⟩ (by
        rw [received_charges hinv hf htimeout hsame]
        exact List.mem_append_right _ (List.mem_singleton_self _))
      exact absurd hcharge (by decide)
    · intro hpassed
      refine notEarly_of_overcharged ht ?_
      rw [received_overcharged hinv hf hpassed, hover]
  · have htrivial : TickPassed s a := by
      unfold TickPassed
      split
      · exact absurd rfl hmessage
      · trivial
    have hsame : overcharged t = 0 := by
      rw [overcharged, charges_step hstep hmessage, ← overcharged, hover]
    exact ⟨fun _ => htrivial, fun _ => notEarly_of_overcharged ht hsame⟩

/-- In every run: a handler is early by no more ticks than there were messages that came
within the tick of their fetch. -/
theorem calls_early_by_at_most (now memp : Nat) {as : List (Action H A)} {t : TcpipThread H A}
    (hrun : run step (TcpipThread.init H A now memp) as = some t) :
    ∀ c ∈ t.calls, c.due ≤ c.now + overcharged t :=
  (run_invariant (fun _ _ _ h hstep => h.step hstep) (TimersInv.init now memp) hrun).calls

/-- Over a run no timeout fires early, and no fetch is charged with time that did not pass,
exactly when each message that comes while a timeout is pending comes a tick or more after
the fetch. And where it can come earlier, and the first timeout is not late already, its
handler can be called too early. -/
theorem timeouts_notEarly_iff (now memp : Nat) (as : List (Action H A)) :
    (EveryStep step (fun _ _ t => NotEarly t) (TcpipThread.init H A now memp) as ↔
      EveryStep step (fun s a _ => TickPassed s a) (TcpipThread.init H A now memp) as) ∧
    ∀ s f t rest handler, run step (TcpipThread.init H A now memp) as = some s →
      s.fetch = some f → f.start = s.now → s.nextTimeout = t :: rest → t.h = some handler →
      s.now + t.time.toNat ≤ t.due →
      ∃ bs u, run step s bs = some u ∧ ∃ c ∈ u.calls, c.h = handler ∧ c.now < c.due := by
  constructor
  · have hinit : TimersInv (TcpipThread.init H A now memp) ∧
        overcharged (TcpipThread.init H A now memp) = 0 := ⟨TimersInv.init now memp, rfl⟩
    refine everyStep_congr (I := fun s => TimersInv s ∧ overcharged s = 0)
      (fun s a t h hstep => notEarly_iff h hstep) (fun s a t h hstep hnot => ?_) as hinit
    exact ⟨h.1.step hstep, overcharged_of_notEarly hnot⟩
  · intro s f t rest handler hrun hf hsame hlist hh hdue
    have hinv := run_invariant (fun _ _ _ h hstep => TimersInv.step h hstep)
      (TimersInv.init now memp) hrun
    exact fires_early hinv hf hsame hlist hh hdue

/-- A timeout of 5 ms, and the thread waits in the tick of the registration. -/
theorem timeouts_notEarly_iff_five :
    ∃ s bs u, run step (TcpipThread.init Nat Nat 0 8)
        [.sysTimeout 5 (some 0) 0, .sysTimeoutsMboxFetch] = some s ∧
      run step s bs = some u ∧ ∃ c ∈ u.calls, c.h = 0 ∧ c.now < c.due := by
  obtain ⟨bs, u, hu⟩ := (timeouts_notEarly_iff 0 8
    [.sysTimeout 5 (some 0) 0, .sysTimeoutsMboxFetch]).2 _ _ _ _ 0 rfl rfl rfl rfl rfl (by decide)
  exact ⟨_, bs, u, rfl, hu⟩

/-- Five messages within one tick, and a timeout of 5 ms fires at once. -/
theorem timeout_fires_early :
    ∃ t, run step (TcpipThread.init Nat Nat 0 8)
      (.sysTimeout 5 (some 0) 0 :: (List.replicate 5 [.sysTimeoutsMboxFetch, .message]).flatten ++
        [.sysTimeoutsMboxFetch]) = some t ∧ t.calls = [⟨5, 0, 0, 0⟩] ∧
      ¬ NotEarly t := by
  have hruns : (run step (TcpipThread.init Nat Nat 0 8)
      (.sysTimeout 5 (some 0) 0 :: (List.replicate 5 [.sysTimeoutsMboxFetch, .message]).flatten ++
        [.sysTimeoutsMboxFetch])).map (·.calls) = some [⟨5, 0, 0, 0⟩] := by
    decide +kernel
  obtain ⟨t, hrun, hcalls⟩ := Option.map_eq_some_iff.mp hruns
  refine ⟨t, hrun, hcalls, fun hnot => ?_⟩
  have hdue := hnot.1 ⟨5, 0, 0, 0⟩ (by rw [hcalls]; exact List.mem_singleton_self _)
  exact absurd hdue (by decide)

end Timers

end FreeLwip.SysArch
