import FreeLwip.Api.Sockets

/-!
# Receive events while a socket is created (`sockets.c`)

`event_callback` against the steps of `lwip_socket` and `lwip_accept`. Until a connection knows
its descriptor, the events are counted down in `conn->socket`. A step is one access to what the
tasks share, or one section under SYS_ARCH_PROTECT.
-/

namespace FreeLwip.Api.Events

open Run

structure Netconn where
  socket : Int
  /-- It waits in an acceptmbox. -/
  pending : Bool
  live : Bool
  -- The history; the code reads none of it.
  returned : Bool
  plus : Nat
  minus : Nat

/-- After `netconn_alloc`. -/
def Netconn.alloc (pending : Bool) : Netconn where
  socket := -1
  pending := pending
  live := true
  returned := false
  plus := 0
  minus := 0

/-- An event is reported: its section under SYS_ARCH_PROTECT has run. -/
def Netconn.report (conn : Netconn) : NetconnEvt → Netconn
  | .rcvplus => { conn with plus := conn.plus + 1 }
  | .rcvminus => { conn with minus := conn.minus + 1 }
  | _ => conn

/-- What a task does. -/
inductive Pc
  | idle
  -- In `alloc_socket`, with the index of its loop, and after it.
  | alloc (c : ConnId) (type : NetconnType) (accepted : Bool) (i : Nat)
  | reset (c : ConnId) (type : NetconnType) (accepted : Bool) (i : Nat)
  | publish (c : ConnId) (accepted : Bool) (i : Nat)
  -- In `event_callback`: before `conn->socket` is read, with a negative value read, with a
  -- descriptor, and with its entry.
  | callback (c : ConnId) (evt : NetconnEvt)
  | negative (c : ConnId) (evt : NetconnEvt)
  | lookup (c : ConnId) (evt : NetconnEvt) (s : Int)
  | update (c : ConnId) (evt : NetconnEvt) (i : Nat)
  deriving DecidableEq

structure State (Task : Type*) where
  sockets : Sockets
  conn : ConnId → Netconn
  /-- The calls of `netconn_alloc`; each has a connection of its own. -/
  conns : Nat
  pc : Task → Pc

variable {Task : Type*}

def init (conn : ConnId → Netconn) : State Task where
  sockets _ := LwipSock.zero
  conn := conn
  conns := 0
  pc _ := .idle

namespace State

def setConn (s : State Task) (c : ConnId) (conn : Netconn) : State Task :=
  { s with conn := Function.update s.conn c conn }

def setSock (s : State Task) (i : Nat) (sock : LwipSock) : State Task :=
  { s with sockets := Function.update s.sockets i sock }

/-- `netconn_alloc`; the new connection is the one numbered `conns`. -/
def netconnAlloc (s : State Task) (pending : Bool) : State Task :=
  { s.setConn s.conns (.alloc pending) with conns := s.conns + 1 }

variable [DecidableEq Task]

def setPc (s : State Task) (τ : Task) (pc : Pc) : State Task :=
  { s with pc := Function.update s.pc τ pc }

/-- A turn of the loop in `alloc_socket`. -/
def allocTurn (s : State Task) (τ : Task) (c : ConnId) (type : NetconnType) (accepted : Bool)
    (i : Nat) : State Task :=
  if i < numSockets then
    if (s.sockets i).conn.isNone then
      (s.setSock i { s.sockets i with conn := some c }).setPc τ (.reset c type accepted i)
    else
      s.setPc τ (.alloc c type accepted (i + 1))
  else
    (s.setConn c { s.conn c with live := false }).setPc τ .idle

/-- The new connection gets its descriptor, and the call returns it. -/
def publish (s : State Task) (τ : Task) (c : ConnId) (accepted : Bool) (i : Nat) : State Task :=
  let conn := s.conn c
  let sock := s.sockets i
  let s :=
    if accepted then
      s.setSock i { sock with rcvevent := sock.rcvevent + BitVec.ofInt 16 (-1 - conn.socket) }
    else
      s
  (s.setConn c { conn with socket := i + lwipSocketOffset, returned := true }).setPc τ .idle

/-- The first section under SYS_ARCH_PROTECT in `event_callback`. -/
def countDown (s : State Task) (τ : Task) (c : ConnId) (evt : NetconnEvt) : State Task :=
  let conn := s.conn c
  if conn.socket < 0 then
    let conn := if evt = .rcvplus then { conn with socket := conn.socket - 1 } else conn
    (s.setConn c (conn.report evt)).setPc τ .idle
  else
    s.setPc τ (.lookup c evt conn.socket)

/-- The second one, up to the walk over the waiting selects. -/
def setEvent (s : State Task) (τ : Task) (c : ConnId) (evt : NetconnEvt) (i : Nat) :
    State Task :=
  ((s.setSock i ((s.sockets i).setEvent evt)).setConn c ((s.conn c).report evt)).setPc τ .idle

/-- The next step of a task that is in a call. -/
def turn (s : State Task) (τ : Task) : Pc → Option (State Task)
  | .idle => none
  | .alloc c type accepted i => some (s.allocTurn τ c type accepted i)
  | .reset c type accepted i =>
    some ((s.setSock i ((s.sockets i).reset type accepted)).setPc τ (.publish c accepted i))
  | .publish c accepted i => some (s.publish τ c accepted i)
  | .callback c evt =>
    some (s.setPc τ (if (s.conn c).socket < 0 then .negative c evt
      else .lookup c evt (s.conn c).socket))
  | .negative c evt => some (s.countDown τ c evt)
  | .lookup c evt fd =>
    some (s.setPc τ (match getSocket s.sockets fd with
      | none => .idle
      | some i => .update c evt i))
  | .update c evt i => some (s.setEvent τ c evt i)

end State

inductive Action (Task : Type*)
  | socket (τ : Task) (type protocol : Int)
  /-- `netconn_accept` gives `lwip_accept` the connection `c`. -/
  | accept (τ : Task) (c : ConnId)
  /-- `accept_function` of the stack. -/
  | incoming
  /-- A call of `event_callback`. Data is taken from a connection through its socket. -/
  | event (τ : Task) (c : ConnId) (evt : NetconnEvt)
  | turn (τ : Task)

def step [DecidableEq Task] (s : State Task) : Action Task → Option (State Task)
  | .socket τ type protocol =>
    if s.pc τ = .idle then
      match netconnTypeOf type protocol with
      | none => some s
      | some t => some ((s.netconnAlloc false).setPc τ (.alloc s.conns t false 0))
    else
      none
  | .accept τ c =>
    if s.pc τ = .idle ∧ c < s.conns ∧ (s.conn c).pending then
      some ((s.setConn c { s.conn c with pending := false }).setPc τ (.alloc c .tcp true 0))
    else
      none
  | .incoming => some (s.netconnAlloc true)
  | .event τ c evt =>
    if s.pc τ = .idle ∧ c < s.conns ∧ (s.conn c).live ∧
        (evt = .rcvminus → (s.conn c).returned) then
      some (s.setPc τ (.callback c evt))
    else
      none
  | .turn τ => s.turn τ (s.pc τ)

/-! ## The count of a connection -/

/-- The connection that a task is creating a socket for. -/
def Pc.creates : Pc → Option ConnId
  | .alloc c _ _ _ => some c
  | .reset c _ _ _ => some c
  | .publish c _ _ => some c
  | _ => none

def PcOk (s : State Task) : Pc → Prop
  | .idle => True
  | .alloc c _ _ _ =>
    c < s.conns ∧ (s.conn c).returned = false ∧ ∀ i, (s.sockets i).conn ≠ some c
  | .reset c _ _ i =>
    c < s.conns ∧ (s.conn c).returned = false ∧ (s.sockets i).conn = some c
  | .publish c _ i =>
    c < s.conns ∧ (s.conn c).returned = false ∧ (s.sockets i).conn = some c ∧
      (s.sockets i).rcvevent = 0
  | .callback c evt => c < s.conns ∧ (evt = .rcvminus → (s.conn c).returned = true)
  | .negative c evt => c < s.conns ∧ (evt = .rcvminus → (s.conn c).returned = true)
  | .lookup c _ fd => c < s.conns ∧ (s.conn c).returned = true ∧ (s.conn c).socket = fd
  | .update c _ i => c < s.conns ∧ (s.conn c).returned = true ∧ (s.sockets i).conn = some c

/-- The events are counted in `conn->socket` until it is a descriptor, and in the entry of the
table from then on. -/
structure EventsInv (s : State Task) : Prop where
  bound : ∀ i c, (s.sockets i).conn = some c → i < numSockets ∧ c < s.conns
  inj : ∀ i j c, (s.sockets i).conn = some c → (s.sockets j).conn = some c → i = j
  counted : ∀ c < s.conns, (s.conn c).returned = false →
    (s.conn c).socket = -1 - (s.conn c).plus ∧ (s.conn c).minus = 0
  returned : ∀ c < s.conns, (s.conn c).returned = true →
    ∃ i : Nat, (s.conn c).socket = lwipSocketOffset + i ∧ (s.sockets i).conn = some c ∧
      (s.sockets i).rcvevent = BitVec.ofInt 16 ((s.conn c).plus - (s.conn c).minus)
  pending : ∀ c < s.conns, (s.conn c).pending = true →
    (s.conn c).returned = false ∧ (∀ i, (s.sockets i).conn ≠ some c) ∧
      ∀ τ, (s.pc τ).creates ≠ some c
  unique : ∀ τ τ' c, (s.pc τ).creates = some c → (s.pc τ').creates = some c → τ = τ'
  pc : ∀ τ, PcOk s (s.pc τ)

section Invariant

variable {s t : State Task} {τ : Task} {c : ConnId} {i : Nat} {pc : Pc} {conn : Netconn}

theorem init_inv (conn : ConnId → Netconn) : EventsInv (init conn : State Task) where
  bound _ _ h := by simp [init, LwipSock.zero] at h
  inj _ _ _ h := by simp [init, LwipSock.zero] at h
  counted _ h := absurd h (Nat.not_lt_zero _)
  returned _ h := absurd h (Nat.not_lt_zero _)
  pending _ h := absurd h (Nat.not_lt_zero _)
  unique _ _ _ h := by simp [init, Pc.creates] at h
  pc _ := trivial

theorem PcOk.creates_lt (h : PcOk s pc) (hc : pc.creates = some c) :
    c < s.conns ∧ (s.conn c).returned = false := by
  cases pc <;> cases hc
  case alloc => exact ⟨h.1, h.2.1⟩
  case reset => exact ⟨h.1, h.2.1⟩
  case publish => exact ⟨h.1, h.2.1⟩

theorem PcOk.mono (h : PcOk s pc) (hconns : s.conns ≤ t.conns)
    (hret : ∀ c < s.conns, (s.conn c).returned = true →
      (t.conn c).returned = true ∧ (t.conn c).socket = (s.conn c).socket)
    (hnew : ∀ c, pc.creates = some c → (t.conn c).returned = false)
    (hslot : ∀ i c, (s.sockets i).conn = some c → (t.sockets i).conn = some c)
    (hfree : ∀ i c, pc.creates = some c → (t.sockets i).conn = some c → (s.sockets i).conn = some c)
    (hzero : ∀ i c, pc.creates = some c → (s.sockets i).conn = some c →
      (s.sockets i).rcvevent = 0 → (t.sockets i).rcvevent = 0) : PcOk t pc := by
  cases pc with
  | idle => trivial
  | alloc c type accepted i =>
    obtain ⟨hc, -, hno⟩ := h
    exact ⟨hc.trans_le hconns, hnew c rfl, fun j hj => hno j (hfree j c rfl hj)⟩
  | reset c type accepted i =>
    obtain ⟨hc, -, hi⟩ := h
    exact ⟨hc.trans_le hconns, hnew c rfl, hslot i c hi⟩
  | publish c accepted i =>
    obtain ⟨hc, -, hi, hz⟩ := h
    exact ⟨hc.trans_le hconns, hnew c rfl, hslot i c hi, hzero i c rfl hi hz⟩
  | callback c evt => exact ⟨h.1.trans_le hconns, fun he => (hret c h.1 (h.2 he)).1⟩
  | negative c evt => exact ⟨h.1.trans_le hconns, fun he => (hret c h.1 (h.2 he)).1⟩
  | lookup c evt fd =>
    obtain ⟨hc, hr, rfl⟩ := h
    obtain ⟨hr', hs⟩ := hret c hc hr
    exact ⟨hc.trans_le hconns, hr', hs⟩
  | update c evt i =>
    obtain ⟨hc, hr, hi⟩ := h
    exact ⟨hc.trans_le hconns, (hret c hc hr).1, hslot i c hi⟩

section SetPc

variable [DecidableEq Task]

theorem pcOk_setPc {pc' : Pc} : PcOk (s.setPc τ pc) pc' ↔ PcOk s pc' := by
  cases pc' <;> rfl

end SetPc

namespace EventsInv

theorem creates_kept (pc : Pc) (h : EventsInv s) (hcreates : pc.creates = (s.pc τ).creates) :
    ∀ c, pc.creates = some c →
      (s.conn c).pending = false ∧ ∀ τ' ≠ τ, (s.pc τ').creates ≠ some c := by
  intro c hc
  rw [hcreates] at hc
  refine ⟨Bool.eq_false_iff.mpr fun hp => ?_, fun τ' hne hτ' => hne (h.unique τ' τ c hτ' hc)⟩
  exact (h.pending c ((h.pc τ).creates_lt hc).1 hp).2.2 τ hc

theorem netconnAlloc (h : EventsInv s) (pending : Bool) :
    EventsInv (s.netconnAlloc pending) ∧
      PcOk (s.netconnAlloc pending) (.alloc s.conns .tcp true 0) ∧
      (∀ τ, ((s.netconnAlloc pending).pc τ).creates ≠ some s.conns) := by
  have hold : ∀ c < s.conns, (s.netconnAlloc pending).conn c = s.conn c := fun c hc =>
    Function.update_of_ne (Nat.ne_of_lt hc) _ _
  have hself : (s.netconnAlloc pending).conn s.conns = .alloc pending := Function.update_self ..
  have hno : ∀ i, (s.sockets i).conn ≠ some s.conns := fun i hi =>
    absurd (h.bound i _ hi).2 (Nat.lt_irrefl _)
  have htasks : ∀ τ, (s.pc τ).creates ≠ some s.conns := fun τ hτ =>
    absurd ((h.pc τ).creates_lt hτ).1 (Nat.lt_irrefl _)
  have hcases : ∀ c < (s.netconnAlloc pending).conns, c < s.conns ∨ c = s.conns := fun c hc =>
    Nat.lt_succ_iff_lt_or_eq.mp hc
  refine ⟨?_, ⟨Nat.lt_succ_self _, by rw [hself]; rfl, hno⟩, htasks⟩
  constructor
  case bound => exact fun i c hi => ⟨(h.bound i c hi).1, Nat.lt_succ_of_lt (h.bound i c hi).2⟩
  case inj => exact h.inj
  case unique => exact h.unique
  case counted =>
    intro c hc hr
    rcases hcases c hc with hlt | rfl
    · rw [hold c hlt] at hr ⊢
      exact h.counted c hlt hr
    · rw [hself]
      exact ⟨rfl, rfl⟩
  case returned =>
    intro c hc hr
    rcases hcases c hc with hlt | rfl
    · rw [hold c hlt] at hr ⊢
      exact h.returned c hlt hr
    · rw [hself] at hr
      cases hr
  case pending =>
    intro c hc hp
    rcases hcases c hc with hlt | rfl
    · rw [hold c hlt] at hp ⊢
      exact h.pending c hlt hp
    · rw [hself]
      exact ⟨rfl, hno, htasks⟩
  case pc =>
    intro τ
    refine (h.pc τ).mono (Nat.le_succ _) (fun c hc hr => ?_) (fun c hc => ?_) (fun _ _ => id)
      (fun _ _ _ => id) (fun _ _ _ _ => id)
    · rw [hold c hc]
      exact ⟨hr, rfl⟩
    · obtain ⟨hlt, hr⟩ := (h.pc τ).creates_lt hc
      rw [hold c hlt]
      exact hr

theorem setConn (h : EventsInv s) (hret : conn.returned = (s.conn c).returned)
    (hpending : conn.pending = true → (s.conn c).pending = true)
    (hcounted : conn.returned = false → c < s.conns → conn.socket = -1 - conn.plus ∧ conn.minus = 0)
    (hsame : conn.returned = true → conn.socket = (s.conn c).socket ∧
      conn.plus = (s.conn c).plus ∧ conn.minus = (s.conn c).minus) :
    EventsInv (s.setConn c conn) := by
  have hret' : ∀ d, ((s.setConn c conn).conn d).returned = (s.conn d).returned := by
    intro d
    by_cases hd : d = c
    · subst hd
      simpa [State.setConn] using hret
    · simp [State.setConn, hd]
  have hsocket : ∀ d, (s.conn d).returned = true →
      ((s.setConn c conn).conn d).socket = (s.conn d).socket := by
    intro d hr
    by_cases hd : d = c
    · subst hd
      simpa [State.setConn] using (hsame (hret.trans hr)).1
    · simp [State.setConn, hd]
  constructor
  case bound => exact h.bound
  case inj => exact h.inj
  case unique => exact h.unique
  case counted =>
    intro d hd hr
    by_cases hdc : d = c
    · subst hdc
      simp only [State.setConn, Function.update_self] at hr ⊢
      exact hcounted hr hd
    · simp only [State.setConn, Function.update_of_ne hdc] at hr ⊢
      exact h.counted d hd hr
  case returned =>
    intro d hd hr
    rw [hret'] at hr
    obtain ⟨i, hi, hslot, hcount⟩ := h.returned d hd hr
    refine ⟨i, (hsocket d hr).trans hi, hslot, hcount.trans ?_⟩
    by_cases hdc : d = c
    · subst hdc
      obtain ⟨-, hplus, hminus⟩ := hsame (hret.trans hr)
      simp [State.setConn, hplus, hminus]
    · simp [State.setConn, hdc]
  case pending =>
    intro d hd hp
    rw [hret']
    refine h.pending d hd ?_
    by_cases hdc : d = c
    · subst hdc
      exact hpending (by simpa [State.setConn] using hp)
    · simpa [State.setConn, hdc] using hp
  case pc =>
    intro τ
    refine (h.pc τ).mono (Nat.le_refl _) (fun d hd hr => ⟨(hret' d).trans hr, hsocket d hr⟩)
      (fun d hd => ?_) (fun _ _ => id) (fun _ _ _ => id) (fun _ _ _ _ => id)
    exact (hret' d).trans ((h.pc τ).creates_lt hd).2

theorem not_creates (h : EventsInv s) (hret : (s.conn c).returned = true) :
    (∀ τ, (s.pc τ).creates ≠ some c) := by
  intro τ hτ
  rw [((h.pc τ).creates_lt hτ).2] at hret
  cases hret

theorem claim (h : EventsInv s) (hc : c < s.conns) (hret : (s.conn c).returned = false)
    (hpending : (s.conn c).pending = false) (hno : ∀ j, (s.sockets j).conn ≠ some c)
    (htasks : ∀ τ, (s.pc τ).creates ≠ some c) (hi : i < numSockets)
    (hfree : (s.sockets i).conn = none) :
    EventsInv (s.setSock i { s.sockets i with conn := some c }) := by
  have hslot : ∀ j d, ((s.setSock i { s.sockets i with conn := some c }).sockets j).conn = some d →
      (j = i ∧ d = c) ∨ (j ≠ i ∧ d ≠ c ∧ (s.sockets j).conn = some d) := by
    intro j d hd
    by_cases hj : j = i
    · subst hj
      simp only [State.setSock, Function.update_self, Option.some.injEq] at hd
      exact .inl ⟨rfl, hd.symm⟩
    · simp only [State.setSock, Function.update_of_ne hj] at hd
      refine .inr ⟨hj, ?_, hd⟩
      rintro rfl
      exact hno j hd
  have hkeep : ∀ j d, (s.sockets j).conn = some d →
      (s.setSock i { s.sockets i with conn := some c }).sockets j = s.sockets j := by
    intro j d hd
    have hj : j ≠ i := by
      rintro rfl
      rw [hfree] at hd
      cases hd
    simp [State.setSock, hj]
  constructor
  case counted => exact h.counted
  case unique => exact h.unique
  case bound =>
    intro j d hd
    obtain ⟨rfl, rfl⟩ | ⟨-, -, hd⟩ := hslot j d hd
    · exact ⟨hi, hc⟩
    · exact h.bound j d hd
  case inj =>
    intro j k d hj hk
    obtain ⟨rfl, rfl⟩ | ⟨-, hne, hj⟩ := hslot j d hj
    · obtain ⟨rfl, -⟩ | ⟨-, hne, -⟩ := hslot k d hk
      · rfl
      · exact absurd rfl hne
    · obtain ⟨-, rfl⟩ | ⟨-, -, hk⟩ := hslot k d hk
      · exact absurd rfl hne
      · exact h.inj j k d hj hk
  case returned =>
    intro d hd hr
    obtain ⟨j, hs, hj, hcount⟩ := h.returned d hd hr
    refine ⟨j, hs, ?_, ?_⟩
    · rw [hkeep j d hj]
      exact hj
    · rw [hkeep j d hj]
      exact hcount
  case pending =>
    intro d hd hp
    obtain ⟨hr, hslots, htasks⟩ := h.pending d hd hp
    refine ⟨hr, fun j hj => ?_, htasks⟩
    obtain ⟨-, rfl⟩ | ⟨-, -, hj⟩ := hslot j d hj
    · rw [show (s.conn d).pending = true from hp] at hpending
      cases hpending
    · exact hslots j hj
  case pc =>
    intro τ
    refine (h.pc τ).mono (Nat.le_refl _) (fun d _ hr => ⟨hr, rfl⟩)
      (fun d hd => ((h.pc τ).creates_lt hd).2) (fun j d hj => ?_) (fun j d hd hj => ?_)
      (fun j d _ hj hz => ?_)
    · rw [hkeep j d hj]
      exact hj
    · obtain ⟨-, rfl⟩ | ⟨-, -, hj⟩ := hslot j d hj
      · exact absurd hd (htasks τ)
      · exact hj
    · rw [hkeep j d hj]
      exact hz

theorem setEntry {sock : LwipSock} (conn : Netconn) (h : EventsInv s)
    (hi : (s.sockets i).conn = some c)
    (htasks : ∀ τ, (s.pc τ).creates ≠ some c) (hconn : sock.conn = some c)
    (hpending : conn.pending = false) (hret : conn.returned = true)
    (hsocket : conn.socket = lwipSocketOffset + i)
    (hcount : sock.rcvevent = BitVec.ofInt 16 (conn.plus - conn.minus)) :
    EventsInv ((s.setSock i sock).setConn c conn) := by
  have hslot : ∀ j, (((s.setSock i sock).setConn c conn).sockets j).conn = (s.sockets j).conn := by
    intro j
    by_cases hj : j = i
    · subst hj
      simp [State.setSock, State.setConn, hconn, hi]
    · simp [State.setSock, State.setConn, hj]
  have hother : ∀ d ≠ c, ((s.setSock i sock).setConn c conn).conn d = s.conn d := fun d hd =>
    Function.update_of_ne hd _ _
  have hself : ((s.setSock i sock).setConn c conn).conn c = conn := Function.update_self ..
  have hentry : ∀ j d, d ≠ c → (s.sockets j).conn = some d →
      ((s.setSock i sock).setConn c conn).sockets j = s.sockets j := by
    intro j d hd hj
    have hne : j ≠ i := by
      rintro rfl
      rw [hi] at hj
      exact hd (Option.some.inj hj).symm
    simp [State.setSock, State.setConn, hne]
  constructor
  case unique => exact h.unique
  case bound => exact fun j d hj => h.bound j d (hslot j ▸ hj)
  case inj => exact fun j k d hj hk => h.inj j k d (hslot j ▸ hj) (hslot k ▸ hk)
  case counted =>
    intro d hd hr
    by_cases hdc : d = c
    · rw [hdc, hself, hret] at hr
      cases hr
    · rw [hother d hdc] at hr ⊢
      exact h.counted d hd hr
  case returned =>
    intro d hd hr
    by_cases hdc : d = c
    · subst hdc
      refine ⟨i, ?_, (hslot i).trans hi, ?_⟩
      · rw [hself]
        exact hsocket
      · rw [hself]
        simpa [State.setSock, State.setConn] using hcount
    · rw [hother d hdc] at hr ⊢
      obtain ⟨j, hs, hj, hcount⟩ := h.returned d hd hr
      refine ⟨j, hs, (hslot j).trans hj, ?_⟩
      rw [hentry j d hdc hj]
      exact hcount
  case pending =>
    intro d hd hp
    by_cases hdc : d = c
    · rw [hdc, hself, hpending] at hp
      cases hp
    · rw [hother d hdc] at hp ⊢
      obtain ⟨hr, hslots, hcreates⟩ := h.pending d hd hp
      exact ⟨hr, fun j hj => hslots j (hslot j ▸ hj), hcreates⟩
  case pc =>
    intro τ
    have hne : ∀ d, (s.pc τ).creates = some d → d ≠ c := by
      rintro d hd rfl
      exact htasks τ hd
    refine (h.pc τ).mono (Nat.le_refl _) (fun d hd hr => ?_) (fun d hd => ?_)
      (fun j d hj => (hslot j).trans hj) (fun j d _ hj => hslot j ▸ hj) (fun j d hd hj hz => ?_)
    · by_cases hdc : d = c
      · subst hdc
        obtain ⟨j, hs, hj, -⟩ := h.returned d hd hr
        rw [hself, hs, hsocket, h.inj j i d hj hi]
        exact ⟨hret, rfl⟩
      · rw [hother d hdc]
        exact ⟨hr, rfl⟩
    · rw [hother d (hne d hd)]
      exact ((h.pc τ).creates_lt hd).2
    · rw [hentry j d (hne d hd) hj]
      exact hz

theorem resetEntry (sock : LwipSock) (h : EventsInv s)
    (hi : (s.sockets i).conn = some c) (hret : (s.conn c).returned = false)
    (hconn : sock.conn = some c) (hzero : sock.rcvevent = 0) : EventsInv (s.setSock i sock) := by
  have hslot : ∀ j, ((s.setSock i sock).sockets j).conn = (s.sockets j).conn := by
    intro j
    by_cases hj : j = i
    · subst hj
      simp [State.setSock, hconn, hi]
    · simp [State.setSock, hj]
  constructor
  case counted => exact h.counted
  case unique => exact h.unique
  case bound => exact fun j d hj => h.bound j d (hslot j ▸ hj)
  case inj => exact fun j k d hj hk => h.inj j k d (hslot j ▸ hj) (hslot k ▸ hk)
  case pending =>
    intro d hd hp
    obtain ⟨hr, hslots, hcreates⟩ := h.pending d hd hp
    exact ⟨hr, fun j hj => hslots j (hslot j ▸ hj), hcreates⟩
  case returned =>
    intro d hd hr
    obtain ⟨j, hs, hj, hcount⟩ := h.returned d hd hr
    have hne : j ≠ i := by
      rintro rfl
      rw [hi] at hj
      obtain rfl := Option.some.inj hj
      rw [show (s.conn c).returned = true from hr] at hret
      cases hret
    refine ⟨j, hs, (hslot j).trans hj, ?_⟩
    simpa [State.setSock, hne] using hcount
  case pc =>
    intro τ
    refine (h.pc τ).mono (Nat.le_refl _) (fun d _ hr => ⟨hr, rfl⟩)
      (fun d hd => ((h.pc τ).creates_lt hd).2) (fun j d hj => (hslot j).trans hj)
      (fun j d _ hj => hslot j ▸ hj) (fun j d _ _ hz => ?_)
    by_cases hj : j = i
    · subst hj
      simpa [State.setSock] using hzero
    · simpa [State.setSock, hj] using hz

variable [DecidableEq Task]

theorem setPc (h : EventsInv s) (hpc : PcOk s pc)
    (hcreates : ∀ c, pc.creates = some c →
      (s.conn c).pending = false ∧ ∀ τ' ≠ τ, (s.pc τ').creates ≠ some c) :
    EventsInv (s.setPc τ pc) := by
  constructor
  case bound => exact h.bound
  case inj => exact h.inj
  case counted => exact h.counted
  case returned => exact h.returned
  case pending =>
    intro c hc hp
    obtain ⟨hr, hno, htasks⟩ := h.pending c hc hp
    refine ⟨hr, hno, fun τ' hτ => ?_⟩
    obtain ⟨-, hτ⟩ | ⟨-, hτ⟩ := update_cases (fun pc : Pc => pc.creates = some c) hτ
    · have hp' := (hcreates c hτ).1
      rw [show (s.conn c).pending = true from hp] at hp'
      cases hp'
    · exact htasks τ' hτ
  case unique =>
    intro τ₁ τ₂ c h₁ h₂
    obtain ⟨heq₁, hc₁⟩ | ⟨hne₁, hc₁⟩ := update_cases (fun pc : Pc => pc.creates = some c) h₁
    · obtain ⟨heq₂, -⟩ | ⟨hne₂, hc₂⟩ := update_cases (fun pc : Pc => pc.creates = some c) h₂
      · exact heq₁.trans heq₂.symm
      · exact absurd hc₂ ((hcreates c hc₁).2 τ₂ hne₂)
    · obtain ⟨-, hc₂⟩ | ⟨-, hc₂⟩ := update_cases (fun pc : Pc => pc.creates = some c) h₂
      · exact absurd hc₁ ((hcreates c hc₂).2 τ₁ hne₁)
      · exact h.unique τ₁ τ₂ c hc₁ hc₂
  case pc =>
    intro τ'
    rw [pcOk_setPc]
    by_cases hτ : τ' = τ
    · subst hτ
      simpa [State.setPc] using hpc
    · simpa [State.setPc, hτ] using h.pc τ'

end EventsInv

end Invariant

/-! ## Every interleaving -/

/-- Fewer than 2^15 events are outstanding. -/
def Outstanding (s : State Task) : Prop :=
  ∀ c < s.conns, Int.natAbs ((s.conn c).plus - (s.conn c).minus) < 2 ^ 15

instance (s : State Task) : Decidable (Outstanding s) :=
  inferInstanceAs (Decidable (∀ c < s.conns, _))

/-- Once its descriptor is returned, a socket has the count of its connection's events. -/
def RcveventExact (s : State Task) : Prop :=
  ∀ c < s.conns, (s.conn c).returned = true →
    ∃ i : Nat, (s.conn c).socket = lwipSocketOffset + i ∧ (s.sockets i).conn = some c ∧
      (s.sockets i).rcvevent.toInt = (s.conn c).plus - (s.conn c).minus

/-- When `lwip_socket` writes `conn->socket`, nothing has been counted there. -/
def publishesFresh (s : State Task) : Action Task → Bool
  | .turn τ =>
    match s.pc τ with
    | .publish c false _ => (s.conn c).socket == -1
    | _ => true
  | _ => true

section Runs

variable {s t : State Task} {a : Action Task}

theorem EventsInv.exact (h : EventsInv s) (hout : Outstanding s) : RcveventExact s := by
  intro c hc hr
  obtain ⟨i, hs, hi, hcount⟩ := h.returned c hc hr
  refine ⟨i, hs, hi, ?_⟩
  have hlt := hout c hc
  rw [hcount, BitVec.toInt_ofInt]
  exact Int.bmod_eq_of_le (by omega) (by omega)

variable [DecidableEq Task]

theorem EventsInv.leave {τ : Task} {c : ConnId} (h : EventsInv s)
    (hc : (s.pc τ).creates = some c) :
    EventsInv (s.setPc τ .idle) ∧ ∀ τ', ((s.setPc τ .idle).pc τ').creates ≠ some c := by
  refine ⟨h.setPc trivial fun _ hd => (by cases hd), fun τ' hτ' => ?_⟩
  obtain ⟨-, hτ'⟩ | ⟨hne, hτ'⟩ := update_cases (fun pc : Pc => pc.creates = some c) hτ'
  · cases hτ'
  · exact hne (h.unique τ' τ c hτ' hc)

theorem publish_inv {τ : Task} {c : ConnId} {accepted : Bool} {i : Nat} (h : EventsInv s)
    (hpc : s.pc τ = .publish c accepted i)
    (hfresh : accepted = false → (s.conn c).socket = -1) :
    EventsInv (s.publish τ c accepted i) := by
  obtain ⟨hc, hret, hi, hzero⟩ : PcOk s (.publish c accepted i) := hpc ▸ h.pc τ
  obtain ⟨hsocket, hminus⟩ := h.counted c hc hret
  have hpending : (s.conn c).pending = false := Bool.eq_false_iff.mpr fun hp =>
    (h.pending c hc hp).2.1 i hi
  obtain ⟨hidle, htasks⟩ := h.leave (τ := τ) (c := c) (by rw [hpc]; rfl)
  unfold State.publish
  cases accepted with
  | false =>
    have hplus : (s.conn c).plus = 0 := by
      have := hfresh rfl
      omega
    have hentry := hidle.setEntry { s.conn c with
      socket := i + lwipSocketOffset, returned := true } hi htasks hi hpending rfl
      (add_comm _ _) (by simp [hzero, hplus, hminus])
    have hsame : (s.setPc τ .idle).setSock i (s.sockets i) = s.setPc τ .idle := by
      simp [State.setSock, State.setPc]
    rw [hsame] at hentry
    exact hentry
  | true =>
    refine hidle.setEntry _ hi htasks (by exact hi) hpending rfl (add_comm _ _) ?_
    rw [hzero, hsocket, hminus]
    simp

theorem allocTurn_inv {τ : Task} {c : ConnId} {type : NetconnType} {accepted : Bool} {i : Nat}
    (h : EventsInv s) (hpc : s.pc τ = .alloc c type accepted i) :
    EventsInv (s.allocTurn τ c type accepted i) := by
  obtain ⟨hc, hret, hno⟩ : PcOk s (.alloc c type accepted i) := hpc ▸ h.pc τ
  have hcreates : (s.pc τ).creates = some c := by rw [hpc]; rfl
  have hkept := h.creates_kept (.alloc c type accepted i) hcreates.symm
  unfold State.allocTurn
  split
  · next hi =>
    split
    · next hfree =>
      obtain ⟨hidle, htasks⟩ := h.leave hcreates
      have hclaim := hidle.claim hc hret (hkept c rfl).1 hno htasks hi
        (Option.isNone_iff_eq_none.mp hfree)
      have heq : (s.setSock i { s.sockets i with conn := some c }).setPc τ
          (.reset c type accepted i) = ((s.setPc τ .idle).setSock i
            { s.sockets i with conn := some c }).setPc τ (.reset c type accepted i) := by
        simp [State.setPc, State.setSock]
      rw [heq]
      refine hclaim.setPc ⟨hc, hret, by simp [State.setSock]⟩ fun d hd => ?_
      cases hd
      exact ⟨(hkept c rfl).1, fun τ' _ => htasks τ'⟩
    · exact h.setPc ⟨hc, hret, hno⟩ hkept
  · have hdead : EventsInv (s.setConn c { s.conn c with live := false }) :=
      h.setConn rfl id (fun hr _ => h.counted c hc hr) fun _ => ⟨rfl, rfl, rfl⟩
    exact hdead.setPc trivial fun d hd => by cases hd

theorem resetEntry_inv {τ : Task} {c : ConnId} {type : NetconnType} {accepted : Bool} {i : Nat}
    (h : EventsInv s) (hpc : s.pc τ = .reset c type accepted i) :
    EventsInv ((s.setSock i ((s.sockets i).reset type accepted)).setPc τ
      (.publish c accepted i)) := by
  obtain ⟨hc, hret, hi⟩ : PcOk s (.reset c type accepted i) := hpc ▸ h.pc τ
  have hreset := h.resetEntry ((s.sockets i).reset type accepted) hi hret hi rfl
  refine hreset.setPc ⟨hc, hret, ?_, ?_⟩ (hreset.creates_kept _ ?_)
  · simpa [State.setSock] using hi
  · simp [State.setSock, LwipSock.reset]
  · rw [show (s.setSock i _).pc τ = _ from hpc]
    rfl

theorem countDown_inv {τ : Task} {c : ConnId} {evt : NetconnEvt} (h : EventsInv s)
    (hpc : s.pc τ = .negative c evt) : EventsInv (s.countDown τ c evt) := by
  obtain ⟨hc, hevt⟩ : PcOk s (.negative c evt) := hpc ▸ h.pc τ
  unfold State.countDown
  simp only
  split
  · next hneg =>
    -- A connection without a descriptor has not been returned, and is not read from.
    have hret : (s.conn c).returned = false := by
      refine Bool.eq_false_iff.mpr fun hr => ?_
      obtain ⟨i, hs, -⟩ := h.returned c hc hr
      unfold lwipSocketOffset altMaxFd at hs
      omega
    obtain ⟨hsocket, hminus⟩ := h.counted c hc hret
    have hset : EventsInv (s.setConn c ((if evt = .rcvplus then
        { s.conn c with socket := (s.conn c).socket - 1 } else s.conn c).report evt)) := by
      cases evt with
      | rcvminus =>
        rw [hevt rfl] at hret
        cases hret
      | rcvplus =>
        refine h.setConn rfl id (fun _ _ => ⟨?_, hminus⟩) fun hr => ?_
        · simp only [if_true, Netconn.report, hsocket]
          omega
        · simp only [Netconn.report, if_true] at hr
          rw [hret] at hr
          cases hr
      | sendplus => exact h.setConn rfl id (fun _ _ => ⟨hsocket, hminus⟩) fun _ => ⟨rfl, rfl, rfl⟩
      | sendminus => exact h.setConn rfl id (fun _ _ => ⟨hsocket, hminus⟩) fun _ => ⟨rfl, rfl, rfl⟩
      | error => exact h.setConn rfl id (fun _ _ => ⟨hsocket, hminus⟩) fun _ => ⟨rfl, rfl, rfl⟩
    exact hset.setPc trivial fun d hd => by cases hd
  · next hpos =>
    have hret : (s.conn c).returned = true := by
      refine Bool.of_not_eq_false fun hr => ?_
      have := (h.counted c hc hr).1
      omega
    exact h.setPc ⟨hc, hret, rfl⟩ fun d hd => by cases hd

theorem setEvent_inv {τ : Task} {c : ConnId} {evt : NetconnEvt} {i : Nat} (h : EventsInv s)
    (hpc : s.pc τ = .update c evt i) : EventsInv (s.setEvent τ c evt i) := by
  obtain ⟨hc, hret, hi⟩ : PcOk s (.update c evt i) := hpc ▸ h.pc τ
  obtain ⟨j, hs, hj, hcount⟩ := h.returned c hc hret
  obtain rfl := h.inj j i c hj hi
  have hpending : (s.conn c).pending = false := Bool.eq_false_iff.mpr fun hp =>
    (h.pending c hc hp).2.1 j hj
  have hentry : EventsInv ((s.setSock j ((s.sockets j).setEvent evt)).setConn c
      ((s.conn c).report evt)) := by
    refine h.setEntry _ hj (h.not_creates hret) ((LwipSock.setEvent_conn _ _).trans hj) ?_ ?_ ?_ ?_
    · cases evt <;> exact hpending
    · cases evt <;> exact hret
    · cases evt <;> exact hs
    · cases evt with
      | rcvplus =>
        simp only [LwipSock.setEvent, Netconn.report, hcount]
        rw [show (1 : BitVec 16) = BitVec.ofInt 16 1 from rfl, ← BitVec.ofInt_add]
        congr 1
        omega
      | rcvminus =>
        simp only [LwipSock.setEvent, Netconn.report, hcount]
        rw [BitVec.sub_eq_add_neg, show -(1 : BitVec 16) = BitVec.ofInt 16 (-1) from rfl,
          ← BitVec.ofInt_add]
        congr 1
        omega
      | sendplus => exact hcount
      | sendminus => exact hcount
      | error => exact hcount
  exact hentry.setPc trivial fun d hd => by cases hd

theorem step_inv (h : EventsInv s) (hstep : step s a = some t)
    (hfresh : publishesFresh s a = true) : EventsInv t := by
  cases a with
  | socket τ type protocol =>
    simp only [step] at hstep
    split at hstep
    · next hidle =>
      split at hstep
      · cases hstep
        exact h
      · next type _ =>
        cases hstep
        obtain ⟨halloc, hpc, htasks⟩ := h.netconnAlloc false
        refine halloc.setPc hpc fun c hc => ?_
        cases hc
        refine ⟨?_, fun τ' _ => htasks τ'⟩
        simp [State.netconnAlloc, State.setConn, Netconn.alloc]
    · cases hstep
  | accept τ c =>
    simp only [step, Option.ite_none_right_eq_some, Option.some.injEq] at hstep
    obtain ⟨⟨hidle, hc, hp⟩, rfl⟩ := hstep
    obtain ⟨hret, hslots, htasks⟩ := h.pending c hc hp
    have hset : EventsInv (s.setConn c { s.conn c with pending := false }) :=
      h.setConn rfl (fun hp => by cases hp) (fun hr _ => h.counted c hc hr)
        fun _ => ⟨rfl, rfl, rfl⟩
    refine hset.setPc ⟨hc, ?_, hslots⟩ fun d hd => ?_
    · simpa [State.setConn] using hret
    · cases hd
      exact ⟨by simp [State.setConn], fun τ' _ => htasks τ'⟩
  | incoming =>
    cases hstep
    exact (h.netconnAlloc true).1
  | event τ c evt =>
    simp only [step, Option.ite_none_right_eq_some, Option.some.injEq] at hstep
    obtain ⟨⟨-, hc, -, hret⟩, rfl⟩ := hstep
    exact h.setPc ⟨hc, hret⟩ fun d hd => by cases hd
  | turn τ =>
    simp only [step] at hstep
    have hok := h.pc τ
    cases hpc : s.pc τ with
    | idle =>
      rw [hpc] at hstep
      cases hstep
    | publish c accepted i =>
      rw [hpc] at hstep
      cases hstep
      refine publish_inv h hpc fun hacc => ?_
      subst hacc
      simpa [publishesFresh, hpc] using hfresh
    | alloc c type accepted i =>
      rw [hpc] at hstep
      cases hstep
      exact allocTurn_inv h hpc
    | reset c type accepted i =>
      rw [hpc] at hstep
      cases hstep
      exact resetEntry_inv h hpc
    | callback c evt =>
      rw [hpc] at hstep hok
      cases hstep
      obtain ⟨hc, hret⟩ := hok
      split
      · exact h.setPc ⟨hc, hret⟩ fun d hd => by cases hd
      · next hpos =>
        have hr : (s.conn c).returned = true := by
          refine Bool.of_not_eq_false fun hr => ?_
          have := (h.counted c hc hr).1
          omega
        exact h.setPc ⟨hc, hr, rfl⟩ fun d hd => by cases hd
    | negative c evt =>
      rw [hpc] at hstep
      cases hstep
      exact countDown_inv h hpc
    | lookup c evt fd =>
      rw [hpc] at hstep hok
      cases hstep
      obtain ⟨hc, hret, rfl⟩ := hok
      split
      · exact h.setPc trivial fun d hd => by cases hd
      · next i hget =>
        obtain ⟨hfd, -, -⟩ := getSocket_eq_some.mp hget
        obtain ⟨j, hs, hj, -⟩ := h.returned c hc hret
        obtain rfl : i = j := by omega
        exact h.setPc ⟨hc, hret, hj⟩ fun d hd => by cases hd
    | update c evt i =>
      rw [hpc] at hstep
      cases hstep
      exact setEvent_inv h hpc

theorem fresh_of_exact (h : EventsInv s) (hstep : step s a = some t) (hexact : RcveventExact t) :
    publishesFresh s a = true := by
  cases a with
  | turn τ =>
    cases hpc : s.pc τ with
    | publish c accepted i =>
      cases accepted with
      | true => simp [publishesFresh, hpc]
      | false =>
        obtain ⟨hc, hret, hi, hzero⟩ : PcOk s (.publish c false i) := hpc ▸ h.pc τ
        obtain ⟨hsocket, hminus⟩ := h.counted c hc hret
        simp only [step, hpc, State.turn, Option.some.injEq] at hstep
        subst hstep
        obtain ⟨j, hs, -, hcount⟩ :=
          hexact c hc (by simp [State.publish, State.setConn, State.setPc])
        obtain rfl : j = i := by
          simp only [State.publish, State.setConn, State.setPc, Function.update_self] at hs
          omega
        have hplus : (s.conn c).plus = 0 := by
          have : (0 : Int) = (s.conn c).plus - (s.conn c).minus := by
            simpa [State.publish, State.setConn, State.setPc, hzero] using hcount
          omega
        simp [publishesFresh, hpc, hsocket, hplus]
    | _ => simp [publishesFresh, hpc]
  | _ => rfl

/-- With fewer than 2^15 events outstanding, the counts are exact in every state of a run if
and only if no call of `lwip_socket` finds events counted in `conn->socket` when it writes it. -/
theorem rcvevent_exact_iff (conn : ConnId → Netconn) (as : List (Action Task))
    (hout : EveryStep step (fun _ _ t => Outstanding t) (init conn : State Task) as) :
    EveryStep step (fun _ _ t => RcveventExact t) (init conn : State Task) as ↔
      EveryStep step (fun s a _ => publishesFresh s a = true) (init conn : State Task) as := by
  have hiff := everyStep_congr (I := EventsInv) (P := fun _ _ t => Outstanding t ∧ RcveventExact t)
    (Q := fun s a t => Outstanding t ∧ publishesFresh s a = true)
    (fun s a t h hstep => and_congr_right fun hout =>
      ⟨fresh_of_exact h hstep, fun hfresh => (step_inv h hstep hfresh).exact hout⟩)
    (fun s a t h hstep hP => step_inv h hstep (fresh_of_exact h hstep hP.2))
    as (init_inv conn)
  rw [everyStep_and, everyStep_and] at hiff
  simpa only [hout, true_and] using hiff

end Runs

/-- Task 0 creates a raw socket for ICMP, and in task 1 a packet comes in while it does. -/
def rawSocketWithPacket : List (Action Nat) :=
  [.socket 0 sockRaw 1, .turn 0, .turn 0, .event 1 0 .rcvplus, .turn 1, .turn 1, .turn 0]

/-- The packet is counted before the socket has its descriptor, and then overwritten. -/
theorem rcvevent_lost :
    EveryStep step (fun _ _ t => Outstanding t) (init fun _ => .alloc false)
      rawSocketWithPacket ∧
    ¬ EveryStep step (fun _ _ t => RcveventExact t) (init fun _ => .alloc false)
      rawSocketWithPacket := by
  refine ⟨by decide +kernel, fun h => ?_⟩
  obtain ⟨-, h⟩ := h _ rfl
  obtain ⟨-, h⟩ := h _ rfl
  obtain ⟨-, h⟩ := h _ rfl
  obtain ⟨-, h⟩ := h _ rfl
  obtain ⟨-, h⟩ := h _ rfl
  obtain ⟨-, h⟩ := h _ rfl
  obtain ⟨hexact, -⟩ := h _ rfl
  obtain ⟨i, hs, -, hcount⟩ := hexact 0 (by decide) rfl
  have hs : ((0 : Nat) : Int) + lwipSocketOffset = lwipSocketOffset + i := hs
  obtain rfl : i = 0 := by omega
  exact absurd hcount (by decide +kernel)

/-- A connection gets data while it is accepted, and some of it is read. -/
def acceptWithEvent : List (Action Nat) :=
  [.incoming, .event 1 0 .rcvplus, .turn 1, .turn 1, .accept 0 0, .turn 0, .event 1 0 .rcvplus,
    .turn 1, .turn 0, .turn 1, .turn 0, .event 2 0 .rcvminus, .turn 2, .turn 2, .turn 2]

theorem rcvevent_exact_accept :
    EveryStep step (fun _ _ t => RcveventExact t) (init fun _ => .alloc false) acceptWithEvent :=
  (rcvevent_exact_iff _ acceptWithEvent (by decide +kernel)).mpr (by decide +kernel)

end FreeLwip.Api.Events
