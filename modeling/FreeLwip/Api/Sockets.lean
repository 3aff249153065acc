import FreeLwip.Api.Table
import FreeLwip.Err
import FreeLwip.Lib.Run

/-!
# Sockets (`sockets.c`, `api_lib.c`, `alt_lwip_close.c` and its siblings)

The calls that create and close sockets, one after the other, with what the stack does to the
connections in between. A call that does not come back leaves the others to go on.
-/

namespace FreeLwip.Api

open Run

/-! ## Connections (`api_lib.c`, `api_msg.c`) -/

structure Netconn where
  type : NetconnType
  socket : Int
  /-- None stands for an invalid mailbox; a message may be NULL. -/
  acceptmbox : Option (List (Option ConnId))
  lastErr : Err
  nonblocking : Bool

/-- `netconn_alloc`. -/
def Netconn.alloc (type : NetconnType) : Netconn where
  type := type
  socket := -1
  acceptmbox := none
  lastErr := .ok
  nonblocking := false

/-- The connections that wait in the mailbox to be accepted. -/
def Netconn.pending (conn : Netconn) : List ConnId := (conn.acceptmbox.getD []).filterMap id

structure State where
  sockets : Sockets
  netconn : ConnId → Netconn
  /-- The netconns that are taken from their pool. -/
  used : ConnId → Bool
  -- The history: the open descriptors, with the connections they were returned for.
  opened : List (Int × ConnId)

def init (netconn : ConnId → Netconn) : State where
  sockets _ := LwipSock.zero
  netconn := netconn
  used _ := false
  opened := []

namespace State

def setNetconn (s : State) (c : ConnId) (conn : Netconn) : State :=
  { s with netconn := Function.update s.netconn c conn }

def setSafeErr (s : State) (c : ConnId) (err : Err) : State :=
  if (s.netconn c).lastErr.isFatal then s else s.setNetconn c { s.netconn c with lastErr := err }

/-- A connection that is not in use, from the pool. -/
def netconnAlloc (s : State) (c : ConnId) (type : NetconnType) : State :=
  { s.setNetconn c (.alloc type) with used := Function.update s.used c true }

/-- The connections that wait to be accepted by it go with it. -/
def netconnDelete (s : State) (c : ConnId) : State :=
  { s.setNetconn c { s.netconn c with acceptmbox := none } with
    used := fun d => s.used d && d != c && !(s.netconn c).pending.contains d }

/-- `event_callback`, up to the search for waiting selects. -/
def eventCallback (s : State) (c : ConnId) (evt : NetconnEvt) : State :=
  let conn := s.netconn c
  if conn.socket < 0 then
    if evt = .rcvplus then s.setNetconn c { conn with socket := conn.socket - 1 } else s
  else
    match getSocket s.sockets conn.socket with
    | some i => { s with sockets := Function.update s.sockets i ((s.sockets i).setEvent evt) }
    | none => s

end State

inductive Accepted
  | waits
  | loops
  | err (err : Err) (s : State)
  | ok (newconn : ConnId) (s : State)

def netconnAccept (s : State) (c : ConnId) (timedOut : Bool) : Accepted :=
  let conn := s.netconn c
  match conn.acceptmbox with
  -- The check is an LWIP_ERROR, and LWIP_PLATFORM_ASSERT of `cc.h` ends in `while (1)`.
  | none => .loops
  | some mbox =>
    if conn.lastErr.isFatal then
      .err conn.lastErr s
    else
      match mbox with
      | [] => if timedOut then .err .timeout (s.setSafeErr c .timeout) else .waits
      | msg :: mbox =>
        let s := (s.setNetconn c { conn with acceptmbox := some mbox }).eventCallback c .rcvminus
        match msg with
        | none => .err .abrt (s.setSafeErr c .abrt)
        | some newconn => .ok newconn s

/-! ## Sockets -/

def allocSocket (sockets : Sockets) (newconn : ConnId) (type : NetconnType) (accepted : Bool) :
    Option (Nat × Sockets) :=
  ((List.range numSockets).find? fun i => (sockets i).conn.isNone).map fun i =>
    (i, Function.update sockets i
      (LwipSock.reset { sockets i with conn := some newconn } type accepted))

def freeSocket (sockets : Sockets) (i : Nat) : Sockets :=
  Function.update sockets i { sockets i with conn := none }

/-- What a call returns, and the connection it was made for. -/
structure Ret where
  value : Int
  newconn : Option ConnId
  deriving DecidableEq, Repr

/-- `return -1`. -/
def Ret.error : Ret := ⟨-1, none⟩

def eopnotsupp : Int := 95

def sockStream : Int := 1
def sockDgram : Int := 2
def sockRaw : Int := 3
def ipprotoUdplite : Int := 136

/-- The kind of connection that `lwip_socket` creates. -/
def netconnTypeOf (type protocol : Int) : Option NetconnType :=
  if type = sockRaw then some .raw
  else if type = sockDgram then some (if protocol = ipprotoUdplite then .udplite else .udp)
  else if type = sockStream then some .tcp
  else none

namespace State

/-- `get_socket`, with the connection of the socket. -/
def getConn (s : State) (fd : Int) : Option (Nat × ConnId) :=
  (getSocket s.sockets fd).bind fun i => (s.sockets i).conn.map fun c => (i, c)

/-- The pool gives `netconn`, or nothing. -/
def lwipSocket (s : State) (type protocol : Int) (netconn : Option ConnId) : Ret × State :=
  match netconnTypeOf type protocol with
  | none => (.error, s)
  | some t =>
    match netconn with
    | none => (.error, s)
    | some conn =>
      let s := s.netconnAlloc conn t
      match allocSocket s.sockets conn t false with
      | none => (.error, s.netconnDelete conn)
      | some (i, sockets) =>
        let fd := i + lwipSocketOffset
        (⟨fd, some conn⟩,
          { s.setNetconn conn { s.netconn conn with socket := fd } with sockets := sockets })

/-- The end of `lwip_accept`: a socket for the new connection. -/
def acceptSocket (s : State) (newconn : ConnId) : Ret × State :=
  let conn := s.netconn newconn
  match allocSocket s.sockets newconn conn.type true with
  | none => (.error, s.netconnDelete newconn)
  | some (newsock, sockets) =>
    let nsock := sockets newsock
    let fd := newsock + lwipSocketOffset
    let nsock := { nsock with rcvevent := nsock.rcvevent + BitVec.ofInt 16 (-1 - conn.socket) }
    (⟨fd, some newconn⟩,
      { s.setNetconn newconn { conn with socket := fd } with
        sockets := Function.update sockets newsock nsock })

end State

inductive Outcome
  | waits
  | loops
  | returns (ret : Ret) (s : State)

/-- One step: no other call runs while this one waits in `netconn_accept`. Only in between could the
connection become one of another type, and EOPNOTSUPP be returned. `peer` is the result of
`netconn_peer`. -/
def lwipAccept (s : State) (fd : Int) (timedOut : Bool) (peer : Err) : Outcome :=
  match s.getConn fd with
  | none => .returns .error s
  | some (i, conn) =>
    if (s.netconn conn).nonblocking ∧ (s.sockets i).rcvevent.toInt ≤ 0 then
      .returns .error s
    else
      match netconnAccept s conn timedOut with
      | .waits => .waits
      | .loops => .loops
      | .err _ s => .returns (if (s.netconn conn).type ≠ .tcp then ⟨eopnotsupp, none⟩ else .error) s
      | .ok newconn s =>
        if peer ≠ .ok then
          .returns .error (s.netconnDelete newconn)
        else
          let (ret, s) := s.acceptSocket newconn
          .returns ret s

def lwipClose (s : State) (fd : Int) : Int × State :=
  match s.getConn fd with
  | none => (-1, s)
  | some (i, conn) =>
    let s := s.netconnDelete conn
    (0, { s with sockets := freeSocket s.sockets i })

/-- `do_listen` makes the mailbox of a TCP connection, if there is memory. -/
def lwipListen (s : State) (fd : Int) (memory : Bool) : State :=
  match s.getConn fd with
  | none => s
  | some (_, c) =>
    let conn := s.netconn c
    if !conn.lastErr.isFatal && conn.type = .tcp && conn.acceptmbox.isNone && memory then
      s.setNetconn c { conn with acceptmbox := some [] }
    else
      s

def lwipFcntl (s : State) (fd : Int) (nonblock : Bool) : State :=
  match s.getConn fd with
  | none => s
  | some (_, c) => s.setNetconn c { s.netconn c with nonblocking := nonblock }

/-! ## The wrappers

Each takes what the HAL and lwIP do with the same arguments. -/

section Wrappers

variable {α Arg : Type*}

/-- Descriptors below ALT_MAX_FD are for the HAL. -/
def vector (hal lwip : Int → α) (fd : Int) : α := if fd < altMaxFd then hal fd else lwip fd

def close (altClose lwipClose : Int → α) : Int → α := vector altClose lwipClose

def read (altRead recvfrom : Int → Arg → α) : Int → Arg → α := vector altRead recvfrom

def write (altWrite send : Int → Arg → α) : Int → Arg → α := vector altWrite send

def fcntl (altFcntl lwipFcntl : Int → Arg → α) : Int → Arg → α := vector altFcntl lwipFcntl

end Wrappers

/-! ## Histories -/

inductive Action
  | socket (type protocol : Int) (netconn : Option ConnId)
  | accept (fd : Int) (timedOut : Bool) (peer : Err)
  | close (fd : Int)
  | listen (fd : Int) (memory : Bool)
  | fcntl (fd : Int) (nonblock : Bool)
  -- In the stack.
  | acceptFunction (c newconn : ConnId)
  | errTcp (c : ConnId) (err : Err) (posted : Bool)
  | safeErr (c : ConnId) (err : Err)
  | event (c : ConnId) (evt : NetconnEvt)

/-- A step, with what it returns if it is a call of `lwip_socket` or `lwip_accept`. -/
def call (s : State) : Action → Option (Option Ret × State)
  | .socket type protocol netconn =>
    if netconn.any s.used then
      none
    else
      let (ret, s) := s.lwipSocket type protocol netconn
      some (some ret, s)
  | .accept fd timedOut peer =>
    match lwipAccept s fd timedOut peer with
    | .waits => none
    | .loops => some (none, s)
    | .returns ret s => some (some ret, s)
  | .close fd =>
    let s' := close (fun _ => s) (fun fd => (lwipClose s fd).2) fd
    some (none, { s' with opened := s.opened.filter fun x => x.1 ≠ fd })
  | .listen fd memory => some (none, lwipListen s fd memory)
  | .fcntl fd nonblock =>
    some (none, fcntl (fun _ _ => s) (fun fd nonblock => lwipFcntl s fd nonblock) fd nonblock)
  | .acceptFunction c newconn =>
    if s.used c && !s.used newconn then
      (s.netconn c).acceptmbox.map fun mbox =>
        (none, (s.netconnAlloc newconn (s.netconn c).type).setNetconn c
          { s.netconn c with acceptmbox := some (mbox ++ [some newconn]) })
    else
      none
  | .errTcp c err posted =>
    let conn := s.netconn c
    some (none, s.setNetconn c { conn with
      lastErr := err, acceptmbox := conn.acceptmbox.map fun mbox =>
        if posted then mbox ++ [none] else mbox })
  | .safeErr c err => some (none, s.setSafeErr c err)
  | .event c evt => some (none, s.eventCallback c evt)

/-- A descriptor that is returned is open. -/
def State.record (s : State) : Option Ret → State
  | some ⟨value, some c⟩ => { s with opened := (value, c) :: s.opened }
  | _ => s

def step (s : State) (a : Action) : Option State := (call s a).map fun r => r.2.record r.1

end FreeLwip.Api
