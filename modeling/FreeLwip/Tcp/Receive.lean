import FreeLwip.Lib.Run
import FreeLwip.Lib.Serial

/-!
# The receive half of a TCP connection (`tcp_in.c`, `tcp.c`)

What `tcp_input`, `tcp_process` and `tcp_receive` do with the text of a segment on a
connection that is established: the window, the queue of segments that came out of order,
what the application is handed, and the acknowledgements. Resets are left out, the application
closes its sending side only, and calls `tcp_recved` outside of its callbacks.
-/

namespace FreeLwip.Tcp

open Serial

abbrev Octet := BitVec 8

inductive TcpState where
  | closed
  | listen
  | synSent
  | synRcvd
  | established
  | finWait1
  | finWait2
  | closeWait
  | closing
  | lastAck
  | timeWait
  deriving DecidableEq, Repr

/-- The states as the numbers that the code compares. -/
def TcpState.number : TcpState → Nat
  | closed => 0
  | listen => 1
  | synSent => 2
  | synRcvd => 3
  | established => 4
  | finWait1 => 5
  | finWait2 => 6
  | closeWait => 7
  | closing => 8
  | lastAck => 9
  | timeWait => 10

def tcpWnd : BitVec 16 := 8192

def tcpWndUpdateThreshold : BitVec 32 := 2048

def lwipMin (x y : BitVec 16) : BitVec 16 := if x < y then x else y

/-- A segment. The text is that of the whole chain of pbufs, and `len` is what the code
keeps beside it. -/
structure Seg where
  seqno : BitVec 32
  len : BitVec 16
  fin : Bool
  p : List Octet
  deriving DecidableEq, Repr

def Seg.tcpTcplen (seg : Seg) : BitVec 16 := seg.len + if seg.fin then 1 else 0

/-- The sequence number behind the text. -/
def Seg.edge (seg : Seg) : BitVec 32 := seg.seqno + seg.len.setWidth 32

/-- Sets the length, and `pbuf_realloc`, which shortens a chain but never makes it longer. -/
def Seg.realloc (seg : Seg) (len : BitVec 16) : Seg :=
  { seg with len := len, p := seg.p.take len.toNat }

/-- The header fields of what is sent, as far as the receive half fills them in. -/
structure Ack where
  ackno : BitVec 32
  wnd : BitVec 16
  deriving DecidableEq, Repr

structure Rcv where
  rcvNxt : BitVec 32
  rcvWnd : BitVec 16
  rcvAnnWnd : BitVec 16
  rcvAnnRightEdge : BitVec 32
  mss : BitVec 16
  ackDelay : Bool
  ackNow : Bool
  ooseq : List Seg
  /-- With the flag `PBUF_FLAG_TCP_FIN`. -/
  refusedData : Option (List Octet × Bool)
  deriving DecidableEq, Repr

namespace Rcv

def tcpAck (pcb : Rcv) : Rcv :=
  if pcb.ackDelay then { pcb with ackDelay := false, ackNow := true }
  else { pcb with ackDelay := true }

def tcpAckNow (pcb : Rcv) : Rcv := { pcb with ackNow := true }

/-- Also gives the inflation of the window that the function returns. -/
def tcpUpdateRcvAnnWnd (pcb : Rcv) : Rcv × BitVec 32 :=
  let newRightEdge := pcb.rcvNxt + pcb.rcvWnd.setWidth 32
  if Ge newRightEdge (pcb.rcvAnnRightEdge + (lwipMin (tcpWnd / 2) pcb.mss).setWidth 32) then
    ({ pcb with rcvAnnWnd := pcb.rcvWnd }, newRightEdge - pcb.rcvAnnRightEdge)
  else if Gt pcb.rcvNxt pcb.rcvAnnRightEdge then
    ({ pcb with rcvAnnWnd := 0 }, 0)
  else
    ({ pcb with rcvAnnWnd := (pcb.rcvAnnRightEdge - pcb.rcvNxt).setWidth 16 }, 0)

/-- Opens the window by what the application has read. -/
def openWnd (pcb : Rcv) (len : BitVec 16) : Rcv :=
  { pcb with rcvWnd := if tcpWnd < pcb.rcvWnd + len then tcpWnd else pcb.rcvWnd + len }

/-- The header that `tcp_output_alloc_header` and `tcp_output_segment` fill in, and the
right edge that it announces. -/
def announce (pcb : Rcv) : Rcv × Ack :=
  ({ pcb with rcvAnnRightEdge := pcb.rcvNxt + pcb.rcvAnnWnd.setWidth 32 },
    ⟨pcb.rcvNxt, pcb.rcvAnnWnd⟩)

def noAckFlags (pcb : Rcv) : Rcv := { pcb with ackDelay := false, ackNow := false }

def tcpSendEmptyAck (pcb : Rcv) (allocated : Bool) : Rcv × List Ack :=
  if allocated then (pcb.announce.1.noAckFlags, [pcb.announce.2]) else (pcb, [])

end Rcv

/-! ## The queue of segments out of order -/

/-- The loops that drop the segments of the queue that `seg` covers. `reach` is the length
that they take it to have. -/
def dropCovered (reach : Seg → BitVec 16) (seg : Seg) : List Seg → Seg × List Seg
  | [] => (seg, [])
  | next :: rest =>
    if Ge (seg.seqno + (reach seg).setWidth 32) next.edge then
      dropCovered reach (if next.fin then { seg with fin := true } else seg) rest
    else
      (seg, next :: rest)

/-- Trims the segment where the next one of the queue starts. -/
def trimToNext (reach : Seg → BitVec 16) (seg : Seg) : List Seg → Seg
  | [] => seg
  | next :: _ =>
    if Gt (seg.seqno + (reach seg).setWidth 32) next.seqno then
      seg.realloc ((next.seqno - seg.seqno).setWidth 16)
    else
      seg

/-- Gives the queue that starts with `cseg`. -/
def tcpOosInsertSegment (cseg : Seg) (next : List Seg) : List Seg :=
  if cseg.fin then
    [cseg]
  else
    let covered := dropCovered Seg.len cseg next
    trimToNext Seg.len covered.1 covered.2 :: covered.2

/-- Trims a segment of the queue where a new one starts. -/
def Seg.trimRight (seg : Seg) (seqno : BitVec 32) : Seg :=
  if Gt seg.edge seqno then seg.realloc ((seqno - seg.seqno).setWidth 16) else seg

namespace Rcv

/-- Whether the code takes a segment at the end of the queue to overrun the window. The
comparison is not one of sequence numbers. -/
def overruns (pcb : Rcv) (inseg : Seg) : Prop :=
  pcb.rcvNxt + pcb.rcvWnd.setWidth 32 < inseg.tcpTcplen.setWidth 32 + inseg.seqno

instance (pcb : Rcv) (inseg : Seg) : Decidable (pcb.overruns inseg) :=
  inferInstanceAs (Decidable (_ < _))

/-- The room that the window has from the start of the segment on. -/
def room (pcb : Rcv) (inseg : Seg) : BitVec 16 :=
  (pcb.rcvNxt + pcb.rcvWnd.setWidth 32 - inseg.seqno).setWidth 16

/-- The copy of the segment that is put at the end of the queue. -/
def lastSegment (pcb : Rcv) (inseg : Seg) : Seg :=
  if pcb.overruns inseg then { inseg with fin := false }.realloc (pcb.room inseg) else inseg

/-- The queue from its last segment on, for a new segment behind it. -/
def appendSegment (pcb : Rcv) (inseg next : Seg) : List Seg :=
  if next.fin then [next] else [next.trimRight inseg.seqno, pcb.lastSegment inseg]

/-- The turns of the loop over the queue that have a segment `prev` before them. Gives the
queue from `prev` on. -/
def queueBehind (pcb : Rcv) (inseg prev : Seg) : List Seg → List Seg
  | [] => [prev]
  | next :: rest =>
    if inseg.seqno = next.seqno then
      if next.len < inseg.len then prev :: tcpOosInsertSegment inseg (next :: rest)
      else prev :: next :: rest
    else if Between inseg.seqno (prev.seqno + 1) (next.seqno - 1) then
      prev.trimRight inseg.seqno :: tcpOosInsertSegment inseg (next :: rest)
    else if rest = [] ∧ Gt inseg.seqno next.seqno then
      prev :: pcb.appendSegment inseg next
    else
      prev :: pcb.queueBehind inseg next rest

/-- The queue with the segment in it. -/
def queueSegment (pcb : Rcv) (inseg : Seg) : List Seg → List Seg
  | [] => [inseg]
  | next :: rest =>
    if inseg.seqno = next.seqno then
      if next.len < inseg.len then tcpOosInsertSegment inseg (next :: rest) else next :: rest
    else if Lt inseg.seqno next.seqno then
      tcpOosInsertSegment inseg (next :: rest)
    else if rest = [] ∧ Gt inseg.seqno next.seqno then
      pcb.appendSegment inseg next
    else
      pcb.queueBehind inseg next rest

end Rcv

/-! ## The segment in the window -/

/-- The connection while `tcp_receive` works on it: `recv_data` is empty where the code
has `NULL`. -/
structure Receiving where
  state : TcpState
  pcb : Rcv
  recvData : List Octet
  gotFin : Bool
  sent : List Ack
  deriving DecidableEq, Repr

namespace Receiving

/-- Moves the window over a segment that is next in sequence, and takes its text. -/
def take (r : Receiving) (seg : Seg) : Receiving :=
  { r with
    pcb := ({ r.pcb with
      rcvNxt := seg.seqno + seg.tcpTcplen.setWidth 32
      rcvWnd := r.pcb.rcvWnd - seg.tcpTcplen } : Rcv).tcpUpdateRcvAnnWnd.1
    recvData := r.recvData ++ seg.p
    gotFin := r.gotFin || seg.fin }

/-- A FIN from the queue closes an established connection at once. -/
def dequeue (r : Receiving) (cseg : Seg) : Receiving :=
  { r.take cseg with
    state := if cseg.fin ∧ r.state = .established then .closeWait else r.state }

def setOoseq (r : Receiving) (ooseq : List Seg) : Receiving :=
  { r with pcb := { r.pcb with ooseq := ooseq } }

/-- Takes the segments of the queue that are in sequence now. -/
def drain (r : Receiving) : List Seg → Receiving
  | [] => r.setOoseq []
  | cseg :: rest =>
    if cseg.seqno = r.pcb.rcvNxt then (r.dequeue cseg).drain rest else r.setOoseq (cseg :: rest)

end Receiving

namespace Rcv

/-- Trims a segment that is longer than the window, and its FIN with it. -/
def trimToWnd (pcb : Rcv) (inseg : Seg) : Seg :=
  if pcb.rcvWnd < inseg.tcpTcplen then { inseg with fin := false }.realloc pcb.rcvWnd else inseg

/-- What of the segment goes before the queue, and what of the queue remains behind it. -/
def mergeWithOoseq (pcb : Rcv) (inseg : Seg) : Seg × List Seg :=
  if inseg.fin then
    (inseg, [])
  else
    let covered := dropCovered Seg.tcpTcplen inseg pcb.ooseq
    (trimToNext Seg.tcpTcplen covered.1 covered.2, covered.2)

/-- Trims the text that came before. The offset is below `0x7fff`, as the code asserts: no
text is longer. -/
def trimFront (pcb : Rcv) (inseg : Seg) : Seg :=
  let off := pcb.rcvNxt - inseg.seqno
  { inseg with
    seqno := pcb.rcvNxt
    len := inseg.len - off.setWidth 16
    p := inseg.p.drop off.toNat }

/-- Whether part of the segment came before. -/
def overlapsFront (pcb : Rcv) (inseg : Seg) : Prop :=
  Between pcb.rcvNxt (inseg.seqno + 1) (inseg.seqno + inseg.tcpTcplen.setWidth 32 - 1)

instance (pcb : Rcv) (inseg : Seg) : Decidable (pcb.overlapsFront inseg) :=
  inferInstanceAs (Decidable (Between _ _ _))

/-- The segment after its front is trimmed. -/
def insegOf (pcb : Rcv) (inseg : Seg) : Seg :=
  if pcb.overlapsFront inseg then pcb.trimFront inseg else inseg

/-- All of the segment came before: it is acknowledged again. -/
def noteDuplicate (pcb : Rcv) (inseg : Seg) : Rcv :=
  if ¬ pcb.overlapsFront inseg ∧ Lt inseg.seqno pcb.rcvNxt then pcb.tcpAckNow else pcb

def inWindow (pcb : Rcv) (seqno : BitVec 32) : Prop :=
  Between seqno pcb.rcvNxt (pcb.rcvNxt + pcb.rcvWnd.setWidth 32 - 1)

instance (pcb : Rcv) (seqno : BitVec 32) : Decidable (pcb.inWindow seqno) :=
  inferInstanceAs (Decidable (Between _ _ _))

end Rcv

/-- The outcomes of the allocations that a segment may need. -/
structure Mem where
  ackAllocated : Bool
  segCopied : Bool
  deriving DecidableEq, Repr

namespace Receiving

def inSequence (r : Receiving) (inseg : Seg) : Receiving :=
  let merged := r.pcb.mergeWithOoseq (r.pcb.trimToWnd inseg)
  let drained := (r.take merged.1).drain merged.2
  { drained with pcb := drained.pcb.tcpAck }

def sendEmptyAck (r : Receiving) (allocated : Bool) : Receiving :=
  let acked := r.pcb.tcpSendEmptyAck allocated
  { r with pcb := acked.1, sent := r.sent ++ acked.2 }

def outOfSequence (r : Receiving) (inseg : Seg) (mem : Mem) : Receiving :=
  let acked := r.sendEmptyAck mem.ackAllocated
  if mem.segCopied then acked.setOoseq (acked.pcb.queueSegment inseg acked.pcb.ooseq) else acked

/-- The part of `tcp_receive` behind the one about the acknowledgement. -/
def tcpReceive (r : Receiving) (inseg : Seg) (mem : Mem) : Receiving :=
  if 0 < inseg.tcpTcplen ∧ r.state.number < TcpState.closeWait.number then
    let trimmed := r.pcb.insegOf inseg
    let noted := { r with pcb := r.pcb.noteDuplicate inseg }
    if r.pcb.inWindow trimmed.seqno then
      if r.pcb.rcvNxt = trimmed.seqno then noted.inSequence trimmed
      else noted.outOfSequence trimmed mem
    else
      noted.sendEmptyAck mem.ackAllocated
  else if ¬ r.pcb.inWindow inseg.seqno then
    { r with pcb := r.pcb.tcpAckNow }
  else
    r

end Receiving

/-! ## The connection -/

/-- What `tcp_output` does for the receive half: a segment with text carries the
acknowledgement, or an empty one is allocated for it, or not. -/
inductive Output where
  | data
  | ack (allocated : Bool)
  deriving DecidableEq, Repr

/-- The connection with what it did: the text that the receive callback took, whether it
was told of the end, and the headers that were sent. -/
structure Conn where
  state : TcpState
  pcb : Rcv
  received : List Octet
  eof : Bool
  sent : List Ack
  deriving DecidableEq, Repr

/-- A connection that is just established: the first octet of the peer has the number
`first`. -/
def Conn.start (first : BitVec 32) (mss : BitVec 16) : Conn where
  state := .established
  pcb := {
    rcvNxt := first
    rcvWnd := tcpWnd
    rcvAnnWnd := tcpWnd
    rcvAnnRightEdge := first
    mss := mss
    ackDelay := false
    ackNow := true
    ooseq := []
    refusedData := none }
  received := []
  eof := false
  sent := []

/-- An arriving segment, with the flags and the outcomes that the receive half depends on. -/
structure Arrival where
  seg : Seg
  syn : Bool
  /-- Whether it acknowledges all that was sent. -/
  acksAll : Bool
  mem : Mem
  /-- Whether the callback takes the refused data, and the new data. -/
  takesRefused : Bool
  takes : Bool
  output : Output
  deriving DecidableEq, Repr

def Arrival.tcplen (a : Arrival) : BitVec 16 := a.seg.len + if a.seg.fin || a.syn then 1 else 0

namespace Conn

def tcpOutput (c : Conn) : Output → Conn
  | .data =>
    { c with pcb := c.pcb.announce.1.noAckFlags, sent := c.sent ++ [c.pcb.announce.2] }
  | .ack allocated =>
    if c.pcb.ackNow then
      let acked := c.pcb.tcpSendEmptyAck allocated
      { c with pcb := acked.1, sent := c.sent ++ acked.2 }
    else
      c

/-- `TCP_EVENT_CLOSED`, with the window corrected by the FIN. -/
def closedEvent (c : Conn) : Conn :=
  { c with
    pcb := { c.pcb with
      rcvWnd := if c.pcb.rcvWnd ≠ tcpWnd then c.pcb.rcvWnd + 1 else c.pcb.rcvWnd }
    eof := true }

def tcpProcessRefusedData (c : Conn) (takes : Bool) : Conn :=
  match c.pcb.refusedData with
  | none => c
  | some (data, fin) =>
    if takes then
      let taken := { c with
        pcb := { c.pcb with refusedData := none }
        received := c.received ++ data }
      if fin then taken.closedEvent else taken
    else
      c

/-- `tcp_pcb_purge`, as far as the receive half goes. -/
def purge (r : Receiving) : Receiving :=
  { r with pcb := { r.pcb with refusedData := none, ooseq := [] } }

def tcpReceive (c : Conn) (a : Arrival) : Receiving :=
  ({ state := c.state, pcb := c.pcb, recvData := [], gotFin := false, sent := [] } :
    Receiving).tcpReceive a.seg a.mem

/-- What the states make of a segment after `tcp_receive`. A connection in `LAST_ACK` whose
FIN is acknowledged is closed. -/
def afterReceive (state : TcpState) (acksAll : Bool) (r : Receiving) : Receiving :=
  let acked := { r with pcb := r.pcb.tcpAckNow }
  match state with
  | .closeWait | .established => if r.gotFin then { acked with state := .closeWait } else r
  | .finWait1 =>
    if r.gotFin then
      if acksAll then purge { acked with state := .timeWait } else { acked with state := .closing }
    else if acksAll then { r with state := .finWait2 } else r
  | .finWait2 => if r.gotFin then purge { acked with state := .timeWait } else r
  | .closing => if acksAll then purge { r with state := .timeWait } else r
  | .lastAck => if acksAll then purge { r with state := .closed } else r
  | _ => r

def tcpProcess (c : Conn) (a : Arrival) : Receiving :=
  if a.syn then
    { state := c.state, pcb := c.pcb.tcpAckNow, recvData := [], gotFin := false, sent := [] }
  else
    afterReceive c.state a.acksAll (c.tcpReceive a)

/-- Hands the text to the application, or keeps it as refused. -/
def receiveEvent (c : Conn) (recvData : List Octet) (takes : Bool) : Conn :=
  if recvData = [] then c
  else if takes then { c with received := c.received ++ recvData }
  else { c with pcb := { c.pcb with refusedData := some (recvData, false) } }

def finEvent (c : Conn) : Conn :=
  match c.pcb.refusedData with
  | some (data, _) => { c with pcb := { c.pcb with refusedData := some (data, true) } }
  | none => c.closedEvent

/-- What `tcp_input` does after `tcp_process`. -/
def events (c : Conn) (r : Receiving) (a : Arrival) : Conn :=
  let processed := { c with state := r.state, pcb := r.pcb, sent := c.sent ++ r.sent }
  if r.state = .closed then
    processed
  else
    let received := processed.receiveEvent r.recvData a.takes
    (if r.gotFin then received.finEvent else received).tcpOutput a.output

def tcpInput (c : Conn) (a : Arrival) : Conn :=
  let offered := c.tcpProcessRefusedData a.takesRefused
  if offered.pcb.refusedData.isSome ∧ 0 < a.tcplen then
    offered
  else
    offered.events (offered.tcpProcess a) a

def tcpRecved (c : Conn) (len : BitVec 16) (output : Output) : Conn :=
  let updated := (c.pcb.openWnd len).tcpUpdateRcvAnnWnd
  if ¬ updated.2.slt tcpWndUpdateThreshold then
    { c with pcb := updated.1.tcpAckNow }.tcpOutput output
  else
    { c with pcb := updated.1 }

def sendDelayedAck (c : Conn) (output : Output) : Conn :=
  let out := { c with pcb := c.pcb.tcpAckNow }.tcpOutput output
  { out with pcb := out.pcb.noAckFlags }

def tcpFasttmr (c : Conn) (takes : Bool) (output : Output) : Conn :=
  (if c.pcb.ackDelay then c.sendDelayedAck output else c).tcpProcessRefusedData takes

/-- `tcp_close_shutdown` of the sending side only, once the FIN is queued. -/
def tcpCloseShutdown (c : Conn) (output : Output) : Conn :=
  match c.state with
  | .established => { c with state := .finWait1 }.tcpOutput output
  | .closeWait => { c with state := .lastAck }.tcpOutput output
  | _ => c

/-- A SYN in the window is answered with a reset. -/
def tcpTimewaitInput (c : Conn) (a : Arrival) : Conn :=
  if a.syn ∧ Between a.seg.seqno c.pcb.rcvNxt (c.pcb.rcvNxt + c.pcb.rcvWnd.setWidth 32) then c
  else if 0 < a.tcplen then { c with pcb := c.pcb.tcpAckNow }.tcpOutput a.output
  else c

end Conn

inductive Action where
  | input (a : Arrival)
  | recved (len : BitVec 16) (output : Output)
  | fasttmr (takes : Bool) (output : Output)
  /-- Any other call of `tcp_output`. -/
  | output (output : Output)
  /-- `tcp_keepalive` or `tcp_zero_window_probe`. -/
  | probe
  | shutdown (output : Output)
  /-- `tcp_slowtmr` drops the queue of a connection that was inactive for too long. -/
  | dropOoseq
  deriving DecidableEq, Repr

def Conn.act (c : Conn) : Action → Conn
  | .input a => c.tcpInput a
  | .recved len output => c.tcpRecved len output
  | .fasttmr takes output => c.tcpFasttmr takes output
  | .output output => c.tcpOutput output
  | .probe => { c with pcb := c.pcb.announce.1, sent := c.sent ++ [c.pcb.announce.2] }
  | .shutdown output => c.tcpCloseShutdown output
  | .dropOoseq => { c with pcb := { c.pcb with ooseq := [] } }

/-- A connection in `TIME_WAIT` is only looked at when a segment comes for it. -/
def step (c : Conn) (action : Action) : Option Conn :=
  match c.state, action with
  | .closed, _ | .listen, _ | .synSent, _ | .synRcvd, _ => none
  | .timeWait, .input a => some (c.tcpTimewaitInput a)
  | .timeWait, _ => none
  | _, _ => some (c.act action)

end FreeLwip.Tcp
