import FreeLwip.Err
import FreeLwip.Ip.PingRecv

/-!
# Pinging (`ping.c`)

`lwip_ping_target_data` sends echo requests one after the other, waits for the reply to each, and
counts up for a reply and down for a request that gets none.
-/

namespace FreeLwip.Ip.Ping

open Loop

/-! ## Requests -/

def icmpEr : Byte := 0
def icmpEcho : Byte := 8

/-- `struct icmp_echo_hdr`, but for the checksum. -/
structure EchoHdr where
  type : Byte
  code : Byte
  id : BitVec 16
  seqno : BitVec 16

/-- The request with this number. -/
def echoHdr (pingSeqNum : BitVec 16) : EchoHdr where
  type := icmpEcho
  code := 0
  id := pingId
  seqno := htons pingSeqNum

/-- `mem_malloc` fails, or `sendto` is called and returns `err`. -/
inductive SendOutcome
  | noMemory
  | sendto (err : Int)

/-- `ping_send`: the sequence number, the request if one was handed to `sendto`, and the result.
The request has `size` bytes behind its header. -/
def pingSend (size pingSeqNum : BitVec 16) : SendOutcome → BitVec 16 × Option EchoHdr × Err
  | .noMemory => (pingSeqNum, none, .mem)
  | .sendto err =>
    let totalSize := 8 + size.toNat
    let pingSeqNum := pingSeqNum + 1
    (pingSeqNum, some (echoHdr pingSeqNum), if err = totalSize then .ok else .val)

/-- What becomes of one request: how `ping_send` gets on, what `ping_recv` is to receive, and
what is on the stack where its buffer will be. -/
structure Request where
  send : SendOutcome
  arrivals : Arrivals
  mem : Memory

/-- A call of `lwip_ping_target_data`: whether `socket` succeeds, the arguments that count, and
the requests, `packets` of them. -/
structure Call where
  socket : Bool
  getResponse : Bool
  size : BitVec 16
  requests : List Request
  packets_lt : requests.length < 2 ^ 8

/-- The `while (packets--)`. -/
def pingLoop (fuel : Nat) (getResponse : Bool) (size : BitVec 16) :
    List Request → BitVec 16 → Int → Option Int
  | [], _, pongcnt => some pongcnt
  | q :: rest, pingSeqNum, pongcnt =>
    let (pingSeqNum, _, err) := pingSend size pingSeqNum q.send
    if err = .ok then
      if getResponse then
        (pingRecv fuel pingSeqNum q.arrivals q.mem).bind fun pong =>
          pingLoop fuel getResponse size rest pingSeqNum (pongcnt + pong)
      else
        pingLoop fuel getResponse size rest pingSeqNum (pongcnt + 1)
    else
      pingLoop fuel getResponse size rest pingSeqNum (pongcnt - 1)

def exitSuccess : Int := 0

def lwipPingTargetData (fuel : Nat) (pingSeqNum : BitVec 16) (c : Call) : Option Int :=
  if c.socket then
    pingLoop fuel c.getResponse c.size c.requests pingSeqNum 0
  else
    some (-exitSuccess)

def Returns (pingSeqNum : BitVec 16) (c : Call) (r : Int) : Prop :=
  ∃ fuel, lwipPingTargetData fuel pingSeqNum c = some r

/-! ## Replies -/

/-- An IP datagram with an ICMP echo reply to the request. -/
structure IsReply (request : EchoHdr) (d : Datagram) : Prop where
  header : 5 ≤ iphHl d.content
  whole : iecho d.content + 8 ≤ d.bytes.length
  type : d.content (iecho d.content) = icmpEr
  id : load16 d.content (iecho d.content + 4) = request.id
  seqno : load16 d.content (iecho d.content + 6) = request.seqno

/-- A reply to the request arrives before the receive loop gives up. -/
def Arrives (request : EchoHdr) (arrivals : Arrivals) : Prop :=
  ∃ k d, arrivals k = some d ∧ IsReply request d ∧
    ∀ j < k, ∃ e, arrivals j = some e ∧ e.bytes ≠ []

/-- The requests that were sent, with their sequence numbers. -/
def sentRequests (size : BitVec 16) : BitVec 16 → List Request → List (BitVec 16 × Request)
  | _, [] => []
  | pingSeqNum, q :: rest =>
    let (pingSeqNum, _, err) := pingSend size pingSeqNum q.send
    if err = .ok then
      (pingSeqNum, q) :: sentRequests size pingSeqNum rest
    else
      sentRequests size pingSeqNum rest

open Classical in
/-- How many of these requests a reply arrives for. -/
noncomputable def answered (sent : List (BitVec 16 × Request)) : Nat :=
  sent.countP fun x => Arrives (echoHdr x.1) x.2.arrivals

/-- What was sent in a call. -/
def Call.sent (c : Call) (pingSeqNum : BitVec 16) : List (BitVec 16 × Request) :=
  if c.socket then sentRequests c.size pingSeqNum c.requests else []

/-- The result counts the answered requests. -/
def CountsAnswered (pingSeqNum : BitVec 16) (c : Call) : Prop :=
  Returns pingSeqNum c (answered (c.sent pingSeqNum))

/-! ## One request -/

variable {pingSeqNum size : BitVec 16} {d : Datagram} {arrivals : Arrivals} {mem : Memory}

/-- `ping_recv` can tell whether the datagram is the reply: it is legible, and only an echo reply
carries the id and the sequence number. -/
def Tellable (pingSeqNum : BitVec 16) (d : Datagram) : Prop :=
  Legible d ∧ (Carries pingSeqNum d → IsReply (echoHdr pingSeqNum) d)

theorem carries_iff_isReply (h : Tellable pingSeqNum d) :
    Carries pingSeqNum d ↔ IsReply (echoHdr pingSeqNum) d := by
  refine ⟨h.2, fun hreply => ?_⟩
  have hlen : minLen ≤ d.len := by
    have := hreply.header
    have := hreply.whole
    unfold iecho at this
    unfold minLen Datagram.len sizeofBuf
    omega
  refine ⟨hlen, (h.1 hlen).2 hreply.id, ?_⟩
  have hid : load16 d.content (iecho d.content + 4) = pingId := hreply.id
  unfold echoMatches
  simp only [if_pos hid]
  exact beq_iff_eq.mpr hreply.seqno

theorem len_pos_iff : 0 < d.len ↔ d.bytes ≠ [] := by
  unfold Datagram.len sizeofBuf
  rw [← List.length_pos_iff]
  omega

theorem goesOn_iff_not_reply (h : ∀ k d, arrivals k = some d → Tellable pingSeqNum d) {k : Nat} :
    GoesOn pingSeqNum arrivals mem k ↔
      ∃ d, arrivals k = some d ∧ d.bytes ≠ [] ∧ ¬ IsReply (echoHdr pingSeqNum) d := by
  rw [goesOn_iff fun d hd => (h k d hd).1]
  refine exists_congr fun d => and_congr_right fun hd => ?_
  rw [len_pos_iff, carries_iff_isReply (h k d hd)]

theorem pingRecv_ends (h : ∀ k d, arrivals k = some d → Tellable pingSeqNum d)
    (hgivesUp : ∃ k, arrivals k = none) :
    ∃ pong, Ends (recvTurn pingSeqNum arrivals) (0, mem) pong ∧
      (Arrives (echoHdr pingSeqNum) arrivals ∧ pong = 1 ∨
        ¬ Arrives (echoHdr pingSeqNum) arrivals ∧ pong = -1) := by
  classical
  have hgoesOn : ∀ k, GoesOn pingSeqNum arrivals mem k ↔
      ∃ d, arrivals k = some d ∧ d.bytes ≠ [] ∧ ¬ IsReply (echoHdr pingSeqNum) d :=
    fun k => goesOn_iff_not_reply h
  have hstop : ∃ k, ¬ GoesOn pingSeqNum arrivals mem k := by
    obtain ⟨k, hk⟩ := hgivesUp
    refine ⟨k, fun hgo => ?_⟩
    obtain ⟨d, hd, -⟩ := (hgoesOn k).mp hgo
    rw [hk] at hd
    cases hd
  have hlast := Nat.find_spec hstop
  have hbefore : ∀ k < Nat.find hstop, GoesOn pingSeqNum arrivals mem k :=
    fun k hk => not_not.mp (Nat.find_min hstop hk)
  generalize Nat.find hstop = n at hlast hbefore
  refine ⟨resultAt arrivals n, recv_ends_iff.mpr ⟨n, hlast, hbefore, rfl⟩, ?_⟩
  by_cases harrives : Arrives (echoHdr pingSeqNum) arrivals
  · refine .inl ⟨harrives, ?_⟩
    obtain ⟨k, d, hd, hreply, hall⟩ := harrives
    have hnonempty : d.bytes ≠ [] := List.ne_nil_of_length_pos (by have := hreply.whole; omega)
    have hsome : ∃ e, arrivals n = some e ∧ e.bytes ≠ [] := by
      rcases Nat.lt_trichotomy k n with hlt | rfl | hgt
      · obtain ⟨e, he, -, hnot⟩ := (hgoesOn k).mp (hbefore k hlt)
        rw [hd, Option.some.injEq] at he
        exact absurd (he ▸ hreply) hnot
      · exact ⟨d, hd, hnonempty⟩
      · exact hall n hgt
    obtain ⟨e, he, hne⟩ := hsome
    simp only [resultAt, he, gt_iff_lt, len_pos_iff.mpr hne, if_true]
  · refine .inr ⟨harrives, ?_⟩
    unfold resultAt
    split
    · rfl
    · next d hd =>
      refine if_neg fun hpos => harrives ⟨n, d, hd, ?_, fun j hj => ?_⟩
      · exact not_not.mp fun hno => hlast ((hgoesOn n).mpr ⟨d, hd, len_pos_iff.mp hpos, hno⟩)
      · obtain ⟨e, he, hne, -⟩ := (hgoesOn j).mp (hbefore j hj)
        exact ⟨e, he, hne⟩

/-! ## All of them -/

theorem pingLoop_mono {fuel more : Nat} (hle : fuel ≤ more) {getResponse : Bool}
    {requests : List Request} {pongcnt r : Int}
    (h : pingLoop fuel getResponse size requests pingSeqNum pongcnt = some r) :
    pingLoop more getResponse size requests pingSeqNum pongcnt = some r := by
  induction requests generalizing pingSeqNum pongcnt with
  | nil => exact h
  | cons q rest ih =>
    simp only [pingLoop] at h ⊢
    split at h
    · next hok =>
      rw [if_pos hok]
      split at h
      · next hresponse =>
        obtain ⟨pong, hpong, hrest⟩ := Option.bind_eq_some_iff.mp h
        rw [if_pos hresponse, pingRecv, run_mono hle hpong]
        exact ih hrest
      · next hnone =>
        rw [if_neg hnone]
        exact ih h
    · next hfailed =>
      rw [if_neg hfailed]
      exact ih h

theorem returns_unique {c : Call} {r x : Int} (hr : Returns pingSeqNum c r)
    (hx : Returns pingSeqNum c x) : r = x := by
  obtain ⟨m, hm⟩ := hr
  obtain ⟨n, hn⟩ := hx
  unfold lwipPingTargetData at hm hn
  split at hm
  · next hsocket =>
    rw [if_pos hsocket] at hn
    have hm' := pingLoop_mono (Nat.le_max_left m n) hm
    have hn' := pingLoop_mono (Nat.le_max_right m n) hn
    rw [hm'] at hn'
    exact Option.some.inj hn'
  · next hsocket =>
    rw [if_neg hsocket] at hn
    exact Option.some.inj (hm.symm.trans hn)

theorem answered_le (size pingSeqNum : BitVec 16) (requests : List Request) :
    answered (sentRequests size pingSeqNum requests) ≤ requests.length := by
  have hsent : (sentRequests size pingSeqNum requests).length ≤ requests.length := by
    induction requests generalizing pingSeqNum with
    | nil => exact le_rfl
    | cons q rest ih =>
      have hrest := ih (pingSend size pingSeqNum q.send).1
      simp only [sentRequests]
      split <;> simp <;> omega
  unfold answered
  exact le_trans List.countP_le_length hsent

@[simp] theorem answered_nil : answered [] = 0 := rfl

theorem answered_cons_of_arrives {x : BitVec 16 × Request}
    (h : Arrives (echoHdr x.1) x.2.arrivals) (sent : List (BitVec 16 × Request)) :
    answered (x :: sent) = answered sent + 1 :=
  List.countP_cons_of_pos (by simpa using h)

theorem answered_cons_of_not {x : BitVec 16 × Request}
    (h : ¬ Arrives (echoHdr x.1) x.2.arrivals) (sent : List (BitVec 16 × Request)) :
    answered (x :: sent) = answered sent :=
  List.countP_cons_of_neg (by simpa using h)

/-- The receive loop of the request gives up at some time, and can tell what it receives until
then. -/
def ReceivesClearly (x : BitVec 16 × Request) : Prop :=
  (∃ k, x.2.arrivals k = none) ∧ ∀ k d, x.2.arrivals k = some d → Tellable x.1 d

theorem pingLoop_counts {requests : List Request}
    (h : ∀ x ∈ sentRequests size pingSeqNum requests, ReceivesClearly x) (pongcnt : Int) :
    ∃ fuel, pingLoop fuel true size requests pingSeqNum pongcnt =
      some (pongcnt + answered (sentRequests size pingSeqNum requests) -
        (requests.length - answered (sentRequests size pingSeqNum requests))) := by
  induction requests generalizing pingSeqNum pongcnt with
  | nil => exact ⟨0, by simp [pingLoop, sentRequests, answered]⟩
  | cons q rest ih =>
    simp only [pingLoop, sentRequests] at h ⊢
    by_cases hok : (pingSend size pingSeqNum q.send).2.2 = .ok
    · simp only [if_pos hok] at h ⊢
      generalize (pingSend size pingSeqNum q.send).1 = seq at h ⊢
      obtain ⟨⟨hgivesUp, htellable⟩, hrest⟩ := List.forall_mem_cons.mp h
      obtain ⟨pong, ⟨fuel, hrecv⟩, hpong⟩ := pingRecv_ends htellable hgivesUp
      obtain ⟨more, hmore⟩ := ih hrest (pongcnt + pong)
      refine ⟨max fuel more, ?_⟩
      rw [if_pos trivial, pingRecv, run_mono (Nat.le_max_left ..) hrecv, Option.bind_some,
        pingLoop_mono (Nat.le_max_right ..) hmore, List.length_cons]
      push_cast
      congr 1
      rcases hpong with ⟨harrives, rfl⟩ | ⟨hnot, rfl⟩
      · rw [answered_cons_of_arrives harrives]
        omega
      · rw [answered_cons_of_not hnot]
        omega
    · simp only [if_neg hok] at h ⊢
      obtain ⟨fuel, hfuel⟩ := ih h (pongcnt - 1)
      refine ⟨fuel, hfuel.trans ?_⟩
      rw [List.length_cons]
      push_cast
      congr 1
      omega

/-- The requests that are answered count up, and all the others down. -/
noncomputable def pongcnt (pingSeqNum : BitVec 16) (c : Call) : Int :=
  if c.socket then
    (answered (c.sent pingSeqNum) : Int) - (c.requests.length - answered (c.sent pingSeqNum))
  else
    0

/-- `lwip_ping_target_data` returns the number of the requests that a reply has arrived for, less
the number of those that were not sent or got no reply. -/
theorem ping_counts (pingSeqNum : BitVec 16) (c : Call) (hresponse : c.getResponse = true)
    (hclearly : ∀ x ∈ c.sent pingSeqNum, ReceivesClearly x) :
    (∀ r, Returns pingSeqNum c r ↔ r = pongcnt pingSeqNum c) ∧
      answered (c.sent pingSeqNum) ≤ c.requests.length := by
  have hreturns : Returns pingSeqNum c (pongcnt pingSeqNum c) ∧
      answered (c.sent pingSeqNum) ≤ c.requests.length := by
    unfold Returns pongcnt lwipPingTargetData Call.sent at *
    split at hclearly
    · next hsocket =>
      obtain ⟨fuel, hfuel⟩ := pingLoop_counts hclearly 0
      refine ⟨⟨fuel, ?_⟩, ?_⟩
      · simp only [if_pos hsocket, hresponse]
        rw [hfuel, zero_add]
      · simp only [if_pos hsocket]
        exact answered_le ..
    · next hsocket =>
      refine ⟨⟨0, ?_⟩, ?_⟩
      · simp only [if_neg hsocket]
        rfl
      · simp only [if_neg hsocket]
        exact Nat.zero_le _
  refine ⟨fun r => ⟨fun hr => returns_unique hr hreturns.1, ?_⟩, hreturns.2⟩
  rintro rfl
  exact hreturns.1

/-! ### Two requests -/

/-- A reply to the request with the number 1. -/
def firstReply : Datagram where
  bytes := 0x45 :: List.replicate 23 0 ++ [0xAF, 0xAF, 0x00, 0x01]
  beyond := fun _ => 0

def answeredRequest : Request where
  send := .sendto 8
  arrivals := fun k => if k = 0 then some firstReply else none
  mem := fun _ => 0

def lostRequest : Request where
  send := .sendto 8
  arrivals := fun _ => none
  mem := fun _ => 0

/-- The first request is answered, the second one is not. -/
def twoRequests : Call where
  socket := true
  getResponse := true
  size := 0
  requests := [answeredRequest, lostRequest]
  packets_lt := by decide

theorem firstReply_isReply : IsReply (echoHdr 1) firstReply := by
  constructor <;> decide

theorem twoRequests_sent : twoRequests.sent 0 = [(1, answeredRequest), (2, lostRequest)] :=
  rfl

theorem twoRequests_clearly : ∀ x ∈ twoRequests.sent 0, ReceivesClearly x := by
  rw [twoRequests_sent, List.forall_mem_cons, List.forall_mem_singleton]
  refine ⟨⟨⟨1, rfl⟩, fun k d hd => ?_⟩, ⟨0, rfl⟩, fun k d hd => by cases hd⟩
  simp only [answeredRequest] at hd
  split at hd
  · cases hd
    exact ⟨by decide, fun _ => firstReply_isReply⟩
  · cases hd

theorem twoRequests_answered : answered (twoRequests.sent 0) = 1 := by
  have hfirst : Arrives (echoHdr 1) answeredRequest.arrivals :=
    ⟨0, firstReply, rfl, firstReply_isReply, fun j hj => absurd hj (Nat.not_lt_zero j)⟩
  have hsecond : ¬ Arrives (echoHdr 2) lostRequest.arrivals := by
    rintro ⟨k, d, hd, -⟩
    cases hd
  rw [twoRequests_sent, answered_cons_of_arrives (x := (1, answeredRequest)) hfirst,
    answered_cons_of_not (x := (2, lostRequest)) hsecond, answered_nil]

theorem ping_counts_two : Returns 0 twoRequests 0 := by
  refine ((ping_counts 0 twoRequests rfl twoRequests_clearly).1 0).mpr ?_
  unfold pongcnt
  rw [twoRequests_answered]
  rfl

/-- One of two requests is answered, and the result is 0. -/
theorem twoRequests_not_countsAnswered : ¬ CountsAnswered 0 twoRequests := by
  intro h
  have hzero : Returns 0 twoRequests 0 := ⟨3, by decide⟩
  have hone := returns_unique h hzero
  rw [twoRequests_answered] at hone
  exact absurd hone (by decide)

end FreeLwip.Ip.Ping
