import FreeLwip.Tcp.Delivery

/-!
# Runs of a receiving connection

The segments of a peer that sends the stream `S` come in any order, some of them never and
some more than once. What the application is handed is the front of the stream.
-/

namespace FreeLwip.Tcp

open Serial Text Run

/-- Connections that `tcp_input` and the timers still work on. -/
def TcpState.Active (state : TcpState) : Prop := state ≠ .timeWait ∧ state ≠ .closed

instance (state : TcpState) : Decidable state.Active := inferInstanceAs (Decidable (_ ∧ _))

namespace Conn

def refusedText (c : Conn) : List Octet := (c.pcb.refusedData.map Prod.fst).getD []

/-- How many octets were taken from the stream. -/
def taken (c : Conn) : Nat := c.received.length + c.refusedText.length

def receiving (c : Conn) : Receiving :=
  { state := c.state, pcb := c.pcb, recvData := [], gotFin := false, sent := [] }

/-- The connection as `tcp_process` finds it. -/
def offered (c : Conn) (a : Arrival) : Conn := c.tcpProcessRefusedData a.takesRefused

end Conn

/-- A segment that the peer sends behind its FIN: it has no text any more. -/
def Behind (first : BitVec 32) (S : List Octet) (k : Nat) (seg : Seg) : Prop :=
  k = S.length + 1 ∧ seg = { seqno := number first k, len := 0, fin := false, p := [] }

instance (first : BitVec 32) (S : List Octet) (k : Nat) (seg : Seg) :
    Decidable (Behind first S k seg) := inferInstanceAs (Decidable (_ ∧ _))

/-- The segment is one that a peer with the stream `S` sends. -/
def FromPeer (first : BitVec 32) (S : List Octet) (k : Nat) (seg : Seg) : Prop :=
  Piece first S k seg ∨ Behind first S k seg

instance (first : BitVec 32) (S : List Octet) (k : Nat) (seg : Seg) :
    Decidable (FromPeer first S k seg) := inferInstanceAs (Decidable (_ ∨ _))

theorem FromPeer.le {first : BitVec 32} {S : List Octet} {k : Nat} {seg : Seg}
    (h : FromPeer first S k seg) : k ≤ S.length + 1 := by
  rcases h with hseg | ⟨rfl, -⟩
  · exact hseg.text.1.trans (Nat.le_succ _)
  · exact le_rfl

/-- The segment is the peer's, and less than an eighth of all sequence numbers away from what
was taken so far. -/
def Genuine (first : BitVec 32) (S : List Octet) (c : Conn) : Action → Prop
  | .input a =>
    ∃ k, FromPeer first S k a.seg ∧ k < c.taken + 0x20000000 ∧ c.taken < k + 0x20000000
  | _ => True

instance (first : BitVec 32) (S : List Octet) (c : Conn) (act : Action) :
    Decidable (Genuine first S c act) :=
  match act with
  | .input a =>
    decidable_of_iff (∃ k < S.length + 2,
        FromPeer first S k a.seg ∧ k < c.taken + 0x20000000 ∧ c.taken < k + 0x20000000)
      ⟨fun ⟨k, _, h⟩ => ⟨k, h⟩, fun ⟨k, h⟩ => ⟨k, Nat.lt_succ_of_le h.1.le, h⟩⟩
  | .recved _ _ | .fasttmr _ _ | .output _ | .probe | .shutdown _ | .dropOoseq => .isTrue trivial

/-- The segment is put at the end of the queue, with a length that its text does not have. -/
def StretchStep (c : Conn) : Action → Prop
  | .input a =>
    c.state.Active ∧ a.syn = false ∧ (c.offered a).pcb.refusedData = none ∧
      (c.offered a).receiving.Stretches a.seg a.mem
  | _ => False

instance (c : Conn) (act : Action) : Decidable (StretchStep c act) :=
  match act with
  | .input a => inferInstanceAs (Decidable (c.state.Active ∧ a.syn = false ∧
      (c.offered a).pcb.refusedData = none ∧ (c.offered a).receiving.Stretches a.seg a.mem))
  | .recved _ _ | .fasttmr _ _ | .output _ | .probe | .shutdown _ | .dropOoseq => .isFalse id

variable {first : BitVec 32} {S : List Octet} {hi n m k : Nat} {c c' t : Conn} {r r' : Receiving}
  {a : Arrival}

/-- `rcv_nxt` stands for the position `n`: all that is in front of it was handed to the
application or is kept for it, and the queue has slices of what comes behind. -/
structure Inv (first : BitVec 32) (S : List Octet) (hi n : Nat) (c : Conn) : Prop where
  nxt : c.pcb.rcvNxt = number first n
  le_end : n ≤ S.length + 1
  ended : c.state.number < TcpState.closeWait.number → c.state ≠ .closed → n ≤ S.length
  queue : Queued first S hi n (n + 1) c.pcb.ooseq
  text : c.state.Active → c.received ++ c.refusedText = S.take n
  safe : c.received ++ c.refusedText <+: S
  marked : ∀ data, c.pcb.refusedData = some (data, true) → n = S.length + 1
  eof : c.eof = true → c.received = S
  acks : ∀ ack ∈ c.sent, ∃ i ≤ n, ack.ackno = number first i

theorem Inv.receives (hc : Inv first S hi n c) : Receives first S n n c.receiving :=
  ⟨hc.nxt, le_rfl, hc.le_end, List.append_nil _, by simp [Conn.receiving]; omega⟩

theorem Inv.start (first : BitVec 32) (S : List Octet) (hi : Nat) (mss : BitVec 16) :
    Inv first S hi 0 (Conn.start first mss) where
  nxt := by simp [Conn.start, number]
  le_end := Nat.zero_le _
  ended := fun _ _ => Nat.zero_le _
  queue := trivial
  text := fun _ => rfl
  safe := List.nil_prefix
  marked := by simp [Conn.start]
  eof := by simp [Conn.start]
  acks := by simp [Conn.start]

/-! ## Steps that take no text -/

/-- The step only sends, or changes the window. -/
structure Quiet (c' c : Conn) : Prop where
  state : c'.state = c.state
  rcvNxt : c'.pcb.rcvNxt = c.pcb.rcvNxt
  ooseq : c'.pcb.ooseq = c.pcb.ooseq
  refusedData : c'.pcb.refusedData = c.pcb.refusedData
  received : c'.received = c.received
  eof : c'.eof = c.eof
  sent : ∀ ack ∈ c'.sent, ack ∈ c.sent ∨ ack.ackno = c.pcb.rcvNxt

namespace Quiet

theorem refl (c : Conn) : Quiet c c := ⟨rfl, rfl, rfl, rfl, rfl, rfl, fun _ h => .inl h⟩

theorem trans {c'' : Conn} (h : Quiet c'' c') (h' : Quiet c' c) : Quiet c'' c where
  state := h.state.trans h'.state
  rcvNxt := h.rcvNxt.trans h'.rcvNxt
  ooseq := h.ooseq.trans h'.ooseq
  refusedData := h.refusedData.trans h'.refusedData
  received := h.received.trans h'.received
  eof := h.eof.trans h'.eof
  sent := fun ack hack => by
    rcases h.sent ack hack with hold | hnew
    · exact h'.sent ack hold
    · exact .inr (hnew.trans h'.rcvNxt)

theorem of_same {pcb : Rcv} (h : pcb.SameText c.pcb) : Quiet { c with pcb := pcb } c :=
  ⟨rfl, h.rcvNxt, h.ooseq, h.refusedData, rfl, rfl, fun _ hack => .inl hack⟩

theorem announce (c : Conn) :
    Quiet { c with pcb := c.pcb.announce.1, sent := c.sent ++ [c.pcb.announce.2] } c := by
  refine ⟨rfl, rfl, rfl, rfl, rfl, rfl, fun ack hack => ?_⟩
  rcases List.mem_append.mp hack with hold | hnew
  · exact .inl hold
  · rw [List.mem_singleton.mp hnew]
    exact .inr rfl

theorem tcpOutput (c : Conn) (output : Output) : Quiet (c.tcpOutput output) c := by
  cases output with
  | data => exact ⟨rfl, rfl, rfl, rfl, rfl, rfl, (announce c).sent⟩
  | ack allocated =>
    have hsame := Rcv.tcpSendEmptyAck_same c.pcb allocated
    unfold Conn.tcpOutput
    dsimp only
    split
    · refine ⟨rfl, hsame.rcvNxt, hsame.ooseq, hsame.refusedData, rfl, rfl, fun ack hack => ?_⟩
      rcases List.mem_append.mp hack with hold | hnew
      · exact .inl hold
      · exact .inr (Rcv.tcpSendEmptyAck_sent hnew)
    · exact refl c

theorem ackNow (c : Conn) (output : Output) :
    Quiet ({ c with pcb := c.pcb.tcpAckNow }.tcpOutput output) c :=
  (tcpOutput _ _).trans (of_same ⟨rfl, rfl, rfl, rfl⟩)

theorem refusedText (h : Quiet c' c) : c'.refusedText = c.refusedText := by
  rw [Conn.refusedText, h.refusedData, Conn.refusedText]

theorem inv (h : Quiet c' c) (hc : Inv first S hi n c) : Inv first S hi n c' where
  nxt := h.rcvNxt.trans hc.nxt
  le_end := hc.le_end
  ended := h.state ▸ hc.ended
  queue := h.ooseq ▸ hc.queue
  text := by
    rw [h.state, h.received, h.refusedText]
    exact hc.text
  safe := by
    rw [h.received, h.refusedText]
    exact hc.safe
  marked := h.refusedData ▸ hc.marked
  eof := by
    rw [h.eof, h.received]
    exact hc.eof
  acks := fun ack hack => by
    rcases h.sent ack hack with hold | hnew
    · exact hc.acks ack hold
    · exact ⟨n, le_rfl, hnew.trans hc.nxt⟩

end Quiet

theorem tcpRecved_quiet (c : Conn) (len : BitVec 16) (output : Output) :
    Quiet (c.tcpRecved len output) c := by
  have hsame := Rcv.tcpUpdateRcvAnnWnd_same (c.pcb.openWnd len)
  have hpcb : Quiet { c with pcb := (c.pcb.openWnd len).tcpUpdateRcvAnnWnd.1 } c :=
    ⟨rfl, hsame.rcvNxt, hsame.ooseq, hsame.refusedData, rfl, rfl, fun _ h => .inl h⟩
  unfold Conn.tcpRecved
  dsimp only
  split
  · exact (Quiet.ackNow _ _).trans hpcb
  · exact hpcb

theorem tcpTimewaitInput_quiet (c : Conn) (a : Arrival) : Quiet (c.tcpTimewaitInput a) c := by
  unfold Conn.tcpTimewaitInput
  split_ifs
  · exact .refl c
  · exact .ackNow _ _
  · exact .refl c

theorem sendDelayedAck_quiet (c : Conn) (output : Output) : Quiet (c.sendDelayedAck output) c := by
  have hflags : Quiet (c.sendDelayedAck output)
      ({ c with pcb := c.pcb.tcpAckNow }.tcpOutput output) :=
    .of_same ⟨rfl, rfl, rfl, rfl⟩
  exact hflags.trans (.ackNow c output)

/-! ## Refused data -/

theorem closedEvent_inv (hc : Inv first S hi n c) (hreceived : c.received = S) :
    Inv first S hi n c.closedEvent where
  nxt := hc.nxt
  le_end := hc.le_end
  ended := hc.ended
  queue := hc.queue
  text := hc.text
  safe := hc.safe
  marked := hc.marked
  eof := fun _ => hreceived
  acks := hc.acks

theorem takeRefused_inv (hc : Inv first S hi n c) (hactive : c.state.Active) {data : List Octet}
    {fin : Bool} (hrefused : c.pcb.refusedData = some (data, fin)) :
    Inv first S hi n { c with
      pcb := { c.pcb with refusedData := none }
      received := c.received ++ data } ∧ c.received ++ data = S.take n := by
  have hall := hc.text hactive
  have hsafe := hc.safe
  have htext : c.refusedText = data := by
    simp [Conn.refusedText, hrefused]
  rw [htext] at hall hsafe
  refine ⟨{
    nxt := hc.nxt
    le_end := hc.le_end
    ended := hc.ended
    queue := hc.queue
    text := fun _ => by simpa [Conn.refusedText] using hall
    safe := by simpa [Conn.refusedText] using hsafe
    marked := by simp
    eof := fun heof => ?_
    acks := hc.acks }, hall⟩
  rw [hc.eof heof] at hsafe ⊢
  exact hsafe.eq_of_length_le (by simp)

theorem tcpProcessRefusedData_inv (hc : Inv first S hi n c) (hactive : c.state.Active)
    (takes : Bool) :
    Inv first S hi n (c.tcpProcessRefusedData takes) := by
  unfold Conn.tcpProcessRefusedData
  cases hrefused : c.pcb.refusedData with
  | none => exact hc
  | some refused =>
    obtain ⟨data, fin⟩ := refused
    obtain ⟨htaken, htext⟩ := takeRefused_inv hc hactive hrefused
    cases takes with
    | false => exact hc
    | true =>
      cases fin with
      | false => exact htaken
      | true =>
        refine closedEvent_inv htaken ?_
        rw [htext, hc.marked data hrefused, List.take_of_length_le (by omega)]

/-! ## An arriving segment -/

/-- What the states make of the connection: the queue and the refused data are only let go,
and the latter with the connection. -/
structure Settled (r' r : Receiving) : Prop where
  window : r'.pcb.SameWindow r.pcb
  ooseq : r'.pcb.ooseq = r.pcb.ooseq ∨ r'.pcb.ooseq = []
  refused : r'.pcb.refusedData = r.pcb.refusedData ∨
    r'.pcb.refusedData = none ∧ ¬ r'.state.Active
  recvData : r'.recvData = r.recvData
  gotFin : r'.gotFin = r.gotFin
  sent : r'.sent = r.sent

theorem afterReceive_settled (state : TcpState) (acksAll : Bool) (r : Receiving) :
    Settled (Conn.afterReceive state acksAll r) r := by
  unfold Conn.afterReceive
  dsimp only
  split <;> (try split_ifs) <;>
    first
    | exact ⟨⟨rfl, rfl, rfl, rfl⟩, .inl rfl, .inl rfl, rfl, rfl, rfl⟩
    | exact ⟨⟨rfl, rfl, rfl, rfl⟩, .inr rfl, .inr ⟨rfl, by simp [Conn.purge, TcpState.Active]⟩,
        rfl, rfl, rfl⟩

theorem afterReceive_closes {state : TcpState} {b : Bool}
    (hsync : TcpState.established.number ≤ state.number) (hkept : StateKept S m state r.state)
    (hfin : r.gotFin = true ∨ TcpState.closeWait.number ≤ state.number) :
    TcpState.closeWait.number ≤ (Conn.afterReceive state b r).state.number ∨
      (Conn.afterReceive state b r).state = .closed := by
  unfold Conn.afterReceive
  unfold StateKept at hkept
  cases hg : r.gotFin <;> cases b <;> cases state <;>
    simp_all [TcpState.number, Conn.purge]

theorem afterReceive_ended (hc : Inv first S hi n c)
    (hsync : TcpState.established.number ≤ c.state.number)
    (hr : Received first S hi n m c.receiving r) {acksAll : Bool}
    (hopen : (Conn.afterReceive c.state acksAll r).state.number < TcpState.closeWait.number)
    (hnc : (Conn.afterReceive c.state acksAll r).state ≠ .closed) : m ≤ S.length := by
  by_contra hlt
  have hle := hr.le_end
  have hnle := hc.le_end
  have hfin : r.gotFin = true ∨ TcpState.closeWait.number ≤ c.state.number := by
    rw [hr.fin]
    by_contra hno
    have hn := hc.ended (by omega) (by
      rintro hcl
      rw [hcl] at hsync
      exact absurd hsync (by decide))
    omega
  rcases afterReceive_closes (b := acksAll) hsync hr.state hfin with hge | hcl
  · omega
  · exact hnc hcl

/-- `tcp_process`, from the position `n` to the position `m`. -/
structure Processed (first : BitVec 32) (S : List Octet) (hi n m : Nat) (c : Conn) (r : Receiving) :
    Prop extends Receives first S n m r where
  queue : Queued first S hi m (m + 1) r.pcb.ooseq
  refused : r.pcb.refusedData = c.pcb.refusedData ∨
    r.pcb.refusedData = none ∧ ¬ r.state.Active
  ended : r.state.number < TcpState.closeWait.number → r.state ≠ .closed → m ≤ S.length
  sent : ∀ ack ∈ r.sent, ack.ackno = number first n
  windowed : ∀ total e, hi ≤ e + 1 → hi ≤ total → Windowed first total n e c.pcb →
    ∃ e', Announces first e r.sent e' ∧ Windowed first total m e' r.pcb

theorem tcpProcess_processed (hc : Inv first S hi n c)
    (hsync : TcpState.established.number ≤ c.state.number)
    (hreceived : a.syn = false → ∃ m, Received first S hi n m c.receiving (c.tcpReceive a)) :
    ∃ m, Processed first S hi n m c (c.tcpProcess a) := by
  have hstart := hc.receives
  unfold Conn.tcpProcess
  cases hsyn : a.syn with
  | true =>
    exact ⟨n, hstart.of_eq rfl rfl rfl, hc.queue, .inl rfl, hc.ended, by simp,
      fun _ e _ _ hw => ⟨e, rfl, hw.of_eq rfl rfl rfl rfl⟩⟩
  | false =>
    obtain ⟨m, hm⟩ := hreceived hsyn
    have hs := afterReceive_settled c.state a.acksAll (c.tcpReceive a)
    rw [if_neg (by decide)]
    refine ⟨m, hm.toReceives.of_eq hs.window.rcvNxt hs.recvData hs.gotFin, ?_, ?_,
      afterReceive_ended hc hsync hm, ?_, fun total e hhi htotal hw => ?_⟩
    · rcases hs.ooseq with heq | hnil
      · rw [heq]
        exact hm.queue
      · rw [hnil]
        trivial
    · rcases hs.refused with heq | hnone
      · exact .inl (heq.trans hm.refused)
      · exact .inr hnone
    · intro ack hack
      rw [hs.sent] at hack
      rcases hm.sent ack hack with hold | hnew
      · cases hold
      · exact hnew
    · obtain ⟨acks, e', hsent, hedges, hw'⟩ := hm.windowed total e hhi htotal hw
      rw [hs.sent, hsent]
      exact ⟨e', hedges, hs.window.windowed hw'⟩

/-- The connection after `tcp_process`, before the application is told of anything. -/
def Conn.processed (c : Conn) (r : Receiving) : Conn :=
  { c with state := r.state, pcb := r.pcb, sent := c.sent ++ r.sent }

theorem processed_acks (hc : Inv first S hi n c) (hp : Processed first S hi n m c r) :
    ∀ ack ∈ (c.processed r).sent, ∃ i ≤ m, ack.ackno = number first i := by
  intro ack hack
  rcases List.mem_append.mp hack with hold | hnew
  · obtain ⟨i, hi, heq⟩ := hc.acks ack hold
    exact ⟨i, hi.trans hp.le, heq⟩
  · exact ⟨n, hp.le, hp.sent ack hnew⟩

theorem processed_safe (hc : Inv first S hi n c) (hp : Processed first S hi n m c r) :
    (c.processed r).received ++ (c.processed r).refusedText <+: S := by
  rcases hp.refused with heq | ⟨hnone, -⟩
  · rw [Conn.refusedText, Conn.processed, heq]
    exact hc.safe
  · rw [Conn.refusedText, Conn.processed, hnone]
    exact (List.prefix_append_right_inj c.received |>.mpr List.nil_prefix).trans hc.safe

theorem processed_inv (hc : Inv first S hi n c) (hactive : c.state.Active)
    (hp : Processed first S hi n m c r) (hempty : r.state.Active → r.recvData = []) :
    Inv first S hi m (c.processed r) where
  nxt := hp.nxt
  le_end := hp.le_end
  ended := hp.ended
  queue := hp.queue
  text := fun hact => by
    have hkept : (c.processed r).refusedText = c.refusedText := by
      rcases hp.refused with heq | ⟨-, hret⟩
      · rw [Conn.refusedText, Conn.processed, heq, Conn.refusedText]
      · exact absurd hact hret
    rw [hkept, ← hp.text, hempty hact, List.append_nil]
    exact hc.text hactive
  safe := processed_safe hc hp
  marked := fun data hdata => by
    have hle := hp.le
    have hend := hp.le_end
    rcases hp.refused with heq | ⟨hnone, -⟩
    · have := hc.marked data (heq ▸ hdata)
      omega
    · rw [Conn.processed, hnone] at hdata
      cases hdata
  eof := hc.eof
  acks := processed_acks hc hp

theorem receiveEvent_inv (hc : Inv first S hi n c) (hactive : c.state.Active)
    (hnone : c.pcb.refusedData = none) (hp : Processed first S hi n m c r) (takes : Bool) :
    Inv first S hi m ((c.processed r).receiveEvent r.recvData takes) ∧
      ((c.processed r).receiveEvent r.recvData takes).received ++
        ((c.processed r).receiveEvent r.recvData takes).refusedText = S.take m := by
  have hrefused : r.pcb.refusedData = none := by
    rcases hp.refused with heq | ⟨heq, -⟩
    · exact heq.trans hnone
    · exact heq
  have htext : c.received ++ r.recvData = S.take m := by
    have hall := hc.text hactive
    rw [Conn.refusedText, hnone] at hall
    rw [← hp.text, ← hall]
    simp
  have hsafe : c.received ++ r.recvData <+: S := htext ▸ List.take_prefix m S
  unfold Conn.receiveEvent
  split_ifs with hnil htakes
  · refine ⟨processed_inv hc hactive hp fun _ => hnil, ?_⟩
    rw [hnil] at htext
    simpa [Conn.refusedText, Conn.processed, hrefused] using htext
  · refine ⟨⟨hp.nxt, hp.le_end, hp.ended, hp.queue, fun _ => ?_, ?_, ?_, fun heof => ?_,
      processed_acks hc hp⟩, ?_⟩
    · simpa [Conn.refusedText, Conn.processed, hrefused] using htext
    · simpa [Conn.refusedText, Conn.processed, hrefused] using hsafe
    · simp [Conn.processed, hrefused]
    · have hreceived : c.received = S := hc.eof heof
      rw [hreceived] at hsafe
      simpa [Conn.processed, hreceived] using hsafe.eq_of_length_le (by simp)
    · simpa [Conn.refusedText, Conn.processed, hrefused] using htext
  · refine ⟨⟨hp.nxt, hp.le_end, hp.ended, hp.queue, fun _ => ?_, ?_, ?_, hc.eof,
      processed_acks hc hp⟩, ?_⟩
    · simpa [Conn.refusedText, Conn.processed] using htext
    · simpa [Conn.refusedText, Conn.processed] using hsafe
    · simp
    · simpa [Conn.refusedText, Conn.processed] using htext

theorem finEvent_inv (hc : Inv first S hi n c) (htext : c.received ++ c.refusedText = S.take n)
    (hend : n = S.length + 1) : Inv first S hi n c.finEvent := by
  unfold Conn.finEvent
  cases hrefused : c.pcb.refusedData with
  | none =>
    refine closedEvent_inv hc ?_
    rw [Conn.refusedText, hrefused, List.take_of_length_le (by omega)] at htext
    simpa using htext
  | some refused =>
    have hsame : c.refusedText = refused.1 := by
      simp [Conn.refusedText, hrefused]
    have hall := hc.text
    have hsafe := hc.safe
    rw [hsame] at hall hsafe
    exact
      { nxt := hc.nxt
        le_end := hc.le_end
        ended := hc.ended
        queue := hc.queue
        text := by simpa [Conn.refusedText] using hall
        safe := by simpa [Conn.refusedText] using hsafe
        marked := fun _ _ => hend
        eof := hc.eof
        acks := hc.acks }

theorem events_inv (hc : Inv first S hi n c) (hactive : c.state.Active)
    (hp : Processed first S hi n m c r)
    (htext : c.pcb.refusedData = none ∨ r.recvData = [] ∧ r.gotFin = false) :
    Inv first S hi m (c.events r a) := by
  unfold Conn.events
  dsimp only
  split
  next hclosed =>
    exact processed_inv hc hactive hp fun hact => absurd hclosed hact.2
  next hopen =>
    refine (Quiet.tcpOutput _ _).inv ?_
    rcases htext with hnone | ⟨hnil, hfin⟩
    · obtain ⟨hinv, hall⟩ := receiveEvent_inv hc hactive hnone hp a.takes
      split
      next hfin => exact finEvent_inv hinv hall (hp.fin.mp hfin).2
      next => exact hinv
    · rw [if_neg (by simp [hfin]), Conn.receiveEvent, if_pos hnil]
      exact processed_inv hc hactive hp fun _ => hnil

/-! ## Steps -/

theorem step_cases {act : Action} (h : step c act = some t) :
    (∃ a, c.state = .timeWait ∧ act = .input a ∧ t = c.tcpTimewaitInput a) ∨
      (c.state.Active ∧ TcpState.established.number ≤ c.state.number ∧ t = c.act act) := by
  unfold step at h
  cases hs : c.state with
  | closed | listen | synSent | synRcvd => simp [hs] at h
  | timeWait =>
    cases act with
    | input a => exact .inl ⟨a, rfl, rfl, by simpa [hs] using h.symm⟩
    | _ => simp [hs] at h
  | _ => exact .inr ⟨by decide, by decide, by simpa [hs] using h.symm⟩

theorem Inv.taken (hc : Inv first S hi n c) (hactive : c.state.Active) :
    c.taken ≤ n ∧ n ≤ c.taken + 1 := by
  have hlen := congrArg List.length (hc.text hactive)
  have hle := hc.le_end
  rw [List.length_append, List.length_take] at hlen
  unfold Conn.taken
  omega

theorem FromPeer.short {seg : Seg} (h : FromPeer first S k seg) : seg.len.toNat < 0x7fff := by
  rcases h with hseg | ⟨-, rfl⟩
  · rw [hseg.len]
    exact hseg.short
  · exact Nat.zero_lt_succ _

theorem Behind.tcplen {seg : Seg} (h : Behind first S k seg) : ¬ 0 < seg.tcpTcplen := by
  have hzero : seg.tcpTcplen = 0 := by
    rw [h.2]
    rfl
  rw [hzero]
  exact lt_irrefl 0

theorem tcpProcess_empty (hseg : FromPeer first S k a.seg) (hempty : ¬ 0 < a.tcplen) :
    (c.tcpProcess a).recvData = [] ∧ (c.tcpProcess a).gotFin = false := by
  have hshort := hseg.short
  have hzero : a.tcplen.toNat = 0 := by
    rw [BitVec.lt_def] at hempty
    exact Nat.eq_zero_of_not_pos hempty
  have hflags : a.seg.fin = false ∧ a.syn = false := by
    unfold Arrival.tcplen at hzero
    cases hfin : a.seg.fin <;> cases hsyn : a.syn <;>
      simp [hfin, hsyn, BitVec.toNat_add] at hzero ⊢ <;> omega
  have htcplen : ¬ 0 < a.seg.tcpTcplen := by
    unfold Arrival.tcplen at hempty
    unfold Seg.tcpTcplen
    simpa [hflags] using hempty
  have hs := afterReceive_settled c.state a.acksAll (c.tcpReceive a)
  have hnone : (c.tcpReceive a).recvData = [] ∧ (c.tcpReceive a).gotFin = false := by
    unfold Conn.tcpReceive Receiving.tcpReceive
    rw [if_neg fun h => htcplen h.1]
    split <;> exact ⟨rfl, rfl⟩
  unfold Conn.tcpProcess
  rw [hflags.2, if_neg (by decide), hs.recvData, hs.gotFin]
  exact hnone

theorem tcpProcessRefusedData_state (c : Conn) (takes : Bool) :
    (c.tcpProcessRefusedData takes).state = c.state := by
  unfold Conn.tcpProcessRefusedData
  split
  · rfl
  · split_ifs <;> rfl

/-- Whether `tcp_input` takes the segment, or only offers the refused data again. -/
def Conn.admits (c : Conn) (a : Arrival) : Prop :=
  (c.offered a).pcb.refusedData = none ∨ ¬ 0 < a.tcplen

theorem tcpInput_eq (c : Conn) (a : Arrival) :
    (¬ c.admits a ∧ c.tcpInput a = c.offered a) ∨
      (c.admits a ∧ c.tcpInput a = (c.offered a).events ((c.offered a).tcpProcess a) a) := by
  by_cases h : (c.offered a).pcb.refusedData.isSome = true ∧ 0 < a.tcplen
  · refine .inl ⟨?_, if_pos h⟩
    rintro (hnone | hempty)
    · simp [hnone] at h
    · exact hempty h.2
  · refine .inr ⟨?_, if_neg h⟩
    by_cases hempty : 0 < a.tcplen
    · exact .inl (Option.not_isSome_iff_eq_none.mp fun hsome => h ⟨hsome, hempty⟩)
    · exact .inr hempty

theorem offered_inv (hc : Inv first S hi n c) (hactive : c.state.Active) (a : Arrival) :
    Inv first S hi n (c.offered a) ∧ (c.offered a).state = c.state :=
  ⟨tcpProcessRefusedData_inv hc hactive _, tcpProcessRefusedData_state _ _⟩

theorem admitted_processed (hoffered : Inv first S hi n (c.offered a)) (hactive : c.state.Active)
    (hsync : TcpState.established.number ≤ c.state.number) (hadmits : c.admits a)
    (hseg : Slice first S hi k a.seg) (hk : k < n + 1073741824) (hn : n < k + 1073741824)
    (hstretch : ¬ StretchStep c (.input a)) :
    ∃ m, Processed first S hi n m (c.offered a) ((c.offered a).tcpProcess a) := by
  have hstate : (c.offered a).state = c.state := tcpProcessRefusedData_state _ _
  refine tcpProcess_processed hoffered (hstate ▸ hsync) fun hsyn =>
    tcpReceive_received hoffered.receives hseg hoffered.queue hk hn fun hs => ?_
  refine hstretch ⟨hactive, hsyn, hadmits.resolve_right fun hempty => hempty ?_, hs⟩
  have htext := hs.1
  unfold Seg.tcpTcplen at htext
  unfold Arrival.tcplen
  simpa [hsyn] using htext

theorem behind_processed (hoffered : Inv first S hi n (c.offered a))
    (hsync : TcpState.established.number ≤ c.state.number) (hseg : Behind first S k a.seg) :
    ∃ m, Processed first S hi n m (c.offered a) ((c.offered a).tcpProcess a) := by
  have hstate : (c.offered a).state = c.state := tcpProcessRefusedData_state _ _
  exact tcpProcess_processed hoffered (hstate ▸ hsync) fun _ =>
    ⟨n, tcpReceive_empty hoffered.receives hoffered.queue fun h => hseg.tcplen h.1⟩

theorem tcpInput_inv (hc : Inv first S hi n c) (hactive : c.state.Active)
    (hprocessed : c.admits a →
      ∃ m, Processed first S hi n m (c.offered a) ((c.offered a).tcpProcess a))
    (hseg : FromPeer first S k a.seg) : ∃ m, Inv first S hi m (c.tcpInput a) := by
  obtain ⟨hoffered, hstate⟩ := offered_inv hc hactive a
  rcases tcpInput_eq c a with ⟨-, heq⟩ | ⟨hadmits, heq⟩
  · exact ⟨n, heq ▸ hoffered⟩
  · obtain ⟨m, hm⟩ := hprocessed hadmits
    rw [heq]
    exact ⟨m, events_inv hoffered (hstate ▸ hactive) hm (hadmits.imp_right (tcpProcess_empty hseg))⟩

theorem act_inv {act : Action} (hc : Inv first S hi n c) (hactive : c.state.Active)
    (hact : ∀ a, act ≠ .input a) : Inv first S hi n (c.act act) := by
  cases act with
  | input a => exact absurd rfl (hact a)
  | recved len output => exact (tcpRecved_quiet c len output).inv hc
  | fasttmr takes output =>
    have hquiet : Quiet (if c.pcb.ackDelay then c.sendDelayedAck output else c) c := by
      split
      · exact sendDelayedAck_quiet c output
      · exact .refl c
    exact tcpProcessRefusedData_inv (hquiet.inv hc) (hquiet.state ▸ hactive) takes
  | output output => exact (Quiet.tcpOutput c output).inv hc
  | probe => exact (Quiet.announce c).inv hc
  | shutdown output =>
    have htext := hc.text hactive
    change Inv first S hi n (c.tcpCloseShutdown output)
    unfold Conn.tcpCloseShutdown
    split
    next hs =>
      have hn := hc.ended (by rw [hs]; decide) hactive.2
      exact (Quiet.tcpOutput _ output).inv
        { hc with ended := fun _ _ => hn, text := fun _ => htext }
    next hs =>
      have hlast : ¬ TcpState.lastAck.number < TcpState.closeWait.number := by decide
      exact (Quiet.tcpOutput _ output).inv
        { hc with ended := fun hlt => absurd hlt hlast, text := fun _ => htext }
    next => exact hc
  | dropOoseq => exact { hc with queue := trivial }

theorem step_inv {act : Action} (hc : ∃ n, Inv first S (S.length + 1) n c)
    (h : step c act = some t) (hgenuine : Genuine first S c act) (hstretch : ¬ StretchStep c act) :
    ∃ n, Inv first S (S.length + 1) n t := by
  obtain ⟨n, hc⟩ := hc
  rcases step_cases h with ⟨a, -, rfl, rfl⟩ | ⟨hactive, hsync, rfl⟩
  · exact ⟨n, (tcpTimewaitInput_quiet c a).inv hc⟩
  · cases act with
    | input a =>
      obtain ⟨k, hpeer, hk, hn⟩ := hgenuine
      have htaken := hc.taken hactive
      have hoffered := (offered_inv hc hactive a).1
      refine tcpInput_inv hc hactive (fun hadmits => ?_) hpeer
      rcases hpeer with hseg | hbehind
      · exact admitted_processed hoffered hactive hsync hadmits hseg.slice (by omega) (by omega)
          hstretch
      · exact behind_processed hoffered hsync hbehind
    | _ => exact ⟨n, act_inv hc hactive (by simp)⟩

/-- In whatever order the segments of a peer come, how often, and whatever is lost: what the
application is handed is the front of the peer's stream, and it is told of the end only
after all of it. While the connection is active, all text in front of `rcv_nxt` was handed
over or is kept, and nothing else was ever acknowledged. -/
theorem received_front (first : BitVec 32) (mss : BitVec 16) (S : List Octet)
    (actions : List Action) (t : Conn) (hrun : run step (Conn.start first mss) actions = some t)
    (hgenuine : EveryStep step (fun c act _ => Genuine first S c act) (Conn.start first mss)
      actions)
    (hstretch : EveryStep step (fun c act _ => ¬ StretchStep c act) (Conn.start first mss)
      actions) :
    t.received <+: S ∧ (t.eof = true → t.received = S) ∧
      ∃ n ≤ S.length + 1, t.pcb.rcvNxt = number first n ∧
        (t.state.Active → t.received ++ t.refusedText = S.take n) ∧
        ∀ ack ∈ t.sent, ∃ i ≤ n, ack.ackno = number first i := by
  obtain ⟨n, hn⟩ : ∃ n, Inv first S (S.length + 1) n t :=
    run_invariant_under (I := fun c => ∃ n, Inv first S (S.length + 1) n c)
      (P := fun c act _ => Genuine first S c act ∧ ¬ StretchStep c act)
      (fun c act u hc h hP => step_inv hc h hP.1 hP.2) ⟨0, Inv.start first S (S.length + 1) mss⟩
      (everyStep_and.mpr ⟨hgenuine, hstretch⟩) hrun
  exact ⟨(List.prefix_append _ _).trans hn.safe, hn.eof, n, hn.le_end, hn.nxt, hn.text, hn.acks⟩

/-- The segment of the stream from `k` on. -/
def cutSegment (first : BitVec 32) (S : List Octet) (k len : Nat) (fin : Bool) : Seg where
  seqno := number first k
  len := BitVec.ofNat 16 len
  fin := fin
  p := (S.drop k).take len

def arrive (seg : Seg) : Action :=
  .input {
    seg := seg
    syn := false
    acksAll := false
    mem := { ackAllocated := true, segCopied := true }
    takesRefused := true
    takes := true
    output := .ack true }

/-- Four segments of ten octets, the last of them first, and the numbers wrap between them. -/
def reordered : List Action :=
  [arrive (cutSegment 0xfffffffc (List.replicate 10 7) 7 3 true),
    arrive (cutSegment 0xfffffffc (List.replicate 10 7) 3 2 false),
    arrive (cutSegment 0xfffffffc (List.replicate 10 7) 2 6 false),
    arrive (cutSegment 0xfffffffc (List.replicate 10 7) 0 3 false)]

theorem received_front_reordered :
    ∃ t, run step (Conn.start 0xfffffffc 1460) reordered = some t ∧ t.eof = true ∧
      t.received = List.replicate 10 7 := by
  obtain ⟨t, ht⟩ : ∃ t, t = (run step (Conn.start 0xfffffffc 1460) reordered).get
      (by decide +kernel) := ⟨_, rfl⟩
  have hrun : run step (Conn.start 0xfffffffc 1460) reordered = some t := by
    rw [ht, Option.some_get]
  have heof : t.eof = true := by
    rw [ht]
    decide +kernel
  exact ⟨t, hrun, heof, (received_front 0xfffffffc 1460 (List.replicate 10 7) reordered t hrun
    (by decide +kernel) (by decide +kernel)).2.1 heof⟩

/-! ## The stretched segment -/

/-- The queue has nothing but slices of the stream. -/
def QueueRight (first : BitVec 32) (S : List Octet) (c : Conn) : Prop :=
  ∀ seg ∈ c.pcb.ooseq, ∃ k, Piece first S k seg

theorem queued_right {lo : Nat} {q : List Seg} (h : Queued first S hi n lo q) :
    ∀ seg ∈ q, ∃ k, Piece first S k seg := by
  induction q generalizing lo with
  | nil => simp
  | cons seg rest ih =>
    obtain ⟨k, -, -, hseg, -, hrest⟩ := h
    exact List.forall_mem_cons.mpr ⟨⟨k, hseg.toPiece⟩, ih hrest⟩

theorem afterReceive_open {state : TcpState} {b : Bool}
    (hopen : state.number < TcpState.closeWait.number) (hfin : r.gotFin = false) :
    (Conn.afterReceive state b r).pcb = r.pcb := by
  unfold Conn.afterReceive
  cases b <;> cases state <;> simp_all [TcpState.number]

theorem stretchStep_queue (hc : Inv first S (S.length + 1) n c)
    (hgenuine : Genuine first S c (.input a))
    (hstretch : StretchStep c (.input a)) : ¬ QueueRight first S (c.tcpInput a) := by
  obtain ⟨hactive, hsyn, hnone, hs⟩ := hstretch
  obtain ⟨k, hpeer, hk, hn⟩ := hgenuine
  have hseg : Piece first S k a.seg := hpeer.resolve_right fun hbehind => hbehind.tcplen hs.1
  have htaken := hc.taken hactive
  have hoffered := (offered_inv hc hactive a).1
  obtain ⟨hnk, hkn, hdata, hfin, pcb, hroom, hooseq⟩ :=
    tcpReceive_stretched hoffered.receives hseg.slice (by omega) (by omega) hs
  have hpcb : ((c.offered a).tcpProcess a).pcb = ((c.offered a).tcpReceive a).pcb := by
    rw [Conn.tcpProcess, hsyn, if_neg (by decide)]
    exact afterReceive_open hs.2.1 hfin
  have hsettled := afterReceive_settled (c.offered a).state a.acksAll ((c.offered a).tcpReceive a)
  have hempty : ((c.offered a).tcpProcess a).recvData = [] := by
    rw [Conn.tcpProcess, hsyn, if_neg (by decide), hsettled.recvData]
    exact hdata
  have hnofin : ((c.offered a).tcpProcess a).gotFin = false := by
    rw [Conn.tcpProcess, hsyn, if_neg (by decide), hsettled.gotFin]
    exact hfin
  have hqueue : (c.tcpInput a).pcb.ooseq = pcb.queueSegment a.seg (c.offered a).pcb.ooseq := by
    have hkept : ¬ (c.offered a).pcb.refusedData.isSome := by
      simp [hnone]
    have hinput : c.tcpInput a = (c.offered a).events ((c.offered a).tcpProcess a) a :=
      if_neg fun h => hkept h.1
    rw [hinput, Conn.events]
    dsimp only
    split
    · exact (congrArg Rcv.ooseq hpcb).trans hooseq
    · rw [(Quiet.tcpOutput _ _).ooseq, hnofin, if_neg (by decide), hempty, Conn.receiveEvent,
        if_pos rfl]
      exact (congrArg Rcv.ooseq hpcb).trans hooseq
  intro hright
  obtain ⟨i, hi⟩ := hright (pcb.lastSegment a.seg) <| by
    rw [hqueue]
    exact lastSegment_mem hseg.slice hoffered.queue hnk.le hkn hs.2.2.2.2.2.1
  exact lastSegment_not_piece hseg hroom hi

theorem queueRight_step {act : Action} (hc : Inv first S (S.length + 1) n c)
    (h : step c act = some t)
    (hgenuine : Genuine first S c act) : QueueRight first S t ↔ ¬ StretchStep c act := by
  constructor
  · intro hright hstretch
    rcases step_cases h with ⟨a, hwait, rfl, rfl⟩ | ⟨-, -, rfl⟩
    · exact hstretch.1.1 hwait
    · cases act with
      | input a => exact stretchStep_queue hc hgenuine hstretch hright
      | _ => exact hstretch
  · intro hstretch
    obtain ⟨m, hm⟩ := step_inv ⟨n, hc⟩ h hgenuine hstretch
    exact queued_right hm.queue

/-- The queue has only slices of the peer's stream, as long as no segment is put at its end
for which `tcplen + seqno` is above the right edge of the window as a number, although the
window has room for more than the segment. -/
theorem queueRight_iff (first : BitVec 32) (mss : BitVec 16) (S : List Octet)
    (actions : List Action)
    (hgenuine : EveryStep step (fun c act _ => Genuine first S c act) (Conn.start first mss)
      actions) :
    EveryStep step (fun _ _ t => QueueRight first S t) (Conn.start first mss) actions ↔
      EveryStep step (fun c act _ => ¬ StretchStep c act) (Conn.start first mss) actions := by
  have hcongr : EveryStep step (fun c act t => Genuine first S c act ∧ QueueRight first S t)
      (Conn.start first mss) actions ↔
      EveryStep step (fun c act _ => Genuine first S c act ∧ ¬ StretchStep c act)
        (Conn.start first mss) actions := by
    refine everyStep_congr (I := fun c => ∃ n, Inv first S (S.length + 1) n c) ?_ ?_ actions
      ⟨0, Inv.start first S (S.length + 1) mss⟩
    · rintro c act t ⟨n, hc⟩ h
      exact and_congr_right fun hg => queueRight_step hc h hg
    · rintro c act t ⟨n, hc⟩ h hP
      exact step_inv ⟨n, hc⟩ h hP.1 ((queueRight_step hc h hP.1).mp hP.2)
  rw [everyStep_and, everyStep_and] at hcongr
  exact ⟨fun h => (hcongr.mp ⟨hgenuine, h⟩).2, fun h => (hcongr.mpr ⟨hgenuine, h⟩).2⟩

/-- Five segments of a stream whose numbers wrap inside the window, with a hole at first. -/
def holeAtWrap : List Action :=
  [arrive (cutSegment 0xffffff00 (List.replicate 40 7) 10 5 false),
    arrive (cutSegment 0xffffff00 (List.replicate 40 7) 20 5 false),
    arrive (cutSegment 0xffffff00 (List.replicate 40 7) 0 10 false),
    arrive (cutSegment 0xffffff00 (List.replicate 40 7) 15 5 false),
    arrive (cutSegment 0xffffff00 (List.replicate 40 7) 25 15 false)]

theorem queueRight_iff_holeAtWrap :
    ¬ EveryStep step (fun _ _ t => QueueRight 0xffffff00 (List.replicate 40 7) t)
      (Conn.start 0xffffff00 1460) (holeAtWrap.take 2) := by
  have hiff := queueRight_iff 0xffffff00 1460 (List.replicate 40 7) (holeAtWrap.take 2)
    (by decide +kernel)
  rw [hiff]
  decide +kernel

/-- The whole window is acknowledged, and the last fifteen octets are never taken. -/
example : (run step (Conn.start 0xffffff00 1460) holeAtWrap).map
    (fun t => (t.received.length, t.pcb.rcvNxt - 0xffffff00)) = some (25, 8192) := by
  decide +kernel

end FreeLwip.Tcp
