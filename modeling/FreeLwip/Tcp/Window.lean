import FreeLwip.Tcp.ReceiveRun

/-!
# The receive window over runs

The application says by `tcp_recved` how much it has read. What the window lost to text that
came is given back then, and no header that was sent takes back what an earlier one announced.
-/

namespace FreeLwip.Tcp

open Serial Run

/-- A connection with the octets that its application has read. -/
structure Reader where
  conn : Conn
  read : Nat
  deriving DecidableEq, Repr

def Action.reads : Action → Nat
  | .recved len _ => len.toNat
  | _ => 0

def readerStep (x : Reader) (act : Action) : Option Reader :=
  (step x.conn act).map fun c => ⟨c, x.read + act.reads⟩

/-- What the window and the text in it come to: the FIN counts until the application is told
of it. -/
def Conn.total (c : Conn) (read : Nat) : Nat := tcpWnd.toNat + read + if c.eof then 1 else 0

/-- The segment ends in the window, and at most one octet behind what was announced of it, as
a window probe does. -/
def InWindow (c : Conn) (a : Arrival) : Prop :=
  (c.offered a).pcb.rcvWnd = 0 ∨
    Le (a.seg.seqno + a.seg.tcpTcplen.setWidth 32) ((c.offered a).pcb.rcvAnnRightEdge + 1#32) ∧
      Le (a.seg.seqno + a.seg.tcpTcplen.setWidth 32)
        ((c.offered a).pcb.rcvNxt + (c.offered a).pcb.rcvWnd.setWidth 32)

instance (c : Conn) (a : Arrival) : Decidable (InWindow c a) :=
  inferInstanceAs (Decidable (_ ∨ _))

/-- The peer keeps to the window, and the application reads what it was handed. -/
def Keeps (x : Reader) : Action → Prop
  | .input a => InWindow x.conn a
  | .recved len _ => x.read + len.toNat ≤ x.conn.received.length
  | _ => True

instance (x : Reader) (act : Action) : Decidable (Keeps x act) :=
  match act with
  | .input a => inferInstanceAs (Decidable (InWindow x.conn a))
  | .recved _ _ => inferInstanceAs (Decidable (_ ≤ _))
  | .fasttmr _ _ | .output _ | .probe | .shutdown _ | .dropOoseq => .isTrue trivial

variable {first : BitVec 32} {S : List Octet} {hi n m k e e' total read : Nat} {c c' : Conn}
  {x t : Reader} {r : Receiving} {a : Arrival}

theorem Inv.raise {hi' : Nat} (hc : Inv first S hi n c) (hle : hi ≤ hi') : Inv first S hi' n c :=
  { hc with queue := hc.queue.raise hle }

/-- The window is accounted for, and the headers announced it up to `e`. -/
structure Accounted (first : BitVec 32) (S : List Octet) (read n e : Nat) (c : Conn) : Prop where
  inv : Inv first S (min (e + 1) (c.total read)) n c
  window : Windowed first (c.total read) n e c.pcb
  sent : Announces first 0 c.sent e
  read_le : c.state.Active → read ≤ c.received.length
  ended : c.eof = true → c.pcb.refusedData = none ∧ n = S.length + 1

theorem Accounted.start (first : BitVec 32) (S : List Octet) (mss : BitVec 16) :
    Accounted first S 0 0 0 (Conn.start first mss) where
  inv := Inv.start first S _ mss
  window := ⟨by simp [Conn.start, number], rfl, by simp [Conn.start, number], by omega, by omega,
    le_rfl⟩
  sent := rfl
  read_le := fun _ => Nat.zero_le _
  ended := by simp [Conn.start]

/-! ## Steps that only send -/

/-- What is sent announces the window on. -/
def Sends (first : BitVec 32) (n : Nat) (c c' : Conn) : Prop :=
  ∀ total e, Windowed first total n e c.pcb →
    ∃ acks e', c'.sent = c.sent ++ acks ∧ Announces first e acks e' ∧
      Windowed first total n e' c'.pcb

namespace Sends

theorem of_same (hsent : c'.sent = c.sent) (hpcb : c'.pcb.SameWindow c.pcb) : Sends first n c c' :=
  fun _ e hw => ⟨[], e, by rw [hsent, List.append_nil], rfl, hpcb.windowed hw⟩

theorem trans {c'' : Conn} (h : Sends first n c c') (h' : Sends first n c' c'') :
    Sends first n c c'' := by
  intro total e hw
  obtain ⟨acks, e₁, hsent, hedges, hw₁⟩ := h total e hw
  obtain ⟨acks', e₂, hsent', hedges', hw₂⟩ := h' total e₁ hw₁
  exact ⟨acks ++ acks', e₂, by rw [hsent', hsent, List.append_assoc], hedges.append hedges', hw₂⟩

theorem announce (c : Conn) :
    Sends first n c { c with pcb := c.pcb.announce.1, sent := c.sent ++ [c.pcb.announce.2] } := by
  intro total e hw
  obtain ⟨hw', hedges⟩ := hw.announce
  exact ⟨_, _, rfl, hedges, hw'⟩

theorem tcpOutput (c : Conn) (output : Output) : Sends first n c (c.tcpOutput output) := by
  cases output with
  | data => exact (announce c).trans (of_same rfl ⟨rfl, rfl, rfl, rfl⟩)
  | ack allocated =>
    intro total e hw
    unfold Conn.tcpOutput
    dsimp only
    split
    · obtain ⟨e', hedges, hw'⟩ := hw.tcpSendEmptyAck allocated
      exact ⟨_, e', rfl, hedges, hw'⟩
    · exact ⟨[], e, (List.append_nil _).symm, rfl, hw⟩

theorem tcpOutput_of (c' : Conn) (output : Output) (hsent : c'.sent = c.sent)
    (hpcb : c'.pcb.SameWindow c.pcb) : Sends first n c (c'.tcpOutput output) :=
  (of_same hsent hpcb).trans (tcpOutput c' output)

theorem ackNow (c : Conn) (output : Output) :
    Sends first n c ({ c with pcb := c.pcb.tcpAckNow }.tcpOutput output) :=
  tcpOutput_of _ output rfl ⟨rfl, rfl, rfl, rfl⟩

theorem sendDelayedAck (c : Conn) (output : Output) : Sends first n c (c.sendDelayedAck output) :=
  (ackNow c output).trans (of_same rfl ⟨rfl, rfl, rfl, rfl⟩)

theorem tcpTimewaitInput (c : Conn) (a : Arrival) : Sends first n c (c.tcpTimewaitInput a) := by
  have hrefl : Sends first n c c := of_same rfl ⟨rfl, rfl, rfl, rfl⟩
  unfold Conn.tcpTimewaitInput
  split_ifs
  · exact hrefl
  · exact ackNow _ _
  · exact hrefl

theorem tcpCloseShutdown (c : Conn) (output : Output) :
    Sends first n c (c.tcpCloseShutdown output) := by
  unfold Conn.tcpCloseShutdown
  split
  · exact tcpOutput_of _ output rfl ⟨rfl, rfl, rfl, rfl⟩
  · exact tcpOutput_of _ output rfl ⟨rfl, rfl, rfl, rfl⟩
  · exact of_same rfl ⟨rfl, rfl, rfl, rfl⟩

end Sends

namespace Accounted

theorem of_sends (h : Accounted first S read n e c) (hs : Sends first n c c')
    (hinv : ∀ hi, Inv first S hi n c → Inv first S hi n c')
    (hactive : c'.state.Active → c.state.Active) (hreceived : c'.received = c.received)
    (heof : c'.eof = c.eof) (hrefused : c'.pcb.refusedData = c.pcb.refusedData) :
    ∃ e', Accounted first S read n e' c' := by
  have htotal : c'.total read = c.total read := by
    rw [Conn.total, heof, Conn.total]
  obtain ⟨acks, e', hsent, hedges, hw⟩ := hs _ e h.window
  have hle : e ≤ e' := hedges.le
  refine ⟨e', ?_, ?_, ?_, fun hact => ?_, ?_⟩
  · rw [htotal]
    exact (hinv _ h.inv).raise (by omega)
  · rw [htotal]
    exact hw
  · rw [hsent]
    exact h.sent.append hedges
  · rw [hreceived]
    exact h.read_le (hactive hact)
  · rw [heof, hrefused]
    exact h.ended

theorem of_quiet (h : Accounted first S read n e c) (hs : Sends first n c c')
    (hq : Quiet c' c) : ∃ e', Accounted first S read n e' c' :=
  h.of_sends hs (fun _ hc => hq.inv hc) (fun hact => hq.state ▸ hact) hq.received hq.eof
    hq.refusedData

/-! ## Reading, and the end of the text -/

theorem received_le (h : Accounted first S read n e c) (hactive : c.state.Active) :
    read ≤ c.received.length ∧ c.received.length ≤ n := by
  have htaken := (h.inv.taken hactive).1
  unfold Conn.taken at htaken
  exact ⟨h.read_le hactive, by omega⟩

theorem closedEvent (h : Accounted first S read n e c) (hreceived : c.received = S)
    (hn : n = S.length + 1) (hnone : c.pcb.refusedData = none) (heof : c.eof = false)
    (hread : read ≤ S.length) : Accounted first S read n e c.closedEvent := by
  have hwnd := h.window.wnd
  have htotal : c.closedEvent.total read = c.total read + 1 := by
    simp [Conn.total, Conn.closedEvent, heof]
  have hsmall : c.pcb.rcvWnd.toNat < 8192 := by
    simp [Conn.total, heof, tcpWnd] at hwnd
    omega
  have hne : c.pcb.rcvWnd ≠ tcpWnd := by
    rintro heq
    rw [heq] at hsmall
    exact absurd hsmall (by decide)
  have hmore : c.closedEvent.pcb.rcvWnd.toNat = c.pcb.rcvWnd.toNat + 1 := by
    simp [Conn.closedEvent, if_pos hne, BitVec.toNat_add]
    omega
  have hann := h.window.ann_le
  refine ⟨(closedEvent_inv h.inv hreceived).raise (by omega), ?_, h.sent, h.read_le,
    fun _ => ⟨hnone, hn⟩⟩
  rw [htotal]
  exact ⟨h.window.nxt, by omega, h.window.edge, h.window.le_edge, h.window.edge_le,
    hann.trans (by omega)⟩

theorem tcpProcessRefusedData (h : Accounted first S read n e c)
    (hactive : c.state.Active) (takes : Bool) :
    Accounted first S read n e (c.tcpProcessRefusedData takes) := by
  have hread := (h.received_le hactive).1
  unfold Conn.tcpProcessRefusedData
  cases hrefused : c.pcb.refusedData with
  | none => exact h
  | some refused =>
    obtain ⟨data, fin⟩ := refused
    obtain ⟨hinv, htext⟩ := takeRefused_inv h.inv hactive hrefused
    have heof : c.eof = false := by
      by_contra hne
      have hnone := (h.ended (by simpa using hne)).1
      rw [hnone] at hrefused
      cases hrefused
    have htaken : Accounted first S read n e { c with
        pcb := { c.pcb with refusedData := none }
        received := c.received ++ data } := by
      refine ⟨hinv, h.window.of_eq rfl rfl rfl rfl, h.sent, fun _ => ?_, fun hb => ?_⟩
      · rw [List.length_append]
        omega
      · rw [heof] at hb
        cases hb
    cases takes with
    | false => exact h
    | true =>
      cases fin with
      | false => exact htaken
      | true =>
        have hn := h.inv.marked data hrefused
        have hlen := h.inv.safe.length_le
        rw [List.length_append] at hlen
        refine htaken.closedEvent ?_ hn rfl heof (by omega)
        rw [htext, hn, List.take_of_length_le (by omega)]

theorem openWnd (h : Accounted first S read n e c) (hactive : c.state.Active)
    {len : BitVec 16} (hlen : read + len.toNat ≤ c.received.length) :
    Accounted first S (read + len.toNat) n e
      { c with pcb := (c.pcb.openWnd len).tcpUpdateRcvAnnWnd.1 } := by
  have hle := (h.received_le hactive).2
  have hwnd := h.window.wnd
  have hann := h.window.ann_le
  have hedge := h.window.edge_le
  have heof : c.eof = true → n = S.length + 1 ∧ c.received.length ≤ S.length := fun heof =>
    ⟨(h.ended heof).2, (congrArg List.length (h.inv.eof heof)).le⟩
  have htotal : Conn.total { c with pcb := (c.pcb.openWnd len).tcpUpdateRcvAnnWnd.1 }
      (read + len.toNat) = c.total read + len.toNat := by
    unfold Conn.total
    dsimp only
    omega
  have hroom : c.pcb.rcvWnd.toNat + len.toNat ≤ 8192 := by
    unfold Conn.total at hwnd
    cases hb : c.eof <;> simp [hb, tcpWnd] at hwnd heof <;> omega
  have hopened : (c.pcb.openWnd len).rcvWnd.toNat = c.pcb.rcvWnd.toNat + len.toNat := by
    have hsum : (c.pcb.rcvWnd + len).toNat = c.pcb.rcvWnd.toNat + len.toNat := by
      rw [BitVec.toNat_add, Nat.mod_eq_of_lt (by omega)]
    have hnot : ¬ tcpWnd < c.pcb.rcvWnd + len := by
      rw [BitVec.lt_def, hsum]
      exact hroom.not_gt
    rw [Rcv.openWnd, if_neg hnot, hsum]
  have hsame := Rcv.tcpUpdateRcvAnnWnd_same (c.pcb.openWnd len)
  have hquiet : Quiet { c with pcb := (c.pcb.openWnd len).tcpUpdateRcvAnnWnd.1 } c :=
    ⟨rfl, hsame.rcvNxt, hsame.ooseq, hsame.refusedData, rfl, rfl, fun _ hack => .inl hack⟩
  refine ⟨(hquiet.inv h.inv).raise (by omega), ?_, h.sent, fun _ => hlen, fun hb => ?_⟩
  · rw [htotal]
    exact Windowed.update h.window.nxt (by omega) h.window.edge h.window.le_edge (by omega)
  · exact ⟨hsame.refusedData.trans (h.ended hb).1, (h.ended hb).2⟩

theorem tcpRecved (h : Accounted first S read n e c) (hactive : c.state.Active)
    {len : BitVec 16} (hlen : read + len.toNat ≤ c.received.length) (output : Output) :
    ∃ e', Accounted first S (read + len.toNat) n e' (c.tcpRecved len output) := by
  have hopened := h.openWnd hactive hlen
  unfold Conn.tcpRecved
  dsimp only
  split
  · exact hopened.of_quiet (Sends.ackNow _ output)
      (Quiet.ackNow { c with pcb := (c.pcb.openWnd len).tcpUpdateRcvAnnWnd.1 } output)
  · exact ⟨e, hopened⟩

/-! ## An arriving segment -/

section Processed

variable (h : Accounted first S read n e c) (hactive : c.state.Active)
  (hp : Processed first S (min (e + 1) (c.total read)) n m c r)

include h hp in
theorem ended_processed (heof : c.eof = true) : m = S.length + 1 ∧ r.recvData = [] := by
  have hn := (h.ended heof).2
  have hle := hp.le
  have hend := hp.le_end
  have htext := congrArg List.length hp.text
  rw [List.length_append, List.length_take, List.length_take] at htext
  exact ⟨by omega, List.eq_nil_of_length_eq_zero (by omega)⟩

include h hactive hp in
theorem processed (hempty : r.state.Active → r.recvData = []) :
    ∃ e', Accounted first S read m e' (c.processed r) := by
  obtain ⟨e', hedges, hw⟩ := hp.windowed _ e (Nat.min_le_left _ _) (Nat.min_le_right _ _) h.window
  have hle := hedges.le
  refine ⟨e', (processed_inv h.inv hactive hp hempty).raise ?_, hw, h.sent.append hedges,
    fun _ => h.read_le hactive, fun heof => ⟨?_, (h.ended_processed hp heof).1⟩⟩
  · change min (e + 1) (c.total read) ≤ min (e' + 1) (c.total read)
    omega
  · rcases hp.refused with heq | ⟨hnone, -⟩
    · exact heq.trans (h.ended heof).1
    · exact hnone

include h hactive hp in
theorem receiveEvent (hnone : c.pcb.refusedData = none) (takes : Bool) :
    ∃ e', Accounted first S read m e' ((c.processed r).receiveEvent r.recvData takes) := by
  have hinv := (receiveEvent_inv h.inv hactive hnone hp takes).1
  obtain ⟨e', hedges, hw⟩ := hp.windowed _ e (Nat.min_le_left _ _) (Nat.min_le_right _ _) h.window
  have hle := hedges.le
  have hread := h.read_le hactive
  have hmin : min (e + 1) (c.total read) ≤ min (e' + 1) (c.total read) := by omega
  have hopen : r.recvData ≠ [] → ¬ c.eof = true := fun hne heof =>
    hne (h.ended_processed hp heof).2
  unfold Conn.receiveEvent at hinv ⊢
  split_ifs at hinv ⊢ with hnil htakes
  · exact h.processed hactive hp fun _ => hnil
  · refine ⟨e', hinv.raise hmin, hw.of_eq rfl rfl rfl rfl, h.sent.append hedges, fun _ => ?_,
      fun heof => absurd heof (hopen hnil)⟩
    dsimp only [Conn.processed]
    rw [List.length_append]
    omega
  · exact ⟨e', hinv.raise hmin, hw.of_eq rfl rfl rfl rfl, h.sent.append hedges, fun _ => hread,
      fun heof => absurd heof (hopen hnil)⟩

end Processed

theorem finEvent (h : Accounted first S read n e c) (htext : c.received ++ c.refusedText = S.take n)
    (hn : n = S.length + 1) (heof : c.eof = false) (hread : read ≤ c.received.length) :
    Accounted first S read n e c.finEvent := by
  have hinv := finEvent_inv h.inv htext hn
  have hlen := h.inv.safe.length_le
  rw [List.length_append] at hlen
  unfold Conn.finEvent at hinv ⊢
  cases hrefused : c.pcb.refusedData with
  | none =>
    have hdata : c.refusedText = [] := by
      simp [Conn.refusedText, hrefused]
    rw [hdata, List.append_nil, List.take_of_length_le (by omega)] at htext
    exact h.closedEvent htext hn hrefused heof (by omega)
  | some refused =>
    rw [hrefused] at hinv
    exact ⟨hinv, h.window.of_eq rfl rfl rfl rfl, h.sent, fun _ => hread, fun hb =>
      absurd hb (by simp [heof])⟩

theorem events (h : Accounted first S read n e c) (hactive : c.state.Active)
    (hp : Processed first S (min (e + 1) (c.total read)) n m c r)
    (htext : c.pcb.refusedData = none ∨ r.recvData = [] ∧ r.gotFin = false) :
    ∃ e', Accounted first S read m e' (c.events r a) := by
  unfold Conn.events
  dsimp only
  split
  next hclosed => exact h.processed hactive hp fun hact => absurd hclosed hact.2
  next hopen =>
    have hreceived : ∃ e', Accounted first S read m e'
        (if r.gotFin then ((c.processed r).receiveEvent r.recvData a.takes).finEvent
          else (c.processed r).receiveEvent r.recvData a.takes) := by
      rcases htext with hnone | ⟨hnil, hfin⟩
      · obtain ⟨e', h'⟩ := h.receiveEvent hactive hp hnone a.takes
        have hall := (receiveEvent_inv h.inv hactive hnone hp a.takes).2
        split
        next hfin =>
          obtain ⟨hn, hm⟩ := hp.fin.mp hfin
          have heof : c.eof = false := by
            by_contra hne
            have := (h.ended (by simpa using hne)).2
            omega
          refine ⟨e', h'.finEvent hall hm ?_ ?_⟩
          · unfold Conn.receiveEvent
            split_ifs <;> exact heof
          · have hread := h.read_le hactive
            unfold Conn.receiveEvent
            split_ifs
            · exact hread
            · dsimp only [Conn.processed]
              rw [List.length_append]
              omega
            · exact hread
        next => exact ⟨e', h'⟩
      · rw [if_neg (by simp [hfin]), Conn.receiveEvent, if_pos hnil]
        exact h.processed hactive hp fun _ => hnil
    obtain ⟨e', h'⟩ := hreceived
    exact h'.of_quiet (Sends.tcpOutput _ _) (Quiet.tcpOutput _ _)

/-! ## Steps -/

theorem offered (h : Accounted first S read n e c) (hactive : c.state.Active) (a : Arrival) :
    Accounted first S read n e (c.offered a) := h.tcpProcessRefusedData hactive _

theorem admitted (h : Accounted first S read n e c) (hactive : c.state.Active)
    (hsync : TcpState.established.number ≤ c.state.number) (hadmits : c.admits a)
    (hgenuine : Genuine first S c (.input a)) (hstretch : ¬ StretchStep c (.input a))
    (hwindow : InWindow c a) :
    ∃ m, Processed first S (min (e + 1) ((c.offered a).total read)) n m (c.offered a)
      ((c.offered a).tcpProcess a) := by
  obtain ⟨k, hpeer, hk, hn⟩ := hgenuine
  have htaken := h.inv.taken hactive
  have hoffered := h.offered hactive a
  have hstate : (c.offered a).state = c.state := tcpProcessRefusedData_state _ _
  rcases hpeer with hseg | hbehind
  case inr => exact behind_processed hoffered.inv hsync hbehind
  rcases hwindow with hclosed | ⟨hann, hwnd⟩
  · exact tcpProcess_processed hoffered.inv (hstate ▸ hsync) fun _ =>
      ⟨n, tcpReceive_closed hoffered.inv.receives hseg hoffered.inv.queue (by omega) (by omega)
        hclosed⟩
  · have hw := hoffered.window
    have hedge := hw.edge_le
    have hle := hw.le_edge
    have htotal := hw.wnd
    have hann_le := hw.ann_le
    have hlt := (c.offered a).pcb.rcvWnd.isLt
    have htcplen := a.seg.tcpTcplen.isLt
    rw [hseg.seqno, num_add, hw.edge, number_succ, le_num (by omega) (by omega)] at hann
    rw [hseg.seqno, num_add, hw.nxt, num_add, le_num (by omega) (by omega)] at hwnd
    exact admitted_processed hoffered.inv hactive hsync hadmits ⟨hseg, by omega⟩ (by omega)
      (by omega) hstretch

theorem tcpInput (h : Accounted first S read n e c) (hactive : c.state.Active)
    (hsync : TcpState.established.number ≤ c.state.number)
    (hgenuine : Genuine first S c (.input a)) (hstretch : ¬ StretchStep c (.input a))
    (hwindow : InWindow c a) : ∃ m e', Accounted first S read m e' (c.tcpInput a) := by
  have hoffered := h.offered hactive a
  have hstate : (c.offered a).state = c.state := tcpProcessRefusedData_state _ _
  rcases tcpInput_eq c a with ⟨-, heq⟩ | ⟨hadmits, heq⟩
  · rw [heq]
    exact ⟨n, e, hoffered⟩
  · obtain ⟨m, hm⟩ := h.admitted hactive hsync hadmits hgenuine hstretch hwindow
    obtain ⟨k, hpeer, -⟩ := hgenuine
    rw [heq]
    exact ⟨m, hoffered.events (hstate ▸ hactive) hm (hadmits.imp_right (tcpProcess_empty hpeer))⟩

theorem act {act : Action} (h : Accounted first S read n e c) (hactive : c.state.Active)
    (hinput : ∀ a, act ≠ .input a) (hkeeps : Keeps ⟨c, read⟩ act) :
    ∃ e', Accounted first S (read + act.reads) n e' (c.act act) := by
  cases act with
  | input a => exact absurd rfl (hinput a)
  | recved len output => exact h.tcpRecved hactive hkeeps output
  | fasttmr takes output =>
    change ∃ e', Accounted first S read n e' (c.tcpFasttmr takes output)
    unfold Conn.tcpFasttmr
    split
    · have hquiet := sendDelayedAck_quiet c output
      obtain ⟨e', h'⟩ := h.of_quiet (Sends.sendDelayedAck c output) hquiet
      exact ⟨e', h'.tcpProcessRefusedData (hquiet.state ▸ hactive) takes⟩
    · exact ⟨e, h.tcpProcessRefusedData hactive takes⟩
  | output output => exact h.of_quiet (Sends.tcpOutput c output) (Quiet.tcpOutput c output)
  | probe => exact h.of_quiet (Sends.announce c) (Quiet.announce c)
  | shutdown output =>
    have hsame : (c.tcpCloseShutdown output).received = c.received ∧
        (c.tcpCloseShutdown output).eof = c.eof ∧
        (c.tcpCloseShutdown output).pcb.refusedData = c.pcb.refusedData := by
      unfold Conn.tcpCloseShutdown
      split
      · have hq := Quiet.tcpOutput { c with state := .finWait1 } output
        exact ⟨hq.received, hq.eof, hq.refusedData⟩
      · have hq := Quiet.tcpOutput { c with state := .lastAck } output
        exact ⟨hq.received, hq.eof, hq.refusedData⟩
      · exact ⟨rfl, rfl, rfl⟩
    exact h.of_sends (Sends.tcpCloseShutdown c output) (fun _ hc => act_inv hc hactive hinput)
      (fun _ => hactive) hsame.1 hsame.2.1 hsame.2.2
  | dropOoseq =>
    exact ⟨e, { h.inv with queue := trivial }, h.window.of_eq rfl rfl rfl rfl, h.sent, h.read_le,
      h.ended⟩

theorem step {act : Action} {c' : Conn} (h : Accounted first S read n e c)
    (hstep : Tcp.step c act = some c') (hgenuine : Genuine first S c act)
    (hstretch : ¬ StretchStep c act) (hkeeps : Keeps ⟨c, read⟩ act) :
    ∃ m e', Accounted first S (read + act.reads) m e' c' := by
  rcases step_cases hstep with ⟨a, -, rfl, rfl⟩ | ⟨hactive, hsync, rfl⟩
  · exact ⟨n, h.of_quiet (Sends.tcpTimewaitInput c a) (tcpTimewaitInput_quiet c a)⟩
  · cases act with
    | input a => exact h.tcpInput hactive hsync hgenuine hstretch hkeeps
    | _ => exact ⟨n, h.act hactive (by simp) hkeeps⟩

end Accounted

theorem Announces.edges {acks : List Ack} (h : Announces first e acks e') :
    ∃ edges : List Nat, acks.map (fun ack => ack.ackno + ack.wnd.setWidth 32) =
      edges.map (number first) ∧ edges.Pairwise (· ≤ ·) ∧ ∀ i ∈ edges, e ≤ i ∧ i ≤ e' := by
  induction acks generalizing e with
  | nil => exact ⟨[], rfl, .nil, by simp⟩
  | cons ack rest ih =>
    obtain ⟨e₁, hle, heq, hrest⟩ := h
    obtain ⟨edges, hmap, hsorted, hbounds⟩ := ih hrest
    refine ⟨e₁ :: edges, by rw [List.map_cons, List.map_cons, heq, hmap],
      List.pairwise_cons.mpr ⟨fun i hi => (hbounds i hi).1, hsorted⟩, ?_⟩
    refine List.forall_mem_cons.mpr ⟨⟨hle, hrest.le⟩, fun i hi => ?_⟩
    exact ⟨hle.trans (hbounds i hi).1, (hbounds i hi).2⟩

/-- As long as the peer keeps to the window and the application reads no more than it was
handed, the window is short of `TCP_WND` by exactly what was taken and not read, with the FIN
until the application is told of it. No header takes back what an earlier one announced. -/
theorem window_accounted (first : BitVec 32) (mss : BitVec 16) (S : List Octet)
    (actions : List Action) (t : Reader)
    (hrun : run readerStep ⟨Conn.start first mss, 0⟩ actions = some t)
    (hgenuine : EveryStep readerStep (fun x act _ => Genuine first S x.conn act)
      ⟨Conn.start first mss, 0⟩ actions)
    (hstretch : EveryStep readerStep (fun x act _ => ¬ StretchStep x.conn act)
      ⟨Conn.start first mss, 0⟩ actions)
    (hkeeps : EveryStep readerStep (fun x act _ => Keeps x act)
      ⟨Conn.start first mss, 0⟩ actions) :
    ∃ (n : Nat) (edges : List Nat), t.conn.pcb.rcvNxt = number first n ∧
      (t.conn.state.Active → t.conn.taken ≤ n ∧ n ≤ t.conn.taken + 1) ∧
      t.conn.pcb.rcvWnd.toNat + n = 8192 + t.read + (if t.conn.eof then 1 else 0) ∧
      t.conn.pcb.rcvAnnWnd.toNat ≤ t.conn.pcb.rcvWnd.toNat ∧
      t.conn.sent.map (fun ack => ack.ackno + ack.wnd.setWidth 32) = edges.map (number first) ∧
      edges.Pairwise (· ≤ ·) ∧ ∀ i ∈ edges, i ≤ 8192 + t.read + 1 := by
  obtain ⟨n, e, h⟩ : ∃ n e, Accounted first S t.read n e t.conn := by
    refine run_invariant_under (I := fun x => ∃ n e, Accounted first S x.read n e x.conn)
      (P := fun x act _ => Genuine first S x.conn act ∧ ¬ StretchStep x.conn act ∧ Keeps x act)
      ?_ ⟨0, 0, Accounted.start first S mss⟩
      (everyStep_and.mpr ⟨hgenuine, everyStep_and.mpr ⟨hstretch, hkeeps⟩⟩) hrun
    rintro ⟨c, read⟩ act u ⟨n, e, h⟩ hstep hP
    obtain ⟨c', hc', rfl⟩ := Option.map_eq_some_iff.mp hstep
    exact h.step hc' hP.1 hP.2.1 hP.2.2
  obtain ⟨edges, hmap, hsorted, hbounds⟩ := h.sent.edges
  have hwnd := h.window.wnd
  have hedge := h.window.edge_le
  have hann := h.window.ann_le
  refine ⟨n, edges, h.window.nxt, fun hactive => h.inv.taken hactive, hwnd, hann, hmap, hsorted,
    fun i hi => ?_⟩
  have hle := (hbounds i hi).2
  have htotal : t.conn.total t.read ≤ 8192 + t.read + 1 := by
    unfold Conn.total
    split <;> simp [tcpWnd]
  omega

/-- The four segments out of order, and what the application reads between them. -/
def reordersAndReads : List Action :=
  [.output (.ack true)] ++ reordered ++ [.recved 6 .data, .recved 4 (.ack true)]

theorem window_accounted_reordersAndReads :
    ∃ t n, run readerStep ⟨Conn.start 0xfffffffc 1460, 0⟩ reordersAndReads = some t ∧
      t.conn.pcb.rcvNxt = number 0xfffffffc n ∧
      t.conn.pcb.rcvWnd.toNat + n = 8192 + 10 + 1 := by
  obtain ⟨t, ht⟩ : ∃ t, t = (run readerStep ⟨Conn.start 0xfffffffc 1460, 0⟩ reordersAndReads).get
      (by decide +kernel) := ⟨_, rfl⟩
  have hrun : run readerStep ⟨Conn.start 0xfffffffc 1460, 0⟩ reordersAndReads = some t := by
    rw [ht, Option.some_get]
  have hread : t.read = 10 ∧ t.conn.eof = true := by
    rw [ht]
    decide +kernel
  obtain ⟨n, -, hnxt, -, hwnd, -⟩ := window_accounted 0xfffffffc 1460 (List.replicate 10 7)
    reordersAndReads t hrun (by decide +kernel) (by decide +kernel) (by decide +kernel)
  rw [hread.1, hread.2, if_pos rfl] at hwnd
  exact ⟨t, n, hrun, hnxt, hwnd⟩

end FreeLwip.Tcp
