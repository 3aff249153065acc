import FreeLwip.Tcp.Ooseq

/-!
# What `tcp_receive` takes from the stream

`rcv_nxt` stands for a position of the stream, and the text that is handed on is what lies
between the position before and the one after. A FIN counts as one position behind the text.
-/

namespace FreeLwip.Tcp

open Serial Text

variable {first : BitVec 32} {S : List Octet} {hi n m k : Nat} {seg inseg : Seg} {q : List Seg}
  {pcb : Rcv} {r : Receiving} {mem : Mem}

namespace Rcv

/-- What the functions about acknowledgements leave as it is. -/
structure SameText (pcb' pcb : Rcv) : Prop where
  rcvNxt : pcb'.rcvNxt = pcb.rcvNxt
  rcvWnd : pcb'.rcvWnd = pcb.rcvWnd
  ooseq : pcb'.ooseq = pcb.ooseq
  refusedData : pcb'.refusedData = pcb.refusedData

section Same

variable (pcb : Rcv) (inseg : Seg) (allocated : Bool)

theorem tcpUpdateRcvAnnWnd_same : SameText pcb.tcpUpdateRcvAnnWnd.1 pcb := by
  unfold tcpUpdateRcvAnnWnd
  dsimp only
  split_ifs <;> exact ⟨rfl, rfl, rfl, rfl⟩

theorem tcpAck_same : SameText pcb.tcpAck pcb := by
  unfold tcpAck
  split <;> exact ⟨rfl, rfl, rfl, rfl⟩

theorem noteDuplicate_same : SameText (pcb.noteDuplicate inseg) pcb := by
  unfold noteDuplicate
  split <;> exact ⟨rfl, rfl, rfl, rfl⟩

theorem tcpSendEmptyAck_same : SameText (pcb.tcpSendEmptyAck allocated).1 pcb := by
  unfold tcpSendEmptyAck
  split <;> exact ⟨rfl, rfl, rfl, rfl⟩

end Same

theorem tcpSendEmptyAck_sent {allocated : Bool} {ack : Ack}
    (h : ack ∈ (pcb.tcpSendEmptyAck allocated).2) : ack.ackno = pcb.rcvNxt := by
  unfold tcpSendEmptyAck at h
  split at h
  · rw [List.mem_singleton] at h
    rw [h]
    rfl
  · cases h

theorem SameText.stretches_iff {pcb' : Rcv} (h : SameText pcb' pcb) :
    pcb'.Stretches inseg ↔ pcb.Stretches inseg := by
  unfold Stretches overruns room
  rw [h.rcvNxt, h.rcvWnd]

theorem inWindow_iff (hnxt : pcb.rcvNxt = number first n) (hk : k < n + 1073741824)
    (hn : n < k + 1073741824) :
    pcb.inWindow (number first k) ↔ n ≤ k ∧ k < n + pcb.rcvWnd.toNat := by
  have hwnd := pcb.rcvWnd.isLt
  unfold inWindow
  -- counted from one number earlier, so that the one before the first is a position too
  rw [hnxt, num_add, ← number_pred first k, ← number_pred first n]
  change Between _ _ (number first (n + pcb.rcvWnd.toNat) - 1#32) ↔ _
  rw [← number_pred first (n + _), number_succ_sub,
    between_num (by omega) (by omega) (by omega) (by omega)]
  omega

theorem overlapsFront_iff (hnxt : pcb.rcvNxt = number first n) (hseg : Slice first S hi k inseg)
    (hk : k < n + 1073741824) (hn : n < k + 1073741824) :
    pcb.overlapsFront inseg ↔ k < n ∧ n < k + inseg.tcpTcplen.toNat := by
  have hlen := hseg.tcplen_eq
  have hshort := hseg.short
  have hlt : inseg.tcpTcplen.toNat < 0x8000 := by
    split at hlen <;> omega
  unfold overlapsFront
  rw [hnxt, hseg.seqno, num_add]
  change Between _ (number first k + 1#32) (number first (k + inseg.tcpTcplen.toNat) - 1#32) ↔ _
  rw [number_succ, ← number_pred first n, ← number_pred first (k + 1), ← number_pred first (k + _),
    number_succ_sub, between_num (by omega) (by omega) (by omega) (by omega)]
  omega

theorem insegOf_slice (hnxt : pcb.rcvNxt = number first n) (hseg : Slice first S hi k inseg)
    (hk : k < n + 1073741824) (hn : n < k + 1073741824) :
    (pcb.overlapsFront inseg ∧ Slice first S hi n (pcb.insegOf inseg)) ∨
      (¬ pcb.overlapsFront inseg ∧ pcb.insegOf inseg = inseg) := by
  by_cases hover : pcb.overlapsFront inseg
  · refine .inl ⟨hover, ?_⟩
    obtain ⟨hkn, hlt⟩ := (overlapsFront_iff hnxt hseg hk hn).mp hover
    have hshort := hseg.short
    have hlen := hseg.len
    rw [hseg.tcplen_eq] at hlt
    have hoff : n - k ≤ inseg.p.length := by
      split at hlt <;> omega
    have hoffNat : (pcb.rcvNxt - inseg.seqno).toNat = n - k := by
      rw [hnxt, hseg.seqno]
      exact toNat_number_sub hkn.le (by omega)
    have hoff16 : ((pcb.rcvNxt - inseg.seqno).setWidth 16).toNat = n - k := by
      rw [BitVec.toNat_setWidth, hoffNat, Nat.mod_eq_of_lt (by omega)]
    have hpiece : Piece first S n (pcb.trimFront inseg) := by
      unfold trimFront
      constructor
      · exact hnxt
      · dsimp only
        rw [BitVec.toNat_sub, hoff16, hoffNat, List.length_drop, hlen]
        omega
      · dsimp only
        rw [List.length_drop]
        omega
      · have htext := hseg.text.drop hoff
        rw [← hoffNat, show k + (pcb.rcvNxt - inseg.seqno).toNat = n by omega] at htext
        exact htext
      · intro hfin
        have hend := hseg.fin hfin
        dsimp only
        rw [List.length_drop, hoffNat]
        omega
    have hlen' : (pcb.trimFront inseg).p.length = inseg.p.length - (n - k) := by
      unfold trimFront
      dsimp only
      rw [List.length_drop, hoffNat]
    have hbelow := hseg.below
    rw [hseg.tcplen_eq] at hbelow
    rw [insegOf, if_pos hover]
    refine ⟨hpiece, ?_⟩
    rw [hpiece.tcplen_eq, hlen', show (pcb.trimFront inseg).fin = inseg.fin from rfl]
    omega
  · exact .inr ⟨hover, by rw [insegOf, if_neg hover]⟩

theorem trimToWnd_slice (hseg : Slice first S hi n inseg) :
    Slice first S hi n (pcb.trimToWnd inseg) := by
  unfold trimToWnd
  split
  next hlt =>
    refine hseg.noFin.realloc rfl ?_
    rw [BitVec.lt_def, hseg.tcplen_eq] at hlt
    dsimp only
    split at hlt <;> omega
  next => exact hseg

theorem mergeWithOoseq_slice (hseg : Slice first S hi n inseg)
    (hq : Queued first S hi n (n + 1) pcb.ooseq) :
    Slice first S hi n (pcb.mergeWithOoseq inseg).1 ∧
      Queued first S hi n (n + (pcb.mergeWithOoseq inseg).1.tcpTcplen.toNat)
        (pcb.mergeWithOoseq inseg).2 := by
  have hreach : ∀ seg : Seg, seg.fin = false → seg.tcpTcplen = seg.len := by
    intro seg hfin
    simp [Seg.tcpTcplen, hfin]
  unfold mergeWithOoseq
  cases hfin : inseg.fin with
  | true => exact ⟨hseg, trivial⟩
  | false =>
    obtain ⟨hs, hf, hq'⟩ := dropCovered_queued hreach hseg hfin hq le_rfl (by omega) (by omega)
    obtain ⟨hs', hf', hq''⟩ := trimToNext_queued hreach hs hf hq' le_rfl (by omega) (by omega)
    refine ⟨hs', ?_⟩
    rw [if_neg (by decide)]
    dsimp only
    rw [hs'.tcplen_eq, hf']
    split
    next hfin' =>
      rw [hf hfin']
      trivial
    next => exact hq''

end Rcv

/-! ## The window -/

/-- The headers announce right edges that do not go back, from `e` on to `e'`. -/
def Announces (first : BitVec 32) : Nat → List Ack → Nat → Prop
  | e, [], e' => e' = e
  | e, ack :: rest, e' =>
    ∃ e₁, e ≤ e₁ ∧ ack.ackno + ack.wnd.setWidth 32 = number first e₁ ∧ Announces first e₁ rest e'

theorem Announces.append {e e' e'' : Nat} {acks acks' : List Ack} (h : Announces first e acks e')
    (h' : Announces first e' acks' e'') : Announces first e (acks ++ acks') e'' := by
  induction acks generalizing e with
  | nil => exact h ▸ h'
  | cons ack rest ih =>
    obtain ⟨e₁, hle, heq, hrest⟩ := h
    exact ⟨e₁, hle, heq, ih hrest⟩

theorem Announces.le {e e' : Nat} {acks : List Ack} (h : Announces first e acks e') : e ≤ e' := by
  induction acks generalizing e with
  | nil => exact h.ge
  | cons ack rest ih =>
    obtain ⟨e₁, hle, -, hrest⟩ := h
    exact hle.trans (ih hrest)

/-- The window reaches from `n` to `total`, and what was announced of it to `e`. The next
announcement is not behind that, and not above the window. At most the octet of a window
probe was taken behind what was announced. -/
structure Windowed (first : BitVec 32) (total n e : Nat) (pcb : Rcv) : Prop where
  nxt : pcb.rcvNxt = number first n
  wnd : pcb.rcvWnd.toNat + n = total
  edge : pcb.rcvAnnRightEdge = number first e
  le_edge : n ≤ e + 1
  edge_le : e ≤ n + pcb.rcvAnnWnd.toNat
  ann_le : pcb.rcvAnnWnd.toNat ≤ pcb.rcvWnd.toNat

variable {total e : Nat}

/-- The fields of the window are the same. -/
structure Rcv.SameWindow (pcb' pcb : Rcv) : Prop where
  rcvNxt : pcb'.rcvNxt = pcb.rcvNxt
  rcvWnd : pcb'.rcvWnd = pcb.rcvWnd
  rcvAnnRightEdge : pcb'.rcvAnnRightEdge = pcb.rcvAnnRightEdge
  rcvAnnWnd : pcb'.rcvAnnWnd = pcb.rcvAnnWnd

theorem Rcv.SameWindow.windowed {pcb' : Rcv} (h : pcb'.SameWindow pcb)
    (hw : Windowed first total n e pcb) : Windowed first total n e pcb' where
  nxt := h.rcvNxt.trans hw.nxt
  wnd := h.rcvWnd ▸ hw.wnd
  edge := h.rcvAnnRightEdge.trans hw.edge
  le_edge := hw.le_edge
  edge_le := h.rcvAnnWnd ▸ hw.edge_le
  ann_le := by
    rw [h.rcvAnnWnd, h.rcvWnd]
    exact hw.ann_le

namespace Windowed

theorem of_eq {pcb' : Rcv} (h : Windowed first total n e pcb) (hnxt : pcb'.rcvNxt = pcb.rcvNxt)
    (hwnd : pcb'.rcvWnd = pcb.rcvWnd) (hedge : pcb'.rcvAnnRightEdge = pcb.rcvAnnRightEdge)
    (hann : pcb'.rcvAnnWnd = pcb.rcvAnnWnd) : Windowed first total n e pcb' :=
  Rcv.SameWindow.windowed ⟨hnxt, hwnd, hedge, hann⟩ h

theorem update (hnxt : pcb.rcvNxt = number first n) (hwnd : pcb.rcvWnd.toNat + n = total)
    (hedge : pcb.rcvAnnRightEdge = number first e) (hle : n ≤ e + 1) (htotal : e ≤ total) :
    Windowed first total n e pcb.tcpUpdateRcvAnnWnd.1 := by
  have hlt := pcb.rcvWnd.isLt
  unfold Rcv.tcpUpdateRcvAnnWnd
  dsimp only
  split_ifs with hmore hover
  · exact ⟨hnxt, hwnd, hedge, hle, by dsimp only; omega, le_rfl⟩
  · rw [hnxt, hedge, gt_num (by omega) (by omega)] at hover
    exact ⟨hnxt, hwnd, hedge, hle, by dsimp only; omega, Nat.zero_le _⟩
  · rw [hnxt, hedge, gt_num (by omega) (by omega)] at hover
    have hann : ((pcb.rcvAnnRightEdge - pcb.rcvNxt).setWidth 16).toNat = e - n := by
      rw [hedge, hnxt]
      exact num_sub (by omega) (by omega)
    exact ⟨hnxt, hwnd, hedge, hle, by dsimp only; omega, by dsimp only; omega⟩

theorem announce (h : Windowed first total n e pcb) :
    Windowed first total n (n + pcb.rcvAnnWnd.toNat) pcb.announce.1 ∧
      Announces first e [pcb.announce.2] (n + pcb.rcvAnnWnd.toNat) := by
  have hedge : pcb.rcvNxt + pcb.rcvAnnWnd.setWidth 32 =
      number first (n + pcb.rcvAnnWnd.toNat) := by
    rw [h.nxt, num_add]
  exact ⟨⟨h.nxt, h.wnd, hedge, by omega, le_rfl, h.ann_le⟩, _, h.edge_le, hedge, rfl⟩

theorem tcpSendEmptyAck (h : Windowed first total n e pcb) (allocated : Bool) :
    ∃ e', Announces first e (pcb.tcpSendEmptyAck allocated).2 e' ∧
      Windowed first total n e' (pcb.tcpSendEmptyAck allocated).1 := by
  unfold Rcv.tcpSendEmptyAck
  split
  · obtain ⟨ha, hsent⟩ := h.announce
    exact ⟨_, hsent, ha.of_eq rfl rfl rfl rfl⟩
  · exact ⟨e, rfl, h⟩

theorem tcpAck (h : Windowed first total n e pcb) : Windowed first total n e pcb.tcpAck := by
  unfold Rcv.tcpAck
  split <;> exact h.of_eq rfl rfl rfl rfl

theorem noteDuplicate (h : Windowed first total n e pcb) (inseg : Seg) :
    Windowed first total n e (pcb.noteDuplicate inseg) := by
  unfold Rcv.noteDuplicate
  split
  · exact h.of_eq rfl rfl rfl rfl
  · exact h

theorem take (h : Windowed first total m e r.pcb) (hseg : Slice first S hi m seg)
    (hhi : hi ≤ e + 1) (htotal : hi ≤ total) :
    Windowed first total (m + seg.tcpTcplen.toNat) e (r.take seg).pcb := by
  have hbelow := hseg.below
  have hedge := h.edge_le
  have hann := h.ann_le
  have hwnd := h.wnd
  refine update ?_ ?_ h.edge (by omega) (by omega)
  · rw [hseg.seqno, num_add]
  · have hle : seg.tcpTcplen ≤ r.pcb.rcvWnd := by
      rw [BitVec.le_def]
      omega
    rw [BitVec.toNat_sub_of_le hle]
    omega

end Windowed

/-! ## The text that is taken -/

/-- Between the positions `n` and `m` the text was taken, and the FIN with the last one. -/
structure Receives (first : BitVec 32) (S : List Octet) (n m : Nat) (r : Receiving) : Prop where
  nxt : r.pcb.rcvNxt = number first m
  le : n ≤ m
  le_end : m ≤ S.length + 1
  text : S.take n ++ r.recvData = S.take m
  fin : r.gotFin = true ↔ n ≤ S.length ∧ m = S.length + 1

namespace Receives

theorem take (h : Receives first S n m r) (hseg : Slice first S hi m seg) :
    Receives first S n (m + seg.tcpTcplen.toNat) (r.take seg) := by
  have hle := hseg.text.length_le
  have hlen := hseg.tcplen_eq
  have hfin := hseg.fin
  unfold Receiving.take
  constructor
  · dsimp only
    rw [(Rcv.tcpUpdateRcvAnnWnd_same _).rcvNxt]
    dsimp only
    rw [hseg.seqno, num_add]
  · exact Nat.le_add_right_of_le h.le
  · split at hlen <;> simp_all <;> omega
  · dsimp only
    rw [← List.append_assoc, h.text, hseg.text.take_append]
    split at hlen
    · -- the FIN has no octet
      have hend := hfin ‹_›
      rw [List.take_of_length_le (by omega), List.take_of_length_le (by omega)]
    · rw [hlen, Nat.add_zero]
  · have hold := h.fin
    have hn := h.le
    dsimp only
    rw [Bool.or_eq_true, hold, hlen]
    cases hf : seg.fin with
    | true =>
      have hend := hfin hf
      simp
      omega
    | false =>
      simp
      omega

theorem of_eq {r' : Receiving} (h : Receives first S n m r) (hnxt : r'.pcb.rcvNxt = r.pcb.rcvNxt)
    (hdata : r'.recvData = r.recvData) (hfin : r'.gotFin = r.gotFin) :
    Receives first S n m r' where
  nxt := hnxt.trans h.nxt
  le := h.le
  le_end := h.le_end
  text := by rw [hdata, h.text]
  fin := by rw [hfin, h.fin]

end Receives

/-- The state only changes for a FIN that comes from the queue. -/
def StateKept (S : List Octet) (m : Nat) (before after : TcpState) : Prop :=
  after = before ∨ before = .established ∧ after = .closeWait ∧ m = S.length + 1

theorem dequeue_receives (h : Receives first S n m r) (hseg : Slice first S hi m seg) :
    Receives first S n (m + seg.tcpTcplen.toNat) (r.dequeue seg) ∧
      StateKept S (m + seg.tcpTcplen.toNat) r.state (r.dequeue seg).state := by
  have htaken := h.take hseg
  refine ⟨htaken.of_eq rfl rfl rfl, ?_⟩
  unfold Receiving.dequeue StateKept
  dsimp only
  split
  next hfin =>
    have hend := hseg.fin hfin.1
    rw [hseg.tcplen_eq, if_pos hfin.1]
    exact .inr ⟨hfin.2, rfl, by omega⟩
  next => exact .inl rfl

theorem StateKept.trans {m' : Nat} {s₁ s₂ s₃ : TcpState} (h : StateKept S m s₁ s₂)
    (h' : StateKept S m' s₂ s₃) (hle : m ≤ m') (hend : m' ≤ S.length + 1) :
    StateKept S m' s₁ s₃ := by
  rcases h with rfl | ⟨rfl, rfl, hm⟩
  · exact h'
  · rcases h' with rfl | ⟨hcase, -⟩
    · exact .inr ⟨rfl, rfl, by omega⟩
    · cases hcase

theorem drain_receives (h : Receives first S n m r) (hq : Queued first S hi m m q) :
    ∃ m', m ≤ m' ∧ Receives first S n m' (r.drain q) ∧
      Queued first S hi m' (m' + 1) (r.drain q).pcb.ooseq ∧
      StateKept S m' r.state (r.drain q).state ∧
      (r.drain q).pcb.refusedData = r.pcb.refusedData ∧ (r.drain q).sent = r.sent ∧
      ∀ total e, hi ≤ e + 1 → hi ≤ total → Windowed first total m e r.pcb →
        Windowed first total m' e (r.drain q).pcb := by
  induction q generalizing r m with
  | nil =>
    exact ⟨m, le_rfl, h.of_eq rfl rfl rfl, trivial, .inl rfl, rfl, rfl,
      fun _ _ _ _ hw => hw.of_eq rfl rfl rfl rfl⟩
  | cons cseg rest ih =>
    obtain ⟨k, hk, hlt, hseg, hfin, hrest⟩ := id hq
    have hnext : cseg.seqno = r.pcb.rcvNxt ↔ k = m := by
      rw [hseg.seqno, h.nxt]
      exact num_inj (by omega) (by omega)
    simp only [Receiving.drain, hnext]
    split
    next heq =>
      subst heq
      obtain ⟨htaken, hstate⟩ := dequeue_receives h hseg
      have hlen := hseg.tcplen_eq
      have hq' : Queued first S hi (k + cseg.tcpTcplen.toNat) (k + cseg.tcpTcplen.toNat) rest := by
        split at hlen
        next hf =>
          rw [hfin hf]
          trivial
        next => exact hrest.weaken (by omega) (by omega)
      obtain ⟨m', hle, hm', hqueue, hkept, hrefused, hsent, hwindow⟩ := ih htaken hq'
      refine ⟨m', by omega, hm', hqueue, hstate.trans hkept hle hm'.le_end, ?_, hsent,
        fun total e hhi htotal hw => hwindow total e hhi htotal (hw.take hseg hhi htotal)⟩
      rw [hrefused]
      exact (Rcv.tcpUpdateRcvAnnWnd_same _).refusedData
    next hne =>
      exact ⟨m, le_rfl, h.of_eq rfl rfl rfl, ⟨k, by omega, hlt, hseg, hfin, hrest⟩, .inl rfl, rfl,
        rfl, fun _ _ _ _ hw => hw.of_eq rfl rfl rfl rfl⟩

/-! ## A whole segment -/

/-- What `tcp_receive` leaves, from the position `n` before it to the one after it. -/
structure Received (first : BitVec 32) (S : List Octet) (hi n m : Nat) (r r' : Receiving) : Prop
    extends Receives first S n m r' where
  queue : Queued first S hi m (m + 1) r'.pcb.ooseq
  state : StateKept S m r.state r'.state
  refused : r'.pcb.refusedData = r.pcb.refusedData
  sent : ∀ ack ∈ r'.sent, ack ∈ r.sent ∨ ack.ackno = number first n
  windowed : ∀ total e, hi ≤ e + 1 → hi ≤ total → Windowed first total n e r.pcb →
    ∃ acks e', r'.sent = r.sent ++ acks ∧ Announces first e acks e' ∧
      Windowed first total m e' r'.pcb

theorem inSequence_received (h : Receives first S n n r) (hseg : Slice first S hi n inseg)
    (hq : Queued first S hi n (n + 1) r.pcb.ooseq) :
    ∃ m, Received first S hi n m r (r.inSequence inseg) := by
  obtain ⟨hs, hq'⟩ := Rcv.mergeWithOoseq_slice (Rcv.trimToWnd_slice hseg) hq
  obtain ⟨m, hle, hm, hqueue, hstate, hrefused, hsent, hwindow⟩ :=
    drain_receives (h.take hs) (hq'.weaken le_rfl (by omega))
  have hack := Rcv.tcpAck_same
    ((r.take (r.pcb.mergeWithOoseq (r.pcb.trimToWnd inseg)).1).drain
      (r.pcb.mergeWithOoseq (r.pcb.trimToWnd inseg)).2).pcb
  refine ⟨m, hm.of_eq hack.rcvNxt rfl rfl, ?_, hstate, ?_, fun ack hmem => .inl (hsent ▸ hmem),
    fun total e hhi htotal hw => ⟨[], e, ?_, rfl,
      (hwindow total e hhi htotal (hw.take hs hhi htotal)).tcpAck⟩⟩
  · rw [← hack.ooseq] at hqueue
    exact hqueue
  · exact hack.refusedData.trans
      (hrefused.trans (Rcv.tcpUpdateRcvAnnWnd_same _).refusedData)
  · rw [List.append_nil]
    exact hsent

theorem sendEmptyAck_received (allocated : Bool) (h : Receives first S n n r)
    (hq : Queued first S hi n (n + 1) r.pcb.ooseq) :
    Received first S hi n n r (r.sendEmptyAck allocated) := by
  have hsame := Rcv.tcpSendEmptyAck_same r.pcb allocated
  refine ⟨h.of_eq hsame.rcvNxt rfl rfl, ?_, .inl rfl, hsame.refusedData, fun ack hmem => ?_,
    fun total e _ _ hw => ?_⟩
  · rw [← hsame.ooseq] at hq
    exact hq
  · unfold Receiving.sendEmptyAck at hmem
    rcases List.mem_append.mp hmem with hold | hnew
    · exact .inl hold
    · exact .inr ((Rcv.tcpSendEmptyAck_sent hnew).trans h.nxt)
  · obtain ⟨e', hsent, hw'⟩ := hw.tcpSendEmptyAck allocated
    exact ⟨_, e', rfl, hsent, hw'⟩

theorem outOfSequence_received (h : Receives first S n n r) (hseg : Slice first S hi k inseg)
    (hq : Queued first S hi n (n + 1) r.pcb.ooseq) (hn : n < k) (hk : k < n + 0x10000)
    (hstretch : mem.segCopied → AppendsTo inseg r.pcb.ooseq → ¬ r.pcb.Stretches inseg) :
    Received first S hi n n r (r.outOfSequence inseg mem) := by
  have hacked := sendEmptyAck_received mem.ackAllocated h hq
  have hsame := Rcv.tcpSendEmptyAck_same r.pcb mem.ackAllocated
  unfold Receiving.outOfSequence
  dsimp only
  split
  next hcopied =>
    refine ⟨hacked.toReceives.of_eq rfl rfl rfl, ?_, hacked.state, hacked.refused, hacked.sent,
      fun total e hhi htotal hw => ?_⟩
    · refine queueSegment_queued hseg hacked.queue hn hk fun happends => ?_
      rw [show (r.sendEmptyAck mem.ackAllocated).pcb.ooseq = r.pcb.ooseq from hsame.ooseq]
        at happends
      exact fun hs => hstretch hcopied happends (hsame.stretches_iff.mp hs)
    · obtain ⟨acks, e', hsent, hedges, hw'⟩ := hacked.windowed total e hhi htotal hw
      exact ⟨acks, e', hsent, hedges, hw'.of_eq rfl rfl rfl rfl⟩
  next => exact hacked

/-- The copy of the segment at the end of the queue gets a length that its text does not have. -/
def Receiving.Stretches (r : Receiving) (inseg : Seg) (mem : Mem) : Prop :=
  0 < inseg.tcpTcplen ∧ r.state.number < TcpState.closeWait.number ∧
    r.pcb.inWindow inseg.seqno ∧ r.pcb.rcvNxt ≠ inseg.seqno ∧ mem.segCopied ∧
    AppendsTo inseg r.pcb.ooseq ∧ r.pcb.Stretches inseg

instance (r : Receiving) (inseg : Seg) (mem : Mem) : Decidable (r.Stretches inseg mem) :=
  inferInstanceAs (Decidable (_ ∧ _))

theorem Received.of_noted {r' : Receiving}
    (h : Received first S hi n m { r with pcb := r.pcb.noteDuplicate inseg } r') :
    Received first S hi n m r r' where
  toReceives := h.toReceives
  queue := h.queue
  state := h.state
  refused := h.refused.trans (Rcv.noteDuplicate_same r.pcb inseg).refusedData
  sent := h.sent
  windowed := fun total e hhi htotal hw =>
    h.windowed total e hhi htotal (hw.noteDuplicate inseg)

theorem tcpReceive_empty (h : Receives first S n n r)
    (hq : Queued first S hi n (n + 1) r.pcb.ooseq)
    (hempty : ¬ (0 < inseg.tcpTcplen ∧ r.state.number < TcpState.closeWait.number)) :
    Received first S hi n n r (r.tcpReceive inseg mem) := by
  simp only [Receiving.tcpReceive, if_neg hempty]
  split
  · exact ⟨h.of_eq rfl rfl rfl, hq, .inl rfl, rfl, fun _ hack => .inl hack,
      fun _ e _ _ hw => ⟨[], e, (List.append_nil _).symm, rfl, hw.of_eq rfl rfl rfl rfl⟩⟩
  · exact ⟨h, hq, .inl rfl, rfl, fun _ hack => .inl hack,
      fun _ e _ _ hw => ⟨[], e, (List.append_nil _).symm, rfl, hw⟩⟩

theorem tcpReceive_received (h : Receives first S n n r) (hseg : Slice first S hi k inseg)
    (hq : Queued first S hi n (n + 1) r.pcb.ooseq)
    (hk : k < n + 1073741824) (hn : n < k + 1073741824)
    (hstretch : ¬ r.Stretches inseg mem) :
    ∃ m, Received first S hi n m r (r.tcpReceive inseg mem) := by
  by_cases htext : 0 < inseg.tcpTcplen ∧ r.state.number < TcpState.closeWait.number
  · simp only [Receiving.tcpReceive, if_pos htext]
    have hsame := Rcv.noteDuplicate_same r.pcb inseg
    have hnoted : Receives first S n n { r with pcb := r.pcb.noteDuplicate inseg } :=
      h.of_eq hsame.rcvNxt rfl rfl
    have hqueue : Queued first S hi n (n + 1) (r.pcb.noteDuplicate inseg).ooseq := by
      rwa [hsame.ooseq]
    have hempty : ∃ m, Received first S hi n m r
        (Receiving.sendEmptyAck { r with pcb := r.pcb.noteDuplicate inseg } mem.ackAllocated) :=
      ⟨n, (sendEmptyAck_received _ hnoted hqueue).of_noted⟩
    have hsequence {seg : Seg} (hs : Slice first S hi n seg) : ∃ m, Received first S hi n m r
        (Receiving.inSequence { r with pcb := r.pcb.noteDuplicate inseg } seg) := by
      obtain ⟨m, hm⟩ := inSequence_received hnoted hs hqueue
      exact ⟨m, hm.of_noted⟩
    rcases Rcv.insegOf_slice h.nxt hseg hk hn with ⟨-, hs⟩ | ⟨-, heq⟩
    · rw [if_pos (h.nxt.trans hs.seqno.symm)]
      split
      · exact hsequence hs
      · exact hempty
    · rw [heq]
      split
      next hwindow =>
        have hwnd := r.pcb.rcvWnd.isLt
        have hpos := hwindow
        rw [hseg.seqno, Rcv.inWindow_iff h.nxt hk hn] at hpos
        split
        next hsq =>
          rw [h.nxt, hseg.seqno, num_inj (by omega) (by omega)] at hsq
          subst hsq
          exact hsequence hseg
        next hne =>
          have hnk : n ≠ k := fun hnk => hne (by rw [h.nxt, hseg.seqno, hnk])
          refine ⟨n, (outOfSequence_received hnoted hseg hqueue (by omega) (by omega)
            fun hcopied happends hs => ?_).of_noted⟩
          exact hstretch ⟨htext.1, htext.2, hwindow, hne, hcopied, hsame.ooseq ▸ happends,
            hsame.stretches_iff.mp hs⟩
      next => exact hempty
  · exact ⟨n, tcpReceive_empty h hq htext⟩

theorem tcpReceive_closed (h : Receives first S n n r) (hseg : Piece first S k inseg)
    (hq : Queued first S hi n (n + 1) r.pcb.ooseq)
    (hk : k < n + 1073741824) (hn : n < k + 1073741824) (hclosed : r.pcb.rcvWnd = 0) :
    Received first S hi n n r (r.tcpReceive inseg mem) := by
  have hsame := Rcv.noteDuplicate_same r.pcb inseg
  have hnoted : Receives first S n n { r with pcb := r.pcb.noteDuplicate inseg } :=
    h.of_eq hsame.rcvNxt rfl rfl
  have hqueue : Queued first S hi n (n + 1) (r.pcb.noteDuplicate inseg).ooseq := by
    rwa [hsame.ooseq]
  have houtside : ∀ j, j < n + 1073741824 → n < j + 1073741824 →
      ¬ r.pcb.inWindow (number first j) := by
    intro j hj hj' hin
    rw [Rcv.inWindow_iff h.nxt hj hj', hclosed] at hin
    simp at hin
    omega
  have htrimmed : ¬ r.pcb.inWindow (r.pcb.insegOf inseg).seqno := by
    unfold Rcv.insegOf
    split
    · rw [show (r.pcb.trimFront inseg).seqno = number first n from h.nxt]
      exact houtside n (by omega) (by omega)
    · rw [hseg.seqno]
      exact houtside k hk hn
  by_cases htext : 0 < inseg.tcpTcplen ∧ r.state.number < TcpState.closeWait.number
  · simp only [Receiving.tcpReceive, if_pos htext, if_neg htrimmed]
    exact (sendEmptyAck_received _ hnoted hqueue).of_noted
  · exact tcpReceive_empty h hq htext

/-- A segment whose copy is stretched is only queued. -/
theorem tcpReceive_stretched (h : Receives first S n n r) (hseg : Slice first S hi k inseg)
    (hk : k < n + 1073741824) (hn : n < k + 1073741824) (hstretch : r.Stretches inseg mem) :
    n < k ∧ k < n + 0x10000 ∧ (r.tcpReceive inseg mem).recvData = r.recvData ∧
      (r.tcpReceive inseg mem).gotFin = r.gotFin ∧
      ∃ pcb : Rcv, pcb.Stretches inseg ∧
        (r.tcpReceive inseg mem).pcb.ooseq = pcb.queueSegment inseg r.pcb.ooseq := by
  obtain ⟨htext, hopen, hwindow, hne, hcopied, -, hroom⟩ := hstretch
  have hwnd := r.pcb.rcvWnd.isLt
  have hpos := hwindow
  rw [hseg.seqno, Rcv.inWindow_iff h.nxt hk hn] at hpos
  have hnk : n ≠ k := fun hnk => hne (by rw [h.nxt, hseg.seqno, hnk])
  have hfront : ¬ r.pcb.overlapsFront inseg := by
    rw [Rcv.overlapsFront_iff h.nxt hseg hk hn]
    omega
  have hinseg : r.pcb.insegOf inseg = inseg := if_neg hfront
  have hnoted := Rcv.noteDuplicate_same r.pcb inseg
  have hacked := Rcv.tcpSendEmptyAck_same (r.pcb.noteDuplicate inseg) mem.ackAllocated
  simp only [Receiving.tcpReceive, if_pos (And.intro htext hopen), hinseg, if_pos hwindow,
    if_neg hne, Receiving.outOfSequence, if_pos hcopied]
  refine ⟨by omega, by omega, rfl, rfl, _,
    hacked.stretches_iff.mpr (hnoted.stretches_iff.mpr hroom), ?_⟩
  exact congrArg (Rcv.queueSegment _ inseg) (hacked.ooseq.trans hnoted.ooseq)

end FreeLwip.Tcp
