import FreeLwip.Lib.Text
import FreeLwip.Tcp.Receive

/-!
# The queue of segments out of order

The peer's text is a stream `S`, and `first` is the sequence number of its first octet. The
queue has slices of it, in order and apart, and the code keeps it so in every case but one.
-/

namespace FreeLwip.Tcp

open Serial Text

section Order

variable {first : BitVec 32} {i j k : Nat}

theorem lt_num (h : j < k + 2147483648) (h' : k < j + 2147483648) :
    Lt (number first j) (number first k) ↔ j < k :=
  lt_number (by decide) ⟨h, h'⟩

theorem le_num (h : j < k + 2147483648) (h' : k < j + 2147483648) :
    Le (number first j) (number first k) ↔ j ≤ k :=
  le_number (by decide) ⟨h, h'⟩

theorem gt_num (h : j < k + 2147483648) (h' : k < j + 2147483648) :
    Gt (number first j) (number first k) ↔ k < j :=
  gt_number (by decide) ⟨h, h'⟩

theorem ge_num (h : j < k + 2147483648) (h' : k < j + 2147483648) :
    Ge (number first j) (number first k) ↔ k ≤ j :=
  ge_number (by decide) ⟨h, h'⟩

theorem num_inj (h : j < k + 2147483648) (h' : k < j + 2147483648) :
    number first j = number first k ↔ j = k :=
  number_inj (by decide) ⟨h, h'⟩

theorem between_num (h : i < j + 2147483648) (h' : j < i + 2147483648)
    (hk : i < k + 2147483648) (hk' : k < i + 2147483648) :
    Between (number first i) (number first j) (number first k) ↔ j ≤ i ∧ i ≤ k :=
  between_number (by decide) ⟨h, h'⟩ ⟨hk, hk'⟩

theorem num_sub (h : j ≤ k) (hlt : k < j + 0x10000) :
    ((number first k - number first j).setWidth 16).toNat = k - j := by
  rw [BitVec.toNat_setWidth, toNat_number_sub h (by omega), Nat.mod_eq_of_lt (by omega)]

theorem num_add (k : Nat) (m : BitVec 16) :
    number first k + m.setWidth 32 = number first (k + m.toNat) := by
  rw [← BitVec.ofNat_toNat, number_add]

end Order

/-- The segment has the text of the stream at position `k`, and a FIN only at its end. -/
structure Piece (first : BitVec 32) (S : List Octet) (k : Nat) (seg : Seg) : Prop where
  seqno : seg.seqno = number first k
  len : seg.len.toNat = seg.p.length
  short : seg.p.length < 0x7fff
  text : At S k seg.p
  fin : seg.fin → k + seg.p.length = S.length

instance (first : BitVec 32) (S : List Octet) (k : Nat) (seg : Seg) :
    Decidable (Piece first S k seg) :=
  decidable_of_iff (seg.seqno = number first k ∧ seg.len.toNat = seg.p.length ∧
      seg.p.length < 0x7fff ∧ (k ≤ S.length ∧ seg.p <+: S.drop k) ∧
      (seg.fin → k + seg.p.length = S.length))
    ⟨fun h => ⟨h.1, h.2.1, h.2.2.1, h.2.2.2.1, h.2.2.2.2⟩,
      fun h => ⟨h.seqno, h.len, h.short, h.text, h.fin⟩⟩

theorem Piece.tcplen_eq {first : BitVec 32} {S : List Octet} {k : Nat} {seg : Seg}
    (h : Piece first S k seg) :
    seg.tcpTcplen.toNat = seg.p.length + if seg.fin then 1 else 0 := by
  have hlen := h.len
  have hshort := h.short
  unfold Seg.tcpTcplen
  cases seg.fin <;> simp [BitVec.toNat_add] <;> omega

/-- A piece that does not reach above the position `hi`. -/
structure Slice (first : BitVec 32) (S : List Octet) (hi k : Nat) (seg : Seg) : Prop
    extends Piece first S k seg where
  below : k + seg.tcpTcplen.toNat ≤ hi

theorem Piece.slice {first : BitVec 32} {S : List Octet} {k : Nat} {seg : Seg}
    (h : Piece first S k seg) : Slice first S (S.length + 1) k seg where
  toPiece := h
  below := by
    have hle := h.text.length_le
    rw [h.tcplen_eq]
    split <;> omega

/-- The segments are slices one behind the other, from `lo` on. They start less than the
largest window behind `n`. -/
def Queued (first : BitVec 32) (S : List Octet) (hi n : Nat) : Nat → List Seg → Prop
  | _, [] => True
  | lo, seg :: rest =>
    ∃ k, lo ≤ k ∧ k < n + 0x10000 ∧ Slice first S hi k seg ∧ (seg.fin → rest = []) ∧
      Queued first S hi n (k + seg.p.length) rest

variable {first : BitVec 32} {S : List Octet} {hi n lo j k : Nat} {seg inseg cseg prev next : Seg}
  {q rest : List Seg} {pcb : Rcv}

@[simp] theorem realloc_length (seg : Seg) (len : BitVec 16) :
    (seg.realloc len).p.length = min len.toNat seg.p.length := List.length_take

@[simp] theorem realloc_fin (seg : Seg) (len : BitVec 16) : (seg.realloc len).fin = seg.fin := rfl

theorem Piece.edge_eq (h : Piece first S k seg) : seg.edge = number first (k + seg.p.length) := by
  rw [Seg.edge, h.seqno, num_add, h.len]

namespace Slice

theorem weaken {hi' : Nat} (h : Slice first S hi k seg) (hle : hi ≤ hi') :
    Slice first S hi' k seg := ⟨h.toPiece, h.below.trans hle⟩

theorem realloc (h : Slice first S hi k seg) (hfin : seg.fin = false) {len : BitVec 16}
    (hlen : len.toNat ≤ seg.p.length) : Slice first S hi k (seg.realloc len) := by
  have hpiece : Piece first S k (seg.realloc len) := by
    refine ⟨h.seqno, ?_, ?_, h.text.take _, fun hf => ?_⟩
    · rw [realloc_length]
      dsimp only [Seg.realloc]
      omega
    · have := h.short
      rw [realloc_length]
      omega
    · rw [realloc_fin, hfin] at hf
      cases hf
  refine ⟨hpiece, ?_⟩
  have hbelow := h.below
  rw [h.tcplen_eq, hfin] at hbelow
  rw [hpiece.tcplen_eq, realloc_fin, hfin, realloc_length]
  omega

theorem noFin (h : Slice first S hi k seg) : Slice first S hi k { seg with fin := false } := by
  have hpiece : Piece first S k { seg with fin := false } :=
    ⟨h.seqno, h.len, h.short, h.text, by simp⟩
  refine ⟨hpiece, ?_⟩
  have hbelow := h.below
  rw [h.tcplen_eq] at hbelow
  rw [hpiece.tcplen_eq]
  dsimp only
  rw [if_neg (by decide)]
  omega

theorem setFin (h : Slice first S hi k seg) (hend : k + seg.p.length = S.length)
    (hhi : S.length + 1 ≤ hi) : Slice first S hi k { seg with fin := true } := by
  have hpiece : Piece first S k { seg with fin := true } :=
    ⟨h.seqno, h.len, h.short, h.text, fun _ => hend⟩
  refine ⟨hpiece, ?_⟩
  rw [hpiece.tcplen_eq]
  dsimp only
  rw [if_pos rfl]
  omega

end Slice

theorem Queued.weaken {lo' n' : Nat} (h : Queued first S hi n lo q) (hlo : lo' ≤ lo)
    (hn : n ≤ n') : Queued first S hi n' lo' q := by
  induction q generalizing lo lo' with
  | nil => trivial
  | cons seg rest ih =>
    obtain ⟨k, hk, hlt, hslice, hfin, hrest⟩ := h
    exact ⟨k, by omega, by omega, hslice, hfin, ih hrest le_rfl⟩

theorem Queued.raise {hi' : Nat} (h : Queued first S hi n lo q) (hle : hi ≤ hi') :
    Queued first S hi' n lo q := by
  induction q generalizing lo with
  | nil => trivial
  | cons seg rest ih =>
    obtain ⟨k, hk, hlt, hslice, hfin, hrest⟩ := h
    exact ⟨k, hk, hlt, hslice.weaken hle, hfin, ih hrest⟩

theorem dropCovered_queued {reach : Seg → BitVec 16}
    (hreach : ∀ seg, seg.fin = false → reach seg = seg.len)
    (hseg : Slice first S hi j seg) (hfin : seg.fin = false) (hq : Queued first S hi n lo q)
    (hn : n ≤ j) (hj : j < n + 0x10000) (hlo : n ≤ lo) :
    Slice first S hi j (dropCovered reach seg q).1 ∧
      ((dropCovered reach seg q).1.fin → (dropCovered reach seg q).2 = []) ∧
      Queued first S hi n lo (dropCovered reach seg q).2 := by
  induction q generalizing lo with
  | nil => exact ⟨hseg, by simp [dropCovered], trivial⟩
  | cons next rest ih =>
    obtain ⟨k, hk, hlt, hnext, hlast, hrest⟩ := hq
    have hshort := hnext.short
    have hshort' := hseg.short
    have hcovers : Ge (seg.seqno + (reach seg).setWidth 32) next.edge ↔
        k + next.p.length ≤ j + seg.p.length := by
      rw [hreach seg hfin, hnext.edge_eq, hseg.seqno, num_add, hseg.len]
      exact ge_num (by omega) (by omega)
    simp only [dropCovered, hcovers]
    split
    · cases hnf : next.fin with
      | false =>
        obtain ⟨hs, hf, hq⟩ := ih hrest (by omega)
        exact ⟨hs, hf, hq.weaken (by omega) le_rfl⟩
      | true =>
        -- the FIN is at the end of the stream, so the segment ends there too
        have hend := hnext.fin hnf
        rw [hlast hnf]
        have hbelow := hnext.below
        have hle := hseg.text.length_le
        rw [hnext.tcplen_eq, hnf, if_pos rfl] at hbelow
        exact ⟨hseg.setFin (by omega) (by omega), fun _ => rfl, trivial⟩
    · exact ⟨hseg, by simp [hfin], k, hk, hlt, hnext, hlast, hrest⟩

theorem trimToNext_queued {reach : Seg → BitVec 16}
    (hreach : ∀ seg, seg.fin = false → reach seg = seg.len)
    (hseg : Slice first S hi j seg) (hfin : seg.fin → q = []) (hq : Queued first S hi n lo q)
    (hn : n ≤ j) (hj : j < n + 0x10000) (hlo : j ≤ lo) :
    Slice first S hi j (trimToNext reach seg q) ∧ (trimToNext reach seg q).fin = seg.fin ∧
      Queued first S hi n (j + (trimToNext reach seg q).p.length) q := by
  cases q with
  | nil => exact ⟨hseg, rfl, trivial⟩
  | cons next rest =>
    have hnf : seg.fin = false := by
      cases hf : seg.fin with
      | false => rfl
      | true => cases hfin hf
    obtain ⟨k, hk, hlt, hnext, hlast, hrest⟩ := hq
    have hshort := hseg.short
    have htrims : Gt (seg.seqno + (reach seg).setWidth 32) next.seqno ↔ k < j + seg.p.length := by
      rw [hreach seg hnf, hnext.seqno, hseg.seqno, num_add, hseg.len]
      exact gt_num (by omega) (by omega)
    simp only [trimToNext, htrims]
    split
    · have hlen : ((next.seqno - seg.seqno).setWidth 16).toNat = k - j := by
        rw [hnext.seqno, hseg.seqno, num_sub (by omega) (by omega)]
      refine ⟨hseg.realloc hnf (by omega), rfl, k, ?_, hlt, hnext, hlast, hrest⟩
      rw [realloc_length, hlen]
      omega
    · exact ⟨hseg, rfl, k, by omega, hlt, hnext, hlast, hrest⟩

theorem tcpOosInsertSegment_queued (hseg : Slice first S hi j cseg) (hq : Queued first S hi n lo q)
    (hn : n ≤ j) (hj : j < n + 0x10000) (hlo : j ≤ lo) :
    Queued first S hi n j (tcpOosInsertSegment cseg q) := by
  unfold tcpOosInsertSegment
  cases hfin : cseg.fin with
  | true => exact ⟨j, le_rfl, hj, hseg, by simp, trivial⟩
  | false =>
    obtain ⟨hs, hf, hq'⟩ :=
      dropCovered_queued (fun _ _ => rfl) hseg hfin hq hn hj (hn.trans hlo)
    obtain ⟨hs', hf', hq''⟩ := trimToNext_queued (fun _ _ => rfl) hs hf hq' hn hj hlo
    exact ⟨j, le_rfl, hj, hs', fun h => hf (by rwa [hf'] at h), hq''⟩

theorem trimRight_slice (hprev : Slice first S hi k prev) (hfin : prev.fin = false) (hkj : k ≤ j)
    (hj : j < k + 0x10000) :
    Slice first S hi k (prev.trimRight (number first j)) ∧
      (prev.trimRight (number first j)).fin = false ∧
      k + (prev.trimRight (number first j)).p.length ≤ j := by
  have hshort := hprev.short
  have htrims : Gt prev.edge (number first j) ↔ j < k + prev.p.length := by
    rw [hprev.edge_eq]
    exact gt_num (by omega) (by omega)
  simp only [Seg.trimRight, htrims]
  split
  · have hlen : ((number first j - prev.seqno).setWidth 16).toNat = j - k := by
      rw [hprev.seqno, num_sub hkj hj]
    refine ⟨hprev.realloc hfin (by omega), hfin, ?_⟩
    rw [realloc_length, hlen]
    omega
  · exact ⟨hprev, hfin, by omega⟩

/-! ## A segment put into the queue -/

/-- The copy at the end of the queue gets a length that its text does not have. -/
def Rcv.Stretches (pcb : Rcv) (inseg : Seg) : Prop :=
  pcb.overruns inseg ∧ inseg.len < pcb.room inseg

instance (pcb : Rcv) (inseg : Seg) : Decidable (pcb.Stretches inseg) :=
  inferInstanceAs (Decidable (_ ∧ _))

/-- The loop comes to the end of the queue, and puts the segment behind the last one. -/
def AppendsTo (inseg : Seg) (q : List Seg) : Prop :=
  ∃ last ∈ q.getLast?, last.fin = false ∧ Gt inseg.seqno last.seqno

instance (inseg : Seg) (q : List Seg) : Decidable (AppendsTo inseg q) :=
  inferInstanceAs (Decidable (∃ last ∈ q.getLast?, _))

theorem lastSegment_slice (hseg : Slice first S hi j inseg) (hstretch : ¬ pcb.Stretches inseg) :
    Slice first S hi j (pcb.lastSegment inseg) := by
  unfold Rcv.lastSegment
  split
  next hover =>
    refine hseg.noFin.realloc rfl ?_
    have hroom : ¬ inseg.len < pcb.room inseg := fun h => hstretch ⟨hover, h⟩
    have := hseg.len
    rw [BitVec.lt_def] at hroom
    dsimp only
    omega
  next => exact hseg

theorem appendSegment_queued (hseg : Slice first S hi j inseg) (hnext : Slice first S hi k next)
    (hlo : lo ≤ k) (hk : n ≤ k) (hkj : k < j) (hj : j < n + 0x10000)
    (hstretch : next.fin = false → ¬ pcb.Stretches inseg) :
    Queued first S hi n lo (pcb.appendSegment inseg next) := by
  unfold Rcv.appendSegment
  cases hfin : next.fin with
  | true => exact ⟨k, hlo, by omega, hnext, by simp, trivial⟩
  | false =>
    obtain ⟨hs, hf, hle⟩ := trimRight_slice hnext hfin hkj.le (by omega)
    rw [← hseg.seqno] at hs hf hle
    exact ⟨k, hlo, by omega, hs, by simp [hf], j, hle, hj,
      lastSegment_slice hseg (hstretch hfin), by simp, trivial⟩

theorem AppendsTo.cons (h : AppendsTo inseg (next :: rest)) :
    AppendsTo inseg (prev :: next :: rest) := by
  rwa [AppendsTo, List.getLast?_cons_cons]

theorem appendsTo_singleton :
    AppendsTo inseg [next] ↔ next.fin = false ∧ Gt inseg.seqno next.seqno := by
  simp [AppendsTo]

theorem queueBehind_queued (hseg : Slice first S hi j inseg)
    (hq : Queued first S hi n lo (prev :: q))
    (hlt : Gt inseg.seqno prev.seqno) (hlo : n < lo) (hn : n ≤ j) (hj : j < n + 0x10000)
    (hstretch : AppendsTo inseg (prev :: q) → ¬ pcb.Stretches inseg) :
    Queued first S hi n lo (pcb.queueBehind inseg prev q) := by
  induction q generalizing prev lo with
  | nil => exact hq
  | cons next rest ih =>
    obtain ⟨k₁, hlo₁, hlt₁, hprev, hfin₁, hq⟩ := hq
    obtain ⟨k₂, hk₂, hlt₂, hnext, hfin₂, hrest⟩ := id hq
    have hnf : prev.fin = false := by
      cases hf : prev.fin with
      | false => rfl
      | true => cases hfin₁ hf
    have hshort := hprev.short
    have hkj : k₁ < j := by
      rw [hseg.seqno, hprev.seqno] at hlt
      exact (gt_num (by omega) (by omega)).mp hlt
    have hsame : inseg.seqno = next.seqno ↔ j = k₂ := by
      rw [hseg.seqno, hnext.seqno]
      exact num_inj (by omega) (by omega)
    have hbehind : Gt inseg.seqno next.seqno ↔ k₂ < j := by
      rw [hseg.seqno, hnext.seqno]
      exact gt_num (by omega) (by omega)
    have hbetween : Between inseg.seqno (prev.seqno + 1) (next.seqno - 1) ↔ j < k₂ := by
      obtain ⟨m, rfl⟩ : ∃ m, k₂ = m + 1 := ⟨k₂ - 1, by omega⟩
      rw [hseg.seqno, hprev.seqno, hnext.seqno]
      change Between _ (number first k₁ + 1#32) (number first (m + 1) - 1#32) ↔ _
      rw [number_succ, number_succ_sub,
        between_num (by omega) (by omega) (by omega) (by omega)]
      omega
    have hqk : Queued first S hi n k₂ (next :: rest) := ⟨k₂, le_rfl, hlt₂, hnext, hfin₂, hrest⟩
    simp only [Rcv.queueBehind, hsame, hbetween, hbehind]
    split
    next heq =>
      split
      · exact ⟨k₁, hlo₁, hlt₁, hprev, by simp [hnf],
          (tcpOosInsertSegment_queued hseg hqk hn hj heq.le).weaken (by omega) le_rfl⟩
      · exact ⟨k₁, hlo₁, hlt₁, hprev, by simp [hnf], hq⟩
    next =>
      split
      next hbefore =>
        obtain ⟨hs, hf, hle⟩ := trimRight_slice hprev hnf hkj.le (by omega)
        rw [← hseg.seqno] at hs hf hle
        exact ⟨k₁, hlo₁, hlt₁, hs, by simp [hf],
          (tcpOosInsertSegment_queued hseg hqk hn hj hbefore.le).weaken hle le_rfl⟩
      next =>
        split
        next hlast =>
          obtain ⟨rfl, hkj₂⟩ := hlast
          exact ⟨k₁, hlo₁, hlt₁, hprev, by simp [hnf],
            appendSegment_queued hseg hnext hk₂ (by omega) hkj₂ hj fun hnf₂ =>
              hstretch (appendsTo_singleton.mpr ⟨hnf₂, hbehind.mpr hkj₂⟩).cons⟩
        next =>
          exact ⟨k₁, hlo₁, hlt₁, hprev, by simp [hnf],
            ih hq (hbehind.mpr (by omega)) (by omega) fun h => hstretch h.cons⟩

theorem queueSegment_queued (hseg : Slice first S hi j inseg) (hq : Queued first S hi n (n + 1) q)
    (hn : n < j) (hj : j < n + 0x10000)
    (hstretch : AppendsTo inseg q → ¬ pcb.Stretches inseg) :
    Queued first S hi n (n + 1) (pcb.queueSegment inseg q) := by
  cases q with
  | nil => exact ⟨j, hn, hj, hseg, by simp, trivial⟩
  | cons next rest =>
    obtain ⟨k, hk, hlt, hnext, hfin, hrest⟩ := id hq
    have hsame : inseg.seqno = next.seqno ↔ j = k := by
      rw [hseg.seqno, hnext.seqno]
      exact num_inj (by omega) (by omega)
    have hbefore : Lt inseg.seqno next.seqno ↔ j < k := by
      rw [hseg.seqno, hnext.seqno]
      exact lt_num (by omega) (by omega)
    have hbehind : Gt inseg.seqno next.seqno ↔ k < j := by
      rw [hseg.seqno, hnext.seqno]
      exact gt_num (by omega) (by omega)
    have hqk : Queued first S hi n k (next :: rest) := ⟨k, le_rfl, hlt, hnext, hfin, hrest⟩
    simp only [Rcv.queueSegment, hsame, hbefore, hbehind]
    split
    next heq =>
      split
      · exact (tcpOosInsertSegment_queued hseg hqk hn.le hj heq.le).weaken hn le_rfl
      · exact hq
    next =>
      split
      next hlt =>
        exact (tcpOosInsertSegment_queued hseg hqk hn.le hj hlt.le).weaken hn le_rfl
      next =>
        split
        next hlast =>
          obtain ⟨rfl, hkj⟩ := hlast
          exact appendSegment_queued hseg hnext hk (by omega) hkj hj fun hnf =>
            hstretch (appendsTo_singleton.mpr ⟨hnf, hbehind.mpr hkj⟩)
        next =>
          exact queueBehind_queued hseg hq (hbehind.mpr (by omega)) (by omega) hn.le hj hstretch

/-! ## A segment put at the end -/

theorem Queued.le_last {last : Seg} (hq : Queued first S hi n lo (next :: rest))
    (hlast : last ∈ (next :: rest).getLast?) :
    ∃ k i, Slice first S hi k next ∧ Slice first S hi i last ∧ lo ≤ k ∧ k ≤ i ∧
      i < n + 0x10000 := by
  induction rest generalizing next lo with
  | nil =>
    obtain ⟨k, hk, hlt, hnext, -, -⟩ := hq
    obtain rfl : next = last := by simpa using hlast
    exact ⟨k, k, hnext, hnext, hk, le_rfl, hlt⟩
  | cons seg rest ih =>
    obtain ⟨k, hk, hlt, hnext, -, hrest⟩ := hq
    rw [List.getLast?_cons_cons] at hlast
    obtain ⟨k', i, -, hi, hk', hle, hlt'⟩ := ih hrest hlast
    exact ⟨k, i, hnext, hi, hk, by omega, hlt'⟩

theorem AppendsTo.gt_first (h : AppendsTo inseg (next :: rest))
    (hseg : Slice first S hi j inseg) (hq : Queued first S hi n lo (next :: rest)) (hn : n ≤ lo)
    (hj : n ≤ j) (hlt : j < n + 0x10000) : Gt inseg.seqno next.seqno := by
  obtain ⟨last, hmem, -, hlast⟩ := h
  obtain ⟨k, i, hk, hi, hlo, hle, hlt'⟩ := hq.le_last hmem
  rw [hseg.seqno, hi.seqno, gt_num (by omega) (by omega)] at hlast
  rw [hseg.seqno, hk.seqno, gt_num (by omega) (by omega)]
  omega

theorem lastSegment_mem_append (h : AppendsTo inseg [next]) :
    pcb.lastSegment inseg ∈ pcb.appendSegment inseg next := by
  rw [Rcv.appendSegment, if_neg (by simp [(appendsTo_singleton.mp h).1])]
  simp

theorem not_same_of_gt {seqno seqno' : BitVec 32} (h : Gt seqno seqno') : seqno ≠ seqno' := by
  rintro rfl
  unfold Gt at h
  rw [BitVec.sub_self] at h
  exact absurd h (by decide)

theorem not_between_of_lt {seqno : BitVec 32} (hseg : Slice first S hi j inseg)
    (hnext : Slice first S hi k next) (hk : 0 < k) (hkj : k < j) (hj : j < k + 0x10000) :
    ¬ Between inseg.seqno seqno (next.seqno - 1) := by
  rintro ⟨-, hle⟩
  obtain ⟨m, rfl⟩ : ∃ m, k = m + 1 := ⟨k - 1, by omega⟩
  rw [hseg.seqno, hnext.seqno] at hle
  change Le (number first j) (number first (m + 1) - 1#32) at hle
  rw [number_succ_sub, le_num (by omega) (by omega)] at hle
  omega

theorem lastSegment_mem_queueBehind (hseg : Slice first S hi j inseg)
    (hq : Queued first S hi n lo (next :: rest)) (hlo : n < lo) (hn : n ≤ j) (hj : j < n + 0x10000)
    (happends : AppendsTo inseg (next :: rest)) :
    pcb.lastSegment inseg ∈ pcb.queueBehind inseg prev (next :: rest) := by
  induction rest generalizing prev next lo with
  | nil =>
    obtain ⟨k, hk, hlt, hnext, -⟩ := id hq
    have hbehind := happends.gt_first hseg hq hlo.le hn hj
    have hkj := hbehind
    rw [hseg.seqno, hnext.seqno, gt_num (by omega) (by omega)] at hkj
    rw [Rcv.queueBehind, if_neg (not_same_of_gt hbehind),
      if_neg (not_between_of_lt hseg hnext (by omega) hkj (by omega)), if_pos ⟨rfl, hbehind⟩]
    exact List.mem_cons_of_mem _ (lastSegment_mem_append happends)
  | cons seg rest ih =>
    obtain ⟨k, hk, hlt, hnext, -, hrest⟩ := id hq
    have hbehind := happends.gt_first hseg hq hlo.le hn hj
    have hkj := hbehind
    rw [hseg.seqno, hnext.seqno, gt_num (by omega) (by omega)] at hkj
    rw [Rcv.queueBehind, if_neg (not_same_of_gt hbehind),
      if_neg (not_between_of_lt hseg hnext (by omega) hkj (by omega)), if_neg (by simp)]
    rw [AppendsTo, List.getLast?_cons_cons] at happends
    exact List.mem_cons_of_mem _ (ih hrest (by omega) happends)

theorem lastSegment_mem (hseg : Slice first S hi j inseg) (hq : Queued first S hi n (n + 1) q)
    (hn : n ≤ j) (hj : j < n + 0x10000) (happends : AppendsTo inseg q) :
    pcb.lastSegment inseg ∈ pcb.queueSegment inseg q := by
  cases q with
  | nil =>
    obtain ⟨last, hmem, -⟩ := happends
    cases hmem
  | cons next rest =>
    obtain ⟨k, hk, hlt, hnext, -, hrest⟩ := id hq
    have hbehind := happends.gt_first hseg hq (by omega) hn hj
    have hkj := hbehind
    rw [hseg.seqno, hnext.seqno, gt_num (by omega) (by omega)] at hkj
    have hnot : ¬ Lt inseg.seqno next.seqno := by
      rw [hseg.seqno, hnext.seqno, lt_num (by omega) (by omega)]
      omega
    rw [Rcv.queueSegment, if_neg (not_same_of_gt hbehind), if_neg hnot]
    cases rest with
    | nil =>
      rw [if_pos ⟨rfl, hbehind⟩]
      exact lastSegment_mem_append happends
    | cons seg rest =>
      rw [if_neg (by simp)]
      rw [AppendsTo, List.getLast?_cons_cons] at happends
      exact lastSegment_mem_queueBehind hseg hrest (by omega) hn hj happends

theorem lastSegment_not_piece (hseg : Piece first S j inseg) (hstretch : pcb.Stretches inseg) :
    ¬ Piece first S k (pcb.lastSegment inseg) := by
  intro h
  obtain ⟨hover, hroom⟩ := hstretch
  have hlen := h.len
  have hold := hseg.len
  rw [BitVec.lt_def] at hroom
  rw [Rcv.lastSegment, if_pos hover, realloc_length] at hlen
  dsimp only [Seg.realloc] at hlen
  omega

end FreeLwip.Tcp
