import FreeLwip.Ip.ReassData

/-!
# Cut and put together again

What `ip_frag` makes of a packet, and what `ip_reass` makes of that.
-/

namespace FreeLwip.Ip.Reass

open InetChksum Pieces Run Singly State Stack

/-! ## What `ip_frag` sends -/

/-- The packets go out one after the other. -/
inductive Outputs (netif : NetifId) (dest : IpAddr) : Stack → List Packet → Stack → Prop where
  | nil (s : Stack) : Outputs netif dest s [] s
  | cons {s s' t : Stack} {q : Packet} {qs : List Packet} (hmem : s.request = (true, s'))
      (h : Outputs netif dest (s'.etharpOutput netif q dest).2 qs t) :
      Outputs netif dest s (q :: qs) t

/-- The next fragment of `ip_frag`, when `left` is left of the data. -/
def fragment (p : Packet) (mtu : Nat) (left : List Octet) (ofo : BitVec 16) : Packet :=
  let tmp := (p.offset &&& ipMf) ||| (ipOffmask &&& ofo)
  if left.length ≤ mtu - ipHlen then { p with offset := tmp, data := left }
  else { p with offset := tmp ||| ipMf, data := left.take ((mtu - ipHlen) / 8 * 8) }

def fragmentsFrom (p : Packet) (mtu : Nat) : Nat → List Octet → BitVec 16 → List Packet
  | 0, _, _ => []
  | fuel + 1, left, ofo =>
    if left = [] then []
    else
      let q := fragment p mtu left ofo
      q :: fragmentsFrom p mtu fuel (left.drop q.data.length)
        (ofo + BitVec.ofNat 16 ((mtu - ipHlen) / 8))

/-- All the fragments: each has an octet at least. -/
def fragments (p : Packet) (mtu : Nat) : List Packet :=
  fragmentsFrom p mtu p.data.length p.data (p.offset &&& ipOffmask)

def packetOffset (q : Packet) : Nat := (q.offset &&& ipOffmask).toNat * 8

def packetPiece (q : Packet) : Piece where
  start := packetOffset q
  stop := packetOffset q + q.data.length
  data := q.data

/-- The packets `qs` are `p`, from the octet `n` of its data on. -/
structure Cut (p : Packet) (mtu n : Nat) (left : List Octet) (qs : List Packet) : Prop where
  row : Row Piece.start Piece.stop (qs.map packetPiece)
  first : ∀ q ∈ qs.head?, packetOffset q = n
  data : wholeData (qs.map packetPiece) = left
  same : ∀ q ∈ qs, q.src = p.src ∧ q.dest = p.dest ∧ q.id = p.id ∧ q.totLen ≤ mtu
  more : ∀ l q r, qs = l ++ q :: r → (q.offset &&& ipMf = 0 ↔ r = [])

theorem toNat_offmask {ofo : BitVec 16} (hofo : ofo.toNat < 8192) :
    (ofo &&& ipOffmask).toNat = ofo.toNat := by
  rw [BitVec.toNat_and]
  exact Nat.and_two_pow_sub_one_of_lt_two_pow (n := 13) hofo

theorem offset_fields (ofo : BitVec 16) (hofo : ofo.toNat < 8192) (last : Bool) :
    let tmp := if last then ipOffmask &&& ofo else (ipOffmask &&& ofo) ||| ipMf
    (tmp &&& ipOffmask).toNat = ofo.toNat ∧ (tmp &&& ipMf = 0 ↔ last = true) := by
  have hmask : ipOffmask &&& ofo &&& ipOffmask = ofo &&& ipOffmask := by
    rw [BitVec.and_comm ipOffmask, BitVec.and_assoc, BitVec.and_self]
  have hflag : ipOffmask &&& ofo &&& ipMf = 0 := by
    rw [BitVec.and_comm ipOffmask, BitVec.and_assoc]
    exact BitVec.and_zero
  intro tmp
  cases last with
  | true =>
    refine ⟨?_, iff_of_true hflag rfl⟩
    rw [← toNat_offmask hofo, ← hmask]
    rfl
  | false =>
    have hor : ∀ m, tmp &&& m = (ipOffmask &&& ofo &&& m) ||| (ipMf &&& m) := fun m =>
      BitVec.and_or_distrib_right
    refine ⟨?_, iff_of_false ?_ (by simp)⟩
    · rw [hor, hmask, ← toNat_offmask hofo]
      exact congrArg BitVec.toNat BitVec.or_zero
    · rw [hor, hflag]
      decide

theorem Cut.nil (p : Packet) (mtu n : Nat) : Cut p mtu n [] [] where
  row := ⟨adjoined_nil, by simp⟩
  first := by simp
  data := rfl
  same := by simp
  more := by simp

theorem Cut.cons {p q : Packet} {mtu n m : Nat} {r : List Octet} {qs : List Packet}
    (h : Cut p mtu m r qs) (hq : packetOffset q = n) (hm : qs ≠ [] → n + q.data.length = m)
    (hdata : q.data ≠ [])
    (hsame : q.src = p.src ∧ q.dest = p.dest ∧ q.id = p.id ∧ q.totLen ≤ mtu)
    (hmore : q.offset &&& ipMf = 0 ↔ qs = []) : Cut p mtu n (q.data ++ r) (q :: qs) where
  row := by
    refine ⟨?_, List.forall_mem_cons.mpr ⟨?_, h.row.nonempty⟩⟩
    · cases qs with
      | nil => exact adjoined_singleton
      | cons q' qs =>
        refine adjoined_cons_cons.mpr ⟨?_, h.row.joined⟩
        have hm := hm (List.cons_ne_nil q' qs)
        have hfirst := h.first q' rfl
        simp only [packetPiece]
        omega
    · have hpos : 0 < q.data.length := List.length_pos_iff.mpr hdata
      simp only [packetPiece]
      omega
  first := by simpa using hq
  data := by
    rw [← h.data]
    rfl
  same := List.forall_mem_cons.mpr ⟨hsame, h.same⟩
  more := by
    intro l' q' r' heq
    cases l' with
    | nil =>
      cases heq
      exact hmore
    | cons x l' =>
      cases heq
      exact h.more l' q' r' rfl

theorem ipFragLoop_outputs {netif : NetifId} {dest : IpAddr} {p : Packet} {mtu fuel n : Nat}
    {s t : Stack} {left : List Octet} {ofo : BitVec 16} (hmtu : 28 ≤ mtu) (hn : left.length ≤ n)
    (h : ipFragLoop netif dest p mtu fuel s left ofo = (.ok, t)) :
    Outputs netif dest s (fragmentsFrom p mtu n left ofo) t := by
  induction fuel generalizing s left ofo n with
  | zero => cases h
  | succ fuel ih =>
    rw [ipFragLoop] at h
    split at h
    · next hnil =>
      cases h
      subst hnil
      cases n <;> exact .nil _
    next hleft =>
    split at h
    · cases h
    next s' hmem =>
    have hpos : 0 < left.length := List.length_pos_iff.mpr hleft
    obtain ⟨n, rfl⟩ : ∃ k, n = k + 1 := ⟨n - 1, by omega⟩
    rw [fragmentsFrom, if_neg hleft]
    dsimp only at h ⊢
    by_cases hlast : left.length ≤ mtu - ipHlen
    · simp only [if_pos hlast, List.take_length] at h
      simp only [fragment, if_pos hlast]
      exact .cons hmem (ih (by simp) h)
    · have hcop : 0 < (mtu - ipHlen) / 8 ∧ (mtu - ipHlen) / 8 * 8 < left.length := by
        simp only [ipHlen] at hlast ⊢
        omega
      simp only [if_neg hlast] at h
      simp only [fragment, if_neg hlast, List.length_take_of_le hcop.2.le]
      refine .cons hmem (ih ?_ h)
      rw [List.length_drop]
      omega

theorem fragmentsFrom_cut {p : Packet} {mtu n : Nat} {left : List Octet} {ofo : BitVec 16}
    (hmtu : 28 ≤ mtu) (hoff : p.offset &&& ipMf = 0) (hn : left.length ≤ n)
    (hroom : left ≠ [] → ofo.toNat * 8 + left.length ≤ 65515) :
    Cut p mtu (ofo.toNat * 8) left (fragmentsFrom p mtu n left ofo) := by
  induction n generalizing left ofo with
  | zero =>
    obtain rfl := List.eq_nil_of_length_eq_zero (Nat.le_zero.mp hn)
    exact .nil p mtu _
  | succ n ih =>
    rw [fragmentsFrom]
    split
    · next hnil =>
      subst hnil
      exact .nil p mtu _
    next hleft =>
    have hroom := hroom hleft
    have hofo : ofo.toNat < 8192 := by omega
    have hzero : ∀ x : BitVec 16, 0 ||| x = x := fun x => BitVec.zero_or
    simp only [fragment, hoff, hzero]
    by_cases hlast : left.length ≤ mtu - ipHlen
    · -- the last one takes what is left
      obtain ⟨hstart, hmf⟩ := offset_fields ofo hofo true
      have hfits : ipHlen + left.length ≤ mtu := by
        simp only [ipHlen] at hlast ⊢
        omega
      have hrest : fragmentsFrom p mtu n (left.drop left.length)
          (ofo + BitVec.ofNat 16 ((mtu - ipHlen) / 8)) = [] := by
        cases n <;> simp [fragmentsFrom]
      rw [if_pos hlast, hrest]
      have hcut := (Cut.nil p mtu 0).cons
        (q := { p with offset := ipOffmask &&& ofo, data := left }) (congrArg (· * 8) hstart)
        (by simp) hleft ⟨rfl, rfl, rfl, hfits⟩
        (iff_of_true (hmf.mpr rfl) rfl)
      rwa [List.append_nil] at hcut
    · obtain ⟨hstart, hmf⟩ := offset_fields ofo hofo false
      have hcop : 0 < (mtu - ipHlen) / 8 ∧ (mtu - ipHlen) / 8 * 8 < left.length ∧
          ipHlen + (mtu - ipHlen) / 8 * 8 ≤ mtu := by
        simp only [ipHlen] at hlast ⊢
        omega
      have hlen := List.length_take_of_le hcop.2.1.le
      have hnext : (ofo + BitVec.ofNat 16 ((mtu - ipHlen) / 8)).toNat =
          ofo.toNat + (mtu - ipHlen) / 8 := by
        rw [BitVec.toNat_add, BitVec.toNat_ofNat]
        omega
      simp only [if_neg hlast, hlen]
      have hcut : Cut p mtu ((ofo + BitVec.ofNat 16 ((mtu - ipHlen) / 8)).toNat * 8)
          (left.drop ((mtu - ipHlen) / 8 * 8))
          (fragmentsFrom p mtu n (left.drop ((mtu - ipHlen) / 8 * 8))
            (ofo + BitVec.ofNat 16 ((mtu - ipHlen) / 8))) :=
        ih (by rw [List.length_drop]; omega) fun _ => by rw [hnext, List.length_drop]; omega
      have hqs : fragmentsFrom p mtu n (left.drop ((mtu - ipHlen) / 8 * 8))
          (ofo + BitVec.ofNat 16 ((mtu - ipHlen) / 8)) ≠ [] := by
        intro hnil
        have hdrop := hcut.data
        rw [hnil] at hdrop
        have hdrop := congrArg List.length hdrop
        rw [List.length_drop] at hdrop
        simp only [wholeData, List.map_nil, List.flatMap_nil, List.length_nil] at hdrop
        omega
      have hcons := hcut.cons (q := { p with
          offset := (ipOffmask &&& ofo) ||| ipMf
          data := left.take ((mtu - ipHlen) / 8 * 8) })
        (congrArg (· * 8) hstart) (fun _ => by rw [hnext, hlen]; ring)
        (List.ne_nil_of_length_pos (by rw [hlen]; omega))
        ⟨rfl, rfl, rfl, by rw [Packet.totLen, hlen]; exact hcop.2.2⟩
        (iff_of_false (fun h => by simpa using hmf.mp h) hqs)
      rwa [List.take_append_drop] at hcons

/-! ## What arrives -/

/-- The packet came in as the fragment `f`, in whatever pbufs and with whatever time to live. -/
structure Receives (q : Packet) (f : Pbuf) : Prop where
  hl : f.hdr.hl * 4 = ipHlen
  len : f.hdr.len.toNat = ipHlen + q.data.length
  src : f.hdr.src = q.src
  dest : f.hdr.dest = q.dest
  id : f.hdr.id = q.id
  offset : f.hdr.offset = q.offset
  data : f.data = q.data

theorem Receives.piece_eq {q : Packet} {f : Pbuf} (h : Receives q f)
    (hroom : packetOffset q + q.data.length ≤ 65515) : (newFrag f).piece = packetPiece q := by
  have hoff : f.hdr.fragOffset = packetOffset q := by
    unfold IpHdr.fragOffset packetOffset
    rw [h.offset]
  have hlen : f.hdr.dataLen = q.data.length := by
    unfold IpHdr.dataLen
    rw [h.len, h.hl]
    omega
  simp only [newFrag, Frag.piece, packetPiece, hoff, hlen, h.data, Piece.mk.injEq, and_true,
    true_and]
  omega

variable {F A B : List Piece} {a : Piece} {y : Sys} {xs : List Nat} {k : IpHdr} {p : Pbuf}
  {d e : Reassdata} {r : Option Pbuf}

theorem completes_inOrder (hF : Whole (A ++ a :: B)) :
    (∃ hole, Completes (A ++ a :: B) A a hole) ↔ B = [] := by
  have hl : ∀ b ∈ A, b.start < a.start := fun b hb => hF.row.start_lt hb
  have hiff := fun hole => completes_iff (r := []) hF hole hl (by simp)
  rw [List.append_nil] at hiff
  simp only [hiff]
  constructor
  · rintro ⟨hole, heq, hne⟩
    have hnil : hole = [] := by
      by_contra h
      exact (hne h).2 rfl
    rw [hnil, List.append_nil] at heq
    simpa using heq
  · rintro rfl
    exact ⟨[], by simp, by simp⟩

theorem took_inOrder (hF : Whole (A ++ a :: B)) (hd : Collected (A ++ a :: B) d)
    (hA : d.p.map Frag.piece = A) (hp : Carries (A ++ a :: B) p) (ha : (newFrag p).piece = a)
    (ht : Took p (noteLast (adoptHdr d p.hdr) p.hdr) r (some e)) :
    e.p.map Frag.piece = A ++ [a] := by
  obtain ⟨hep, hel, -⟩ := noteLast_collected hd hp
  generalize noteLast (adoptHdr d p.hdr) p.hdr = e' at *
  have hsub := hd.sub
  rw [← hep] at hel hsub hA
  have hbefore : ∀ b ∈ A, b.start < a.start := fun b hb => hF.row.start_lt hb
  rcases chainFrag_spec hF hsub hp.mem hel with ⟨-, hmem⟩ | ⟨l, r', b, hlr, hsome, -, -, hl, hr⟩
  · rw [hA, ha] at hmem
    exact absurd (hbefore a hmem) (lt_irrefl _)
  · have hr' : r' = [] := by
      rw [List.eq_nil_iff_forall_not_mem]
      intro f hf
      have hafter := hr f.piece (List.mem_map_of_mem hf)
      have hmem : f.piece ∈ A := by
        rw [← hA, hlr, List.map_append]
        exact List.mem_append_right _ (List.mem_map_of_mem hf)
      have hstart : (newFrag p).start = a.start := congrArg Piece.start ha
      have := hbefore _ hmem
      omega
    subst hr'
    rw [List.append_nil] at hlr
    cases ht with
    | dropped h =>
      rw [hsome] at h
      cases h
    | kept c h =>
      rw [hsome] at h
      cases h
      rw [List.map_append, ← hlr, hA, ← ha]
      rfl

theorem step_inOrder (hF : Whole (A ++ a :: B)) (hi : SysInv y xs)
    (hc : CollectedIn k (A ++ a :: B) y.s xs) (hA : pieces y.s k = A)
    (hslot : A ≠ [] ∨ y.s.pool ≠ []) (hk : k.addressesAndIdMatch p.hdr = true)
    (hp : Carries (A ++ a :: B) p) (ha : (newFrag p).piece = a) (hhl : p.hdr.hl * 4 = ipHlen)
    (hroom : y.s.pbufcount + pbufClen p ≤ ipReassMaxPbufs) :
    ∃ z ws, step y (.input p) = some z ∧ SysInv z ws ∧ CollectedIn k (A ++ a :: B) z.s ws ∧
      z.s.pbufcount ≤ y.s.pbufcount + pbufClen p ∧
      (B ≠ [] → z.out = y.out ∧ pieces z.s k = A ++ [a]) ∧
      (B = [] → ∃ q, z.out = q :: y.out ∧ Headed (A ++ a :: B) q ∧
        q.data = wholeData (A ++ a :: B)) := by
  have hsafe : Safe y.s p := fun _ hfull => absurd hfull (by omega)
  have hstep : step y (.input p) = some { y with
      s := (y.s.ipReass p).2
      given := p.chain ++ y.given
      out := (y.s.ipReass p).1.toList ++ y.out } := rfl
  obtain ⟨ws, hws, heff⟩ := step_input hi hsafe hstep
  have hcol := heff.collected hF hi.inv hc fun _ => hp
  have hmake : (y.s.makeRoom p.hdr (pbufClen p)).1 = true := by
    unfold makeRoom
    rw [if_neg (by omega)]
  refine ⟨_, ws, hstep, hws, hcol, ?_⟩
  dsimp only at hws heff ⊢
  rcases heff with ⟨-, -, hdrop⟩ | ⟨d, o, hb, ht, -, hin, hcount⟩
  · obtain ⟨hno, hpool⟩ := hdrop hhl hmake
    rcases hslot with hslot | hslot
    · rw [match_symm] at hk
      exact absurd (hA.symm.trans (hi.inv.pieces_nil (hno.congr hk))) hslot
    · exact absurd hpool hslot
  · obtain ⟨hd, hpieces⟩ := hb.collected hk hc hi.inv
    obtain ⟨-, hsome, hret⟩ := took_spec hF hd hp ht
    rw [hA] at hpieces
    rw [← hpieces, ha, completes_inOrder hF] at hsome
    refine ⟨hcount, fun hB => ?_, fun hB => ?_⟩
    · have hnone : (y.s.ipReass p).1 = none := by
        rw [← Option.not_isSome_iff_eq_none, hsome]
        exact hB
      refine ⟨by rw [hnone]; rfl, ?_⟩
      rw [hnone] at ht
      cases ho : o with
      | none =>
        rw [ho] at ht
        cases ht
      | some e =>
        rw [ho] at ht
        obtain ⟨w, hw, rfl⟩ := hin e ho
        have hmatch := ht.key hb
        rw [match_symm] at hk
        rw [hws.inv.pieces_eq hw (match_trans hmatch hk)]
        exact took_inOrder hF hd hpieces.symm hp ha ht
    · obtain ⟨q, hq⟩ := Option.isSome_iff_exists.mp (hsome.mpr hB)
      obtain ⟨hhead, hole, hcomp, hdata⟩ := hret q hq
      refine ⟨q, by rw [hq]; rfl, hhead, hdata.mpr ?_⟩
      rw [← hpieces, ha] at hcomp
      have hlen := hcomp.length_eq
      rw [hB, List.length_append, List.length_singleton] at hlen
      exact List.eq_nil_of_length_eq_zero (by omega)

/-- The pbufs of fragments that are still to come. -/
def arriving : List Pbuf → Nat
  | [] => 0
  | f :: fs => pbufClen f + arriving fs

theorem run_inOrder {fs : List Pbuf} (hF : Whole F)
    (hsplit : F = A ++ fs.map fun f => (newFrag f).piece) (hne : fs ≠ []) (hi : SysInv y xs)
    (hc : CollectedIn k F y.s xs) (hA : pieces y.s k = A) (hslot : A ≠ [] ∨ y.s.pool ≠ [])
    (hfs : ∀ f ∈ fs, k.addressesAndIdMatch f.hdr = true ∧ Carries F f ∧ f.hdr.hl * 4 = ipHlen)
    (hroom : y.s.pbufcount + arriving fs ≤ ipReassMaxPbufs) :
    ∃ z q, run step y (fs.map .input) = some z ∧ z.out = q :: y.out ∧ Headed F q ∧
      q.data = wholeData F := by
  induction fs generalizing A y xs with
  | nil => exact absurd rfl hne
  | cons f fs ih =>
    subst hsplit
    rw [List.forall_mem_cons] at hfs
    obtain ⟨⟨hk, hp, hhl⟩, hfs⟩ := hfs
    rw [arriving] at hroom
    obtain ⟨z, ws, hstep, hz, hcz, hcount, hmore, hlast⟩ :=
      step_inOrder hF hi hc hA hslot hk hp rfl hhl (by omega)
    by_cases hfin : fs = []
    · subst hfin
      obtain ⟨q, hout, hhead, hdata⟩ := hlast rfl
      exact ⟨z, q, by rw [List.map_cons, run_cons, hstep]; rfl, hout, hhead, hdata⟩
    · obtain ⟨hout, hpieces⟩ := hmore (by simpa using hfin)
      obtain ⟨z', q, hrun, hout', hq⟩ := ih (A := A ++ [(newFrag f).piece]) (by simp) hfin hz hcz
        hpieces (.inl (by simp)) hfs (by omega)
      refine ⟨z', q, ?_, by rw [hout', hout], hq⟩
      rw [List.map_cons, run_cons, hstep]
      exact hrun

theorem Whole.stop_le (hF : Whole F) (ha : a ∈ F) : a.stop ≤ (wholeData F).length := by
  obtain ⟨l, r, rfl⟩ := List.append_of_mem ha
  have hne : a :: r ≠ [] := List.cons_ne_nil a r
  have hlast : (l ++ a :: r).getLast? = some ((a :: r).getLast hne) := by
    rw [List.getLast?_append, List.getLast?_eq_some_getLast hne]
    rfl
  rw [hF.length_wholeData _ hlast]
  rcases List.mem_cons.mp (List.getLast_mem hne) with heq | hmem
  · rw [heq]
  · have hle := hF.row.append_right.le_of_mem hmem
    have hlt := hF.row.nonempty _ (List.mem_append_right l (List.mem_cons_of_mem a hmem))
    omega

theorem Cut.whole {p : Packet} {mtu : Nat} {left : List Octet} {qs : List Packet}
    (h : Cut p mtu 0 left qs) :
    Whole (qs.map packetPiece) where
  row := h.row
  zero := by
    cases qs with
    | nil => simp
    | cons q qs => simpa [packetPiece] using h.first q rfl
  data := by
    rw [List.forall_mem_map]
    intro q _
    simp [packetPiece]

theorem Cut.carries {p : Packet} {mtu : Nat} {left : List Octet} {qs : List Packet}
    (h : Cut p mtu 0 left qs)
    {q : Packet} {f : Pbuf} (hq : q ∈ qs) (hf : Receives q f)
    (hpiece : (newFrag f).piece = packetPiece q) : Carries (qs.map packetPiece) f := by
  obtain ⟨l, r, rfl⟩ := List.append_of_mem hq
  rw [List.map_append, List.map_cons]
  refine ⟨by simp [hpiece], ?_⟩
  have hmore := h.more l q r rfl
  have hmf : f.hdr.moreFragments = false ↔ q.offset &&& ipMf = 0 := by
    unfold IpHdr.moreFragments
    rw [hf.offset, bne_eq_false_iff_eq]
  rw [hmf, hmore, hpiece]
  have hrow := h.row
  rw [List.map_append, List.map_cons] at hrow
  constructor
  · rintro rfl
    simp
  · intro hlast
    by_contra hr
    -- the last piece is one behind it
    obtain ⟨x, hx⟩ : ∃ x, (r.map packetPiece).getLast? = some x :=
      ⟨_, List.getLast?_eq_some_getLast (by simpa using hr)⟩
    rw [List.getLast?_append, List.getLast?_cons, hx, Option.getD_some, Option.some_or,
      Option.some.injEq] at hlast
    have hmem := List.mem_of_getLast? hx
    have := hrow.lt_start hmem
    rw [hlast] at this
    exact lt_irrefl _ this

theorem receives_pieces {qs : List Packet} {fs : List Pbuf} (hfs : List.Forall₂ Receives qs fs)
    (hroom : ∀ q ∈ qs, packetOffset q + q.data.length ≤ 65515) :
    (fs.map fun f => (newFrag f).piece) = qs.map packetPiece := by
  induction hfs with
  | nil => rfl
  | cons h _ ih =>
    rw [List.forall_mem_cons] at hroom
    rw [List.map_cons, List.map_cons, h.piece_eq hroom.1, ih hroom.2]

theorem receives_mem {qs : List Packet} {fs : List Pbuf} (hfs : List.Forall₂ Receives qs fs)
    {f : Pbuf} (hf : f ∈ fs) : ∃ q ∈ qs, Receives q f := by
  induction hfs with
  | nil => cases hf
  | cons h _ ih =>
    rcases List.mem_cons.mp hf with rfl | hf
    · exact ⟨_, by simp, h⟩
    · obtain ⟨q, hq, hrec⟩ := ih hf
      exact ⟨q, List.mem_cons_of_mem _ hq, hrec⟩

/-- What `ip_frag` sends fits the interface, and `ip_reass` puts it together again when it comes in
order and finds room. -/
theorem frag_reass_roundtrip {netif : NetifId} {dest : IpAddr} {s t : Stack} {p : Packet}
    {mtu : Nat} (hmtu : (s.ifs.netif netif).mtu.toNat = mtu) (hmin : 28 ≤ mtu) (hoff : p.offset = 0)
    (hdata : p.data ≠ []) (hlen : p.totLen ≤ 65535) (h : s.ipFrag p netif dest = (.ok, t)) :
    Outputs netif dest s (fragments p mtu) t ∧ (∀ q ∈ fragments p mtu, q.totLen ≤ mtu) ∧
      ∀ (fs : List Pbuf) (ipr : Nat → Reassdata) (as : List Action) (y : Sys),
        List.Forall₂ Receives (fragments p mtu) fs →
        EveryStep step SafeStep (Sys.init ipr) as → run step (Sys.init ipr) as = some y →
        (∀ f ∈ fs, NoMatch y.s f.hdr y.s.datagrams) → y.s.pool ≠ [] →
        y.s.pbufcount + arriving fs ≤ ipReassMaxPbufs →
        ∃ z q, run step y (fs.map .input) = some z ∧ z.out = q :: y.out ∧ q.data = p.data ∧
          q.hdr.len.toNat = p.totLen ∧ q.hdr.offset = 0 ∧
          inetChksum (flat q.hdr.octets) 0 (BitVec.ofNat 16 ipHlen) = 0 := by
  have hlen' : p.data.length ≤ 65515 := by
    simp only [Packet.totLen, ipHlen] at hlen
    omega
  have hflag : p.offset &&& ipMf = 0 := by
    rw [hoff]
    rfl
  have hzero : p.offset &&& ipOffmask = 0 := by
    rw [hoff]
    rfl
  have hcut : Cut p mtu 0 p.data (fragments p mtu) := by
    have hfrom : Cut p mtu ((0#16).toNat * 8) p.data (fragmentsFrom p mtu p.data.length p.data 0) :=
      fragmentsFrom_cut hmin hflag le_rfl fun _ => by simpa using hlen'
    unfold fragments
    rw [hzero]
    exact hfrom
  unfold ipFrag at h
  rw [hmtu] at h
  refine ⟨ipFragLoop_outputs hmin le_rfl h, fun q hq => (hcut.same q hq).2.2.2,
    fun fs ipr as y hfs hsafe hrun hnew hpool hroom => ?_⟩
  generalize fragments p mtu = qs at *
  have hwhole := hcut.whole
  have hbound : ∀ q ∈ qs, packetOffset q + q.data.length ≤ 65515 := fun q hq => by
    have hle := hwhole.stop_le (List.mem_map_of_mem hq)
    rw [hcut.data] at hle
    exact hle.trans hlen'
  have hpieces := receives_pieces hfs hbound
  have hfrom : ∀ f ∈ fs, f.hdr.src = p.src ∧ f.hdr.dest = p.dest ∧ f.hdr.id = p.id ∧
      Carries (qs.map packetPiece) f ∧ f.hdr.hl * 4 = ipHlen := fun f hf => by
    obtain ⟨q, hq, hrec⟩ := receives_mem hfs hf
    obtain ⟨hsrc, hdest, hid, -⟩ := hcut.same q hq
    exact ⟨hrec.src.trans hsrc, hrec.dest.trans hdest, hrec.id.trans hid,
      hcut.carries hq hrec (hrec.piece_eq (hbound q hq)), hrec.hl⟩
  obtain ⟨xs, hi⟩ := run_sysInv (init_sysInv ipr) hsafe hrun
  rw [hi.inv.datagrams_eq] at hnew
  have hne : fs ≠ [] := by
    rintro rfl
    rw [List.map_nil] at hpieces
    have hnil := hcut.data
    rw [← hpieces] at hnil
    exact hdata hnil.symm
  obtain ⟨f, hf⟩ := List.exists_mem_of_ne_nil fs hne
  have hno := hnew f hf
  obtain ⟨z, q, hz, hout, hhead, hq⟩ := run_inOrder (A := []) (k := f.hdr) hwhole
    (by rw [hpieces, List.nil_append]) hne hi
    (fun x hx hk => by rw [hno x hx] at hk; cases hk) (hi.inv.pieces_nil hno) (.inr hpool)
    (fun g hg => by
      obtain ⟨hsrc, hdest, hid, hcarries, hhl⟩ := hfrom g hg
      obtain ⟨hsrc', hdest', hid', -⟩ := hfrom f hf
      refine ⟨?_, hcarries, hhl⟩
      simp [IpHdr.addressesAndIdMatch, ipAddrCmp, hsrc, hdest, hid, hsrc', hdest', hid']) hroom
  rw [hcut.data] at hq
  refine ⟨z, q, hz, hout, hq, ?_, hhead.offset, hhead.chksum⟩
  rw [hhead.len, hcut.data, BitVec.toNat_ofNat]
  simp only [Packet.totLen, ipHlen]
  omega

theorem frag_reass_roundtrip_two :
    let nif : Netif := ⟨1, 0xffffff, 0, 0, 28, netifFlagUp ||| netifFlagBroadcast⟩
    let s : Stack :=
      { ifs := ⟨fun _ => nif, [], none⟩, arpTable := fun _ => ⟨[], 0, none, 0, .empty, 0⟩, ipId := 0
        hints := fun _ => 0, addrHint := fun _ => none, mem := List.replicate 4 true, sent := [] }
    let p : Packet := ⟨1, 0xffffffff, 64, 0, 17, 7, 0, [1, 2, 3, 4, 5, 6, 7, 8, 9]⟩
    let hdr : Packet → IpHdr := fun q =>
      ⟨0x45, 0, BitVec.ofNat 16 q.totLen, q.id, q.offset, 63, 17, 0, q.src, q.dest⟩
    let fs : List Pbuf := (fragments p 28).map fun q => ⟨[0], hdr q, q.data⟩
    Outputs 0 0xffffffff s (fragments p 28) (s.ipFrag p 0 0xffffffff).2 ∧
      ∃ z q, run step (Sys.init fun _ => freshDatagram (hdr p)) (fs.map .input) = some z ∧
        z.out = [q] ∧ q.data = p.data ∧ q.hdr.len.toNat = 29 := by
  intro nif s p hdr fs
  have hok : s.ipFrag p 0 0xffffffff = (.ok, (s.ipFrag p 0 0xffffffff).2) :=
    Prod.ext (by decide +kernel) rfl
  obtain ⟨houts, hfit, h⟩ := frag_reass_roundtrip (s := s) (p := p) rfl (by decide) rfl (by decide)
    (by decide) hok
  have hreceives : ∀ q ∈ fragments p 28, Receives q ⟨[0], hdr q, q.data⟩ := fun q hq => by
    have hle := hfit q hq
    refine ⟨by simp [hdr, IpHdr.hl, ipHlen], ?_, rfl, rfl, rfl, rfl, rfl⟩
    show (BitVec.ofNat 16 q.totLen).toNat = q.totLen
    rw [BitVec.toNat_ofNat]
    omega
  obtain ⟨z, q, hz, hout, hdata, hlen, -⟩ := h fs (fun _ => freshDatagram (hdr p)) [] _
    (List.forall₂_map_right_iff.mpr (List.forall₂_same.mpr hreceives)) trivial rfl
    (fun _ _ _ hx => by cases hx) (by decide) (by decide +kernel)
  exact ⟨houts, z, q, hz, hout, hdata, hlen⟩

end FreeLwip.Ip.Reass
