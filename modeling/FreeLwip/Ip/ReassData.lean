import FreeLwip.Ip.ReassRun

/-!
# What the reassembly returns

The fragments of one datagram among all the others: which of them completes it, and what is
returned then.
-/

namespace FreeLwip.Ip.Reass

open InetChksum Pieces Run Singly State

/-! ## The datagram made of its fragments -/

def wholeData (F : List Piece) : List Octet := F.flatMap Piece.data

theorem length_wholeData_row {x : Piece} {B : List Piece}
    (hrow : Row Piece.start Piece.stop (x :: B))
    (hdata : ∀ a ∈ x :: B, a.data.length = a.stop - a.start) :
    ∀ a ∈ (x :: B).getLast?, (wholeData (x :: B)).length = a.stop - x.start ∧ x.start < a.stop := by
  induction B generalizing x with
  | nil =>
    intro a ha
    cases ha
    exact ⟨by simp [wholeData, hdata x (by simp)], hrow.nonempty x (by simp)⟩
  | cons y B ih =>
    intro a ha
    rw [List.getLast?_cons_cons] at ha
    rw [List.forall_mem_cons] at hdata
    obtain ⟨hlen, hlt⟩ := ih hrow.of_cons hdata.2 a ha
    have hxy := (adjoined_cons_cons.mp hrow.joined).1
    have hx := hrow.nonempty x (by simp)
    have hcons : wholeData (x :: y :: B) = x.data ++ wholeData (y :: B) := rfl
    rw [hcons, List.length_append, hdata.1]
    omega

variable {F : List Piece} {d : Reassdata} {p : Pbuf}

theorem Whole.length_wholeData (hF : Whole F) :
    ∀ a ∈ F.getLast?, (wholeData F).length = a.stop := by
  cases F with
  | nil => exact fun a ha => nomatch ha
  | cons x B =>
    intro a ha
    have hlen := (length_wholeData_row hF.row hF.data a ha).1
    rw [hF.zero x rfl] at hlen
    exact hlen

theorem Whole.data_eq_iff {l hole r : List Piece} (hF : Whole (l ++ hole ++ r)) :
    wholeData (l ++ r) = wholeData (l ++ hole ++ r) ↔ hole = [] := by
  constructor
  · intro heq
    have hlen := congrArg List.length heq
    simp only [wholeData, List.flatMap_append, List.length_append] at hlen
    cases hole with
    | nil => rfl
    | cons a hole =>
      have ha := hF.row.nonempty a (by simp)
      have hdata := hF.data a (by simp)
      rw [List.flatMap_cons, List.length_append] at hlen
      omega
  · rintro rfl
    rw [List.append_nil]

theorem joinDatagram_verifies (d : Reassdata) :
    inetChksum (flat (joinDatagram d).hdr.octets) 0 (BitVec.ofNat 16 ipHlen) = 0 := by
  rw [inetChksum_eq_zero_iff]
  set hdr : IpHdr := { d.iphdr with
    len := BitVec.ofNat 16 (d.datagramLen + ipHlen)
    offset := 0
    chksum := 0 } with hhdr
  have hoctets : ∀ c : BitVec 16, octets (flat (IpHdr.octets { hdr with chksum := c })) 0
      (BitVec.ofNat 16 ipHlen).toNat =
        hdr.front ++ halfOctets c ++ (addrOctets hdr.src ++ addrOctets hdr.dest) := fun c =>
    octets_flat _
  have hjoin : (joinDatagram d).hdr = { hdr with
      chksum := inetChksum (flat hdr.octets) 0 (BitVec.ofNat 16 ipHlen) } := rfl
  rw [hjoin, hoctets]
  refine verifies_complement _ _ _ (by simp [IpHdr.front, halfOctets]) ?_
  rw [inetChksum_eq]
  exact congrArg (65535 - onesSum ·) (hoctets 0#16)

/-- What is right with a datagram that was put together, whatever is missing in it. -/
structure Headed (F : List Piece) (q : Pbuf) : Prop where
  len : q.hdr.len = BitVec.ofNat 16 ((wholeData F).length + ipHlen)
  offset : q.hdr.offset = 0
  chksum : inetChksum (flat q.hdr.octets) 0 (BitVec.ofNat 16 ipHlen) = 0

theorem chain_data (c : List Frag) :
    (c.flatMap fun f => f.p.data) = wholeData (c.map Frag.piece) := by
  rw [wholeData, List.flatMap_map]
  rfl

theorem chainFrag_spec (hF : Whole F) (hsub : (d.p.map Frag.piece).Sublist F)
    (hp : (newFrag p).piece ∈ F)
    (hlast : d.lastfrag = true ↔ ∃ a ∈ F.getLast?, a = (newFrag p).piece ∨ a ∈ d.p.map Frag.piece) :
    (chainFragIntoDatagramAndValidate d p = (none, false) ∧
      (newFrag p).piece ∈ d.p.map Frag.piece) ∨
    ∃ l r b, d.p = l ++ r ∧ chainFragIntoDatagramAndValidate d p = (some (l ++ newFrag p :: r), b) ∧
      ((l ++ newFrag p :: r).map Frag.piece).Sublist F ∧
      (b = true ↔ ∃ hole, Completes F (d.p.map Frag.piece) (newFrag p).piece hole) ∧
      (∀ b ∈ l.map Frag.piece, b.start < (newFrag p).start) ∧
      ∀ b ∈ r.map Frag.piece, (newFrag p).start < b.start := by
  by_cases hmem : (newFrag p).piece ∈ d.p.map Frag.piece
  · exact .inl ⟨chainFrag_of_mem hF hsub hmem, hmem⟩
  · right
    obtain ⟨l, r, hlr, hsome, hsub', hflag⟩ := chainFrag_of_not_mem hF hsub hp hmem hlast
    have hsorted := hF.pairwise_lt.sublist hsub'
    rw [List.map_append, List.map_cons, List.pairwise_append, List.pairwise_cons] at hsorted
    have hl : ∀ b ∈ l.map Frag.piece, b.start < (newFrag p).start := fun b hb =>
      hsorted.2.2 b hb (newFrag p).piece (by simp)
    have hr : ∀ b ∈ r.map Frag.piece, (newFrag p).start < b.start := fun b hb =>
      hsorted.2.1.1 b hb
    refine ⟨l, r, _, hlr, Prod.ext hsome rfl, hsub', hflag.trans ?_, hl, hr⟩
    refine exists_congr fun hole => ?_
    have hiff := completes_iff (a := (newFrag p).piece) hF hole hl hr
    rw [hlr, List.map_append, hiff]
    simp

theorem not_completes_of_mem (hF : Whole F) {c : List Piece} (hole : List Piece) {a : Piece}
    (ha : a ∈ c) :
    ¬ Completes F c a hole := by
  rintro ⟨l, r, rfl, heq, -⟩
  have hnodup := hF.row.nodup
  rw [heq] at hnodup
  have hnot := (List.nodup_cons.mp (List.perm_middle.nodup_iff.mp hnodup)).1
  apply hnot
  rcases List.mem_append.mp ha with ha | ha <;> simp [ha]

theorem Completes.last {c hole : List Piece} {a : Piece} (h : Completes F c a hole) :
    ∃ b ∈ F.getLast?, b = a ∨ b ∈ c := by
  obtain ⟨l, r, rfl, rfl, -⟩ := h
  refine ⟨(a :: r).getLast (List.cons_ne_nil a r), ?_, ?_⟩
  · rw [List.getLast?_append, List.getLast?_eq_some_getLast (List.cons_ne_nil a r)]
    rfl
  · rcases List.mem_cons.mp (List.getLast_mem (List.cons_ne_nil a r)) with h | h
    · exact .inl h
    · exact .inr (List.mem_append_right _ h)

theorem Completes.length_eq {c hole : List Piece} {a : Piece} (h : Completes F c a hole) :
    F.length = c.length + hole.length + 1 := by
  obtain ⟨l, r, rfl, rfl, -⟩ := h
  simp only [List.length_append, List.length_cons]
  omega

theorem Completes.nil_iff {c hole hole' : List Piece} {a : Piece} (h : Completes F c a hole)
    (h' : Completes F c a hole') : hole = [] ↔ hole' = [] := by
  have hlen := h.length_eq
  have hlen' := h'.length_eq
  rw [← List.length_eq_zero_iff, ← List.length_eq_zero_iff]
  omega

theorem took_spec (hF : Whole F) (hc : Collected F d) (hp : Carries F p) {r : Option Pbuf}
    {o : Option Reassdata} (ht : Took p (noteLast (adoptHdr d p.hdr) p.hdr) r o) :
    (∀ e ∈ o, Collected F e) ∧
      (r.isSome = true ↔ ∃ hole, Completes F (d.p.map Frag.piece) (newFrag p).piece hole) ∧
      ∀ q ∈ r, Headed F q ∧ ∃ hole, Completes F (d.p.map Frag.piece) (newFrag p).piece hole ∧
        (q.data = wholeData F ↔ hole = []) := by
  obtain ⟨hep, hel, hen⟩ := noteLast_collected hc hp
  set e := noteLast (adoptHdr d p.hdr) p.hdr with he
  rw [← hep] at hel
  have hsub := hc.sub
  rw [← hep] at hsub ⊢
  rcases chainFrag_spec hF hsub hp.mem hel with
    ⟨hnone, hmem⟩ | ⟨l, r', b, hlr, hsome, hsub', hb, hl, hr⟩
  · have hnot := fun hole => not_completes_of_mem hF hole hmem
    cases ht with
    | dropped h =>
      refine ⟨fun e' he' => ?_, by simpa using hnot, by simp⟩
      cases he'
      refine ⟨hsub, hel.trans (exists_congr fun a => and_congr_right fun _ => ?_), hen⟩
      exact ⟨fun h => h.elim (fun heq => heq ▸ hmem) id, .inr⟩
    | kept c h =>
      rw [hnone] at h
      cases h
    | complete c h =>
      rw [hnone] at h
      cases h
  · cases ht with
    | dropped h =>
      rw [hsome] at h
      cases h
    | kept c h =>
      rw [hsome] at h
      cases h
      refine ⟨fun e' he' => ?_, by simpa using hb, by simp⟩
      cases he'
      refine ⟨hsub', hel.trans (exists_congr fun a => and_congr_right fun _ => ?_), hen⟩
      rw [hlr]
      simp only [List.map_append, List.map_cons, List.mem_append, List.mem_cons]
      tauto
    | complete c h =>
      rw [hsome] at h
      cases h
      refine ⟨by simp, by simpa using hb, fun q hq => ?_⟩
      cases hq
      obtain ⟨hole, hcomp⟩ := hb.mp rfl
      obtain ⟨a, ha, hmem⟩ := hcomp.last
      refine ⟨⟨?_, rfl, joinDatagram_verifies _⟩, hole, hcomp, ?_⟩
      · rw [hF.length_wholeData a ha, ← hen (hel.mpr ⟨a, ha, hmem⟩) a ha]
        rfl
      · rw [hlr, List.map_append] at hcomp
        obtain ⟨heq, -⟩ := (completes_iff hF hole hl hr).mp hcomp
        have hdata : (joinDatagram { e with p := l ++ newFrag p :: r' }).data =
            wholeData (l.map Frag.piece ++ (newFrag p).piece :: r'.map Frag.piece) := by
          show (List.flatMap _ _) = _
          rw [chain_data, List.map_append, List.map_cons]
        rw [hdata, heq]
        rw [heq] at hF
        exact hF.data_eq_iff

/-! ## Among the other datagrams -/

/-- The pieces that are there of the datagram `k`. -/
def pieces (s : State) (k : IpHdr) : List Piece :=
  match s.datagrams.find? fun x => (s.ipr x).iphdr.addressesAndIdMatch k with
  | some x => (s.ipr x).p.map Frag.piece
  | none => []

variable {s t : State} {xs ws ys zs : List Nat} {x : Nat} {k : IpHdr}

theorem Inv.pieces_eq (hi : Inv s xs) (hmem : x ∈ xs)
    (hx : (s.ipr x).iphdr.addressesAndIdMatch k = true) :
    pieces s k = (s.ipr x).p.map Frag.piece := by
  obtain ⟨ys, zs, rfl⟩ := List.append_of_mem hmem
  have hnone : ys.find? (fun x => (s.ipr x).iphdr.addressesAndIdMatch k) = none := by
    rw [List.find?_eq_none]
    intro y hy
    simp [hi.noMatch hx y (List.mem_append_left _ hy)]
  unfold pieces
  rw [hi.datagrams_eq, List.find?_append, hnone, List.find?_cons, hx]
  rfl

theorem Inv.pieces_nil (hi : Inv s xs) (hno : NoMatch s k xs) : pieces s k = [] := by
  unfold pieces
  rw [hi.datagrams_eq, List.find?_eq_none.mpr fun y hy => by simp [hno y hy]]

/-- What is there of the datagram `k` are pieces of `F`. -/
def CollectedIn (k : IpHdr) (F : List Piece) (s : State) (xs : List Nat) : Prop :=
  ∀ x ∈ xs, (s.ipr x).iphdr.addressesAndIdMatch k = true → Collected F (s.ipr x)

theorem collected_fresh (F : List Piece) (h : IpHdr) : Collected F (freshDatagram h) where
  sub := List.nil_sublist F
  lastfrag := by simp [freshDatagram]
  len := by simp [freshDatagram]

theorem Before.collected {h : IpHdr} (hb : Before s xs h d) (hk : k.addressesAndIdMatch h = true)
    (hc : CollectedIn k F s xs) (hi : Inv s xs) :
    Collected F d ∧ pieces s k = d.p.map Frag.piece := by
  rw [match_symm] at hk
  rcases hb with ⟨rfl, hno⟩ | ⟨x, hx, hmatch, rfl⟩
  · exact ⟨collected_fresh F h, hi.pieces_nil (hno.congr hk)⟩
  · have hx' := match_trans hmatch hk
    exact ⟨hc x hx hx', hi.pieces_eq hx hx'⟩

theorem Effect.collected (hF : Whole F) (hi : Inv s xs) (hc : CollectedIn k F s xs)
    (hp : k.addressesAndIdMatch p.hdr = true → Carries F p) {r : Option Pbuf}
    (he : Effect s xs p r t ws) : CollectedIn k F t ws := by
  intro w hw hk
  rcases he with ⟨-, hsame, -⟩ | ⟨d, o, hb, ht, hws, -⟩
  · obtain ⟨hmem, heq⟩ := hsame w hw
    rw [heq] at hk ⊢
    exact hc w hmem hk
  · rcases hws w hw with ho | ⟨hmem, -, heq⟩
    · rw [ho] at ht
      have hmatch := match_trans (by rw [match_symm]; exact hk) (ht.key hb)
      exact (took_spec hF (hb.collected hmatch hc hi).1 (hp hmatch) ht).1 _ rfl
    · rw [heq] at hk ⊢
      exact hc w hmem hk

/-- Fragments of the datagram `k` carry pieces of `F`. -/
def Fed (k : IpHdr) (F : List Piece) (act : Action) : Prop :=
  ∀ p, act = .input p → k.addressesAndIdMatch p.hdr = true → Carries F p

variable {y z : Sys} {act : Action}

theorem step_collected (hF : Whole F) (hi : SysInv y xs) (hc : CollectedIn k F y.s xs)
    (hsafe : SafeStep y act z) (hfed : Fed k F act) (h : step y act = some z) :
    ∃ ws, SysInv z ws ∧ CollectedIn k F z.s ws := by
  cases act with
  | input p =>
    obtain ⟨ws, hws, heff⟩ := step_input hi hsafe h
    exact ⟨ws, hws, heff.collected hF hi.inv hc (hfed p rfl)⟩
  | tmr =>
    obtain ⟨ws, zs, rfl, hws, hlive, -⟩ := step_tmr hi h
    refine ⟨ws, hws, fun w hw hk => ?_⟩
    obtain ⟨-, heq⟩ := hlive w hw
    rw [heq] at hk ⊢
    obtain ⟨hsub, hlast, hlen⟩ := hc w (by simp [hw]) hk
    exact ⟨hsub, hlast, hlen⟩

theorem run_collected {as : List Action} (hF : Whole F) (ipr : Nat → Reassdata)
    (hsafe : EveryStep step SafeStep (Sys.init ipr) as) (hfed : ∀ act ∈ as, Fed k F act)
    (h : run step (Sys.init ipr) as = some y) : ∃ xs, SysInv y xs ∧ CollectedIn k F y.s xs := by
  refine run_invariant_under (I := fun y => ∃ xs, SysInv y xs ∧ CollectedIn k F y.s xs) ?_
    ⟨[], init_sysInv ipr, by simp [CollectedIn]⟩
    (everyStep_and.mpr ⟨hsafe, everyStep_of_forall (fun act hact _ _ => hfed act hact) _⟩) h
  rintro y act z ⟨xs, hi, hc⟩ hstep ⟨hsafe, hfed⟩
  exact step_collected hF hi hc hsafe hfed hstep

theorem ipReass_none
    (hdrop : ¬ (p.hdr.hl * 4 = ipHlen ∧ (s.makeRoom p.hdr (pbufClen p)).1 = true)) :
    (s.ipReass p).1 = none := by
  unfold ipReass
  dsimp only
  split
  · rfl
  · next hhl =>
    rcases hmr : s.makeRoom p.hdr (pbufClen p) with ⟨b, u⟩
    rw [hmr] at hdrop
    cases b with
    | false => rfl
    | true => exact absurd ⟨by simpa using hhl, rfl⟩ hdrop

theorem Effect.completes (hF : Whole F) (hi : Inv s xs) (hc : CollectedIn k F s xs)
    (hk : k.addressesAndIdMatch p.hdr = true) (hp : Carries F p)
    (he : Effect s xs p (s.ipReass p).1 t ws) :
    (pieces s k ≠ [] →
      ((s.ipReass p).1.isSome = true ↔
        p.hdr.hl * 4 = ipHlen ∧ (s.makeRoom p.hdr (pbufClen p)).1 = true ∧
          ∃ hole, Completes F (pieces s k) (newFrag p).piece hole)) ∧
      ∀ q ∈ (s.ipReass p).1, Headed F q ∧
        ∃ hole, Completes F (pieces s k) (newFrag p).piece hole ∧
          (q.data = wholeData F ↔ hole = []) := by
  rcases he with ⟨hnone, -, hroom⟩ | ⟨d, o, hb, ht, -⟩
  · rw [hnone]
    refine ⟨fun hcome => iff_of_false (by simp) ?_, by simp⟩
    rintro ⟨hhl, hok, -⟩
    rw [match_symm] at hk
    exact hcome (hi.pieces_nil ((hroom hhl hok).1.congr hk))
  · obtain ⟨hd, hpieces⟩ := hb.collected hk hc hi
    obtain ⟨-, hsome, hq⟩ := took_spec hF hd hp ht
    rw [hpieces]
    refine ⟨fun _ => ⟨fun h => ?_, fun h => hsome.mpr h.2.2⟩, hq⟩
    by_cases hok : p.hdr.hl * 4 = ipHlen ∧ (s.makeRoom p.hdr (pbufClen p)).1 = true
    · exact ⟨hok.1, hok.2, hsome.mp h⟩
    · rw [ipReass_none hok] at h
      cases h

/-- Which fragment completes its datagram, and what is returned then: the datagram, unless the
fragment came into a hole and left some of it open. -/
theorem completion {as : List Action} (hF : Whole F) (ipr : Nat → Reassdata)
    (hsafe : EveryStep step SafeStep (Sys.init ipr) as) (hfed : ∀ act ∈ as, Fed k F act)
    (h : run step (Sys.init ipr) as = some y) (hp : Carries F p)
    (hk : k.addressesAndIdMatch p.hdr = true) (hsafe' : Safe y.s p) :
    (pieces y.s k ≠ [] →
      ((y.s.ipReass p).1.isSome = true ↔
        p.hdr.hl * 4 = ipHlen ∧ (y.s.makeRoom p.hdr (pbufClen p)).1 = true ∧
          ∃ hole, Completes F (pieces y.s k) (newFrag p).piece hole)) ∧
      ∀ q ∈ (y.s.ipReass p).1, Headed F q ∧
        ∃ hole, Completes F (pieces y.s k) (newFrag p).piece hole ∧
          (q.data = wholeData F ↔ hole = []) := by
  obtain ⟨xs, hi, hc⟩ := run_collected hF ipr hsafe hfed h
  obtain ⟨ws, -, -, heff⟩ := ipReass_spec hi.inv p hsafe'
  exact heff.completes hF hi.inv hc hk hp

/-- Of four fragments, the third comes into the hole that the second leaves. -/
theorem completion_hole :
    let hdr : BitVec 16 → BitVec 16 → IpHdr := fun len off =>
      ⟨0x45, 0, len, 7, off, 63, 17, 0, 1, 2⟩
    let data : List Octet := [1, 2, 3, 4, 5, 6, 7, 8]
    let F : List Piece := [⟨0, 8, data⟩, ⟨8, 16, data⟩, ⟨16, 24, data⟩, ⟨24, 25, [9]⟩]
    let as : List Action := [.input ⟨[10], hdr 28 0x2000, data⟩, .input ⟨[13], hdr 21 3, [9]⟩]
    let p : Pbuf := ⟨[12], hdr 28 0x2002, data⟩
    ∃ y q, run step (Sys.init fun _ => freshDatagram (hdr 0 0)) as = some y ∧
      (y.s.ipReass p).1 = some q ∧ q.data ≠ wholeData F ∧ q.hdr.len.toNat = 45 := by
  intro hdr data F as p
  have hF : Whole F :=
    ⟨⟨by simp [F], by simp [F]⟩, by simp [F], by simp [F, data]⟩
  have hfed : ∀ act ∈ as, Fed (hdr 0 0) F act := by
    intro act hact f hf _
    simp only [as, List.mem_cons, List.not_mem_nil, or_false] at hact
    rcases hact with rfl | rfl <;> cases hf <;> exact ⟨by decide, by decide⟩
  have hsafe : EveryStep step SafeStep (Sys.init fun _ => freshDatagram (hdr 0 0)) as := by
    refine fun t ht => ⟨safe_of_room (by decide), fun u _ => ⟨?_, trivial⟩⟩
    cases ht
    exact safe_of_room (by decide +kernel)
  obtain ⟨y, hy⟩ : ∃ y, y = (run step (Sys.init fun _ => freshDatagram (hdr 0 0)) as).get
      (by decide +kernel) := ⟨_, rfl⟩
  have hrun : run step (Sys.init fun _ => freshDatagram (hdr 0 0)) as = some y := by
    rw [hy, Option.some_get]
  have hpieces : pieces y.s (hdr 0 0) = [⟨0, 8, data⟩, ⟨24, 25, [9]⟩] := by
    rw [hy]
    decide +kernel
  obtain ⟨hiff, hret⟩ := completion hF _ hsafe hfed hrun (p := p) ⟨by decide, by decide⟩ (by decide)
    (safe_of_room (by rw [hy]; decide +kernel))
  rw [hpieces] at hiff hret
  have hcome : Completes F [⟨0, 8, data⟩, ⟨24, 25, [9]⟩] (newFrag p).piece [⟨8, 16, data⟩] :=
    ⟨[⟨0, 8, data⟩], [⟨24, 25, [9]⟩], rfl, by decide, by simp⟩
  obtain ⟨q, hq⟩ := Option.isSome_iff_exists.mp
    ((hiff (by simp)).mpr ⟨by decide, by rw [hy]; decide +kernel, _, hcome⟩)
  obtain ⟨hhead, hole, hcomp, hdata⟩ := hret q hq
  refine ⟨y, q, hrun, hq, fun h => ?_, ?_⟩
  · cases (hcomp.nil_iff hcome).mp (hdata.mp h)
  · rw [hhead.len]
    rfl

/-- Each time a datagram `k` is returned, it is the one that was cut in `F`. -/
def RightStep (k : IpHdr) (F : List Piece) (y : Sys) (act : Action) (_ : Sys) : Prop :=
  ∀ p, act = .input p → k.addressesAndIdMatch p.hdr = true →
    ∀ q ∈ (y.s.ipReass p).1, q.data = wholeData F

/-- A fragment that completes the datagram `k` as far as the validation sees it, closes the hole
it comes into. -/
def ClosingStep (k : IpHdr) (F : List Piece) (y : Sys) (act : Action) (_ : Sys) : Prop :=
  ∀ p, act = .input p → k.addressesAndIdMatch p.hdr = true → p.hdr.hl * 4 = ipHlen →
    (y.s.makeRoom p.hdr (pbufClen p)).1 = true →
      ∀ hole, Completes F (pieces y.s k) (newFrag p).piece hole → hole = []

theorem rightStep_iff (hF : Whole F) (hi : SysInv y xs) (hc : CollectedIn k F y.s xs)
    (hsafe : SafeStep y act z) (hfed : Fed k F act) :
    RightStep k F y act z ↔ ClosingStep k F y act z := by
  cases act with
  | input p =>
    obtain ⟨ws, -, -, heff⟩ := ipReass_spec hi.inv p hsafe
    constructor
    · rintro hright q hq hk hhl hroom hole hcomp
      cases hq
      obtain ⟨hsome, hreturned⟩ := heff.completes hF hi.inv hc hk (hfed _ rfl hk)
      by_cases hnil : pieces y.s k = []
      · by_contra hne
        obtain ⟨l, r, hlr, -, hpos⟩ := hcomp
        rw [hnil] at hlr
        exact (hpos hne).1 (List.append_eq_nil_iff.mp hlr.symm).1
      · obtain ⟨q, hret⟩ := Option.isSome_iff_exists.mp ((hsome hnil).mpr ⟨hhl, hroom, hole, hcomp⟩)
        obtain ⟨-, hole', hcomp', hdata⟩ := hreturned q hret
        exact (hcomp.nil_iff hcomp').mpr (hdata.mp (hright p rfl hk q hret))
    · rintro hclose q hq hk r hret
      cases hq
      obtain ⟨-, hole, hcomp, hdata⟩ :=
        (heff.completes hF hi.inv hc hk (hfed _ rfl hk)).2 r hret
      rw [hdata]
      by_cases hok : p.hdr.hl * 4 = ipHlen ∧ (y.s.makeRoom p.hdr (pbufClen p)).1 = true
      · exact hclose p rfl hk hok.1 hok.2 hole hcomp
      · rw [ipReass_none hok] at hret
        cases hret
  | tmr => simp [RightStep, ClosingStep]

/-- In a run, the datagram `k` is always returned as it was sent exactly if each fragment of it that
seems to complete it closes the hole it comes into. -/
theorem right_iff {as : List Action} (hF : Whole F) (ipr : Nat → Reassdata)
    (hsafe : EveryStep step SafeStep (Sys.init ipr) as) (hfed : ∀ act ∈ as, Fed k F act) :
    EveryStep step (RightStep k F) (Sys.init ipr) as ↔
      EveryStep step (ClosingStep k F) (Sys.init ipr) as := by
  let Q : Sys → Action → Sys → Prop := fun y act z => SafeStep y act z ∧ Fed k F act
  have hQ : EveryStep step Q (Sys.init ipr) as :=
    everyStep_and.mpr ⟨hsafe, everyStep_of_forall (fun act hact _ _ => hfed act hact) _⟩
  have hboth : EveryStep step (fun y act z => RightStep k F y act z ∧ Q y act z) (Sys.init ipr) as ↔
      EveryStep step (fun y act z => ClosingStep k F y act z ∧ Q y act z) (Sys.init ipr) as := by
    refine everyStep_congr (I := fun y => ∃ xs, SysInv y xs ∧ CollectedIn k F y.s xs) ?_ ?_ as
      ⟨[], init_sysInv ipr, by simp [CollectedIn]⟩
    · rintro y act z ⟨xs, hi, hc⟩ -
      exact and_congr_left fun hq => rightStep_iff hF hi hc hq.1 hq.2
    · rintro y act z ⟨xs, hi, hc⟩ hstep ⟨-, hsafe, hfed⟩
      exact step_collected hF hi hc hsafe hfed hstep
  exact ⟨fun h => (everyStep_and.mp (hboth.mp (everyStep_and.mpr ⟨h, hQ⟩))).1,
    fun h => (everyStep_and.mp (hboth.mpr (everyStep_and.mpr ⟨h, hQ⟩))).1⟩

theorem right_iff_two :
    let hdr : BitVec 16 → BitVec 16 → IpHdr := fun len off =>
      ⟨0x45, 0, len, 7, off, 63, 17, 0, 1, 2⟩
    let data : List Octet := [1, 2, 3, 4, 5, 6, 7, 8]
    let as : List Action := [.input ⟨[11], hdr 21 1, [9]⟩, .input ⟨[10], hdr 28 0x2000, data⟩]
    EveryStep step (RightStep (hdr 0 0) [⟨0, 8, data⟩, ⟨8, 9, [9]⟩])
        (Sys.init fun _ => freshDatagram (hdr 0 0)) as ↔
      EveryStep step (ClosingStep (hdr 0 0) [⟨0, 8, data⟩, ⟨8, 9, [9]⟩])
        (Sys.init fun _ => freshDatagram (hdr 0 0)) as := by
  intro hdr data as
  refine right_iff ⟨⟨by simp, by simp⟩, by simp, by simp [data]⟩ _ ?_ ?_
  · refine fun t ht => ⟨safe_of_room (by decide), fun u _ => ⟨?_, trivial⟩⟩
    cases ht
    exact safe_of_room (by decide +kernel)
  · intro act hact f hf _
    simp only [as, List.mem_cons, List.not_mem_nil, or_false] at hact
    rcases hact with rfl | rfl <;> cases hf <;> exact ⟨by decide, by decide⟩

end FreeLwip.Ip.Reass
