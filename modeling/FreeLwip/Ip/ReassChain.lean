import FreeLwip.Lib.Pieces
import FreeLwip.Ip.Reass

/-!
# The fragments of one datagram

What `ip_reass_chain_frag_into_datagram_and_validate` makes of the fragments of a datagram that
come in any order, some of them again.
-/

namespace FreeLwip.Ip.Reass

open InetChksum Pieces State

/-- What a fragment carries, whichever pbufs it came in. -/
structure Piece where
  start : Nat
  stop : Nat
  data : List Octet
  deriving DecidableEq, Repr

def Frag.piece (f : Frag) : Piece := { start := f.start, stop := f.stop, data := f.p.data }

abbrev AdjoinedFrags : List Frag → Prop := Adjoined Frag.start Frag.stop

theorem adjoined_pieces {c : List Frag} :
    Adjoined Piece.start Piece.stop (c.map Frag.piece) ↔ AdjoinedFrags c := by
  unfold AdjoinedFrags Adjoined
  rw [List.isChain_map]
  exact Iff.rfl

theorem noHoles_iff (f : Frag) (c : List Frag) : noHoles f c = true ↔ AdjoinedFrags (f :: c) := by
  induction c generalizing f with
  | nil => simp [noHoles]
  | cons g c ih => simp [noHoles, ih]

/-! ## The loop -/

theorem insertFrag_spec (new : Frag) (prev : Option Frag) (valid : Bool) (c : List Frag) :
    insertFrag new prev valid c = none ∨
      ∃ l r v, c = l ++ r ∧ insertFrag new prev valid c = some ⟨l ++ new :: r, r, v⟩ ∧
        (v = true ↔ valid = true ∧ AdjoinedFrags (prev.toList ++ l) ∧
          (r = [] → AdjoinedFrags (prev.toList ++ l ++ [new]))) ∧
        (∀ a ∈ l, a.start < new.start) ∧ ∀ b ∈ r.head?, new.start < b.start := by
  induction c generalizing prev valid with
  | nil =>
    right
    cases prev with
    | none => exact ⟨[], [], valid, rfl, rfl, by simp, by simp, by simp⟩
    | some prev =>
      refine ⟨[], [], _, rfl, rfl, ?_, by simp, by simp⟩
      split <;> simp_all
  | cons q c ih =>
    have hnext : ¬ new.start < q.start → new.start ≠ q.start →
        ∀ v', (v' = true ↔ valid = true ∧ AdjoinedFrags (prev.toList ++ [q])) →
        (insertFrag new (some q) v' c).map (fun r => { r with chain := q :: r.chain }) = none ∨
        ∃ l r v, q :: c = l ++ r ∧
          (insertFrag new (some q) v' c).map (fun r => { r with chain := q :: r.chain }) =
            some ⟨l ++ new :: r, r, v⟩ ∧
          (v = true ↔ valid = true ∧ AdjoinedFrags (prev.toList ++ l) ∧
            (r = [] → AdjoinedFrags (prev.toList ++ l ++ [new]))) ∧
          (∀ a ∈ l, a.start < new.start) ∧ ∀ b ∈ r.head?, new.start < b.start := by
      intro hlt hne v' hv'
      rcases ih (some q) v' with hnone | ⟨l, r, v, rfl, hsome, hv, hl, hr⟩
      · exact .inl (by rw [hnone]; rfl)
      · refine .inr ⟨q :: l, r, v, rfl, by rw [hsome]; rfl, ?_, ?_, hr⟩
        · rw [hv, hv']
          cases prev with
          | none => simp
          | some prev =>
            simp [and_assoc]
            tauto
        · exact List.forall_mem_cons.mpr ⟨by omega, hl⟩
    cases prev with
    | none =>
      rw [insertFrag]
      split
      · next hlt => exact .inr ⟨[], q :: c, valid, rfl, rfl, by simp, by simp, by simpa using hlt⟩
      split
      · exact .inl rfl
      split
      · exact .inl rfl
      · next hlt hne _ => exact hnext hlt hne valid (by simp)
    | some prev =>
      rw [insertFrag]
      split
      · next hlt =>
        split
        · exact .inl rfl
        · exact .inr ⟨[], q :: c, valid, rfl, rfl, by simp, by simp, by simpa using hlt⟩
      split
      · exact .inl rfl
      split
      · exact .inl rfl
      · next hlt hne _ =>
        refine hnext hlt hne _ ?_
        split <;> simp_all

theorem insertFrag_of_mem {new q : Frag} {c : List Frag} (hq : q ∈ c) (heq : q.start = new.start)
    (hsorted : c.Pairwise fun a b => a.start < b.start) (prev : Option Frag) (valid : Bool) :
    insertFrag new prev valid c = none := by
  rcases insertFrag_spec new prev valid c with hnone | ⟨l, r, v, rfl, -, -, hl, hr⟩
  · exact hnone
  · rcases List.mem_append.mp hq with hq | hq
    · have := hl q hq
      omega
    · cases r with
      | nil => cases hq
      | cons b r =>
        have hb := hr b rfl
        have hpair := List.pairwise_cons.mp (List.pairwise_append.mp hsorted).2.1
        rcases List.mem_cons.mp hq with rfl | hq
        · omega
        · have := hpair.1 q hq
          omega

theorem insertFrag_ne_none {new : Frag} {c : List Frag}
    (hc : ∀ q ∈ c, (q.start < new.start ∧ q.stop ≤ new.start) ∨
      (new.start < q.start ∧ new.stop ≤ q.start))
    {prev : Option Frag} (hprev : ∀ q ∈ prev, q.stop ≤ new.start) (valid : Bool) :
    insertFrag new prev valid c ≠ none := by
  induction c generalizing prev valid with
  | nil => cases prev <;> simp [insertFrag]
  | cons q c ih =>
    rw [List.forall_mem_cons] at hc
    have hrest : ∀ v, q.stop ≤ new.start → (insertFrag new (some q) v c).map
        (fun r => { r with chain := q :: r.chain }) ≠ none := fun v hq => by
      rw [ne_eq, Option.map_eq_none_iff]
      exact ih hc.2 (by simpa using hq) v
    cases prev with
    | none =>
      rw [insertFrag]
      split
      · simp
      · rw [if_neg (by omega), if_neg (by omega)]
        exact hrest _ (by omega)
    | some prev =>
      have hle : prev.stop ≤ new.start := hprev prev rfl
      rw [insertFrag]
      split
      · rw [if_neg (by omega)]
        simp
      · rw [if_neg (by omega), if_neg (by omega)]
        exact hrest _ (by omega)

/-! ## A datagram and its fragments -/

/-- A datagram that was cut in pieces. -/
structure Whole (F : List Piece) : Prop where
  row : Row Piece.start Piece.stop F
  zero : ∀ a ∈ F.head?, a.start = 0
  data : ∀ a ∈ F, a.data.length = a.stop - a.start

/-- The fragments that have come: some of the pieces, in their order. -/
structure Collected (F : List Piece) (d : Reassdata) : Prop where
  sub : (d.p.map Frag.piece).Sublist F
  lastfrag : d.lastfrag = true ↔ ∃ a ∈ F.getLast?, a ∈ d.p.map Frag.piece
  len : d.lastfrag = true → ∀ a ∈ F.getLast?, d.datagramLen = a.stop

/-- A fragment with one of the pieces, and marked as the last one if it is that. -/
structure Carries (F : List Piece) (p : Pbuf) : Prop where
  mem : (newFrag p).piece ∈ F
  last : p.hdr.moreFragments = false ↔ F.getLast? = some (newFrag p).piece

/-- With `a`, the pieces `c` are all of `F` but for a hole. It is in front of `a`, and neither at
the beginning nor at the end. -/
def Completes (F c : List Piece) (a : Piece) (hole : List Piece) : Prop :=
  ∃ l r, c = l ++ r ∧ F = l ++ hole ++ a :: r ∧ (hole ≠ [] → l ≠ [] ∧ r ≠ [])

variable {F : List Piece} {d : Reassdata} {p : Pbuf}

theorem Whole.pairwise_lt (hF : Whole F) : F.Pairwise fun a b => a.start < b.start := by
  refine hF.row.pairwise.imp_of_mem fun ha _ hab => ?_
  have := hF.row.nonempty _ ha
  omega

/-- What the validation says of `l ++ new :: r`: only in front of `new` can something be missing. -/
theorem complete_iff (hF : Whole F) {new : Frag} {l r : List Frag} {A B : List Piece}
    (hAB : F = A ++ new.piece :: B) (hl : (l.map Frag.piece).Sublist A)
    (hr : (r.map Frag.piece).Sublist B) :
    ((∃ a ∈ F.getLast?, a = new.piece ∨ a ∈ l.map Frag.piece ++ r.map Frag.piece) ∧
      (AdjoinedFrags l ∧ (r = [] → AdjoinedFrags (l ++ [new]))) ∧
      (l ++ new :: r).head?.map Frag.start = some 0 ∧ AdjoinedFrags (new :: r)) ↔
      ∃ hole, F = l.map Frag.piece ++ hole ++ new.piece :: r.map Frag.piece ∧
        (hole ≠ [] → l ≠ [] ∧ r ≠ []) := by
  subst hAB
  have hrow := hF.row
  constructor
  · rintro ⟨⟨a, ha, hmem⟩, ⟨hjl, hend⟩, hzero, hjr⟩
    rw [List.getLast?_eq_some_getLast (by simp), Option.mem_some_iff] at ha
    have hlast : (A ++ new.piece :: B).getLast (by simp) ∈ new.piece :: r.map Frag.piece := by
      rw [ha]
      have hxB : a ∈ new.piece :: B := by
        have hne : new.piece :: B ≠ [] := List.cons_ne_nil _ _
        rw [← ha, List.getLast_append_of_ne_nil _ hne]
        exact List.getLast_mem hne
      rcases hmem with rfl | hmem
      · simp
      rcases List.mem_append.mp hmem with hmem | hmem
      · -- the last piece is not in front of the new one
        have hlt := hrow.start_lt (hl.subset hmem)
        rcases List.mem_cons.mp hxB with rfl | hB
        · omega
        · have := hrow.lt_start hB
          omega
      · simp [hmem]
    obtain ⟨hrB, hole, hA, hne⟩ := hrow.exists_hole hl hr (adjoined_pieces.mpr hjl)
      (by rw [← List.map_cons]; exact adjoined_pieces.mpr hjr) hlast
      (fun a ha b hb => by
        rw [hF.zero a ha]
        cases l with
        | nil =>
          cases hb
          simpa [Frag.piece] using hzero
        | cons q l =>
          cases hb
          simpa [Frag.piece] using hzero)
      (fun hnil => by
        have := hend (by simpa using hnil)
        simpa using adjoined_pieces.mpr this)
    refine ⟨hole, by rw [hA, hrB], fun h => ?_⟩
    have := hne h
    exact ⟨by simpa using this.1, by simpa using this.2⟩
  · rintro ⟨hole, heq, hne⟩
    rw [heq] at hrow ⊢
    have hzero := hF.zero
    rw [heq] at hzero
    refine ⟨⟨(new.piece :: r.map Frag.piece).getLast (by simp), ?_, ?_⟩, ⟨?_, fun hnil => ?_⟩,
      ?_, ?_⟩
    · rw [List.getLast?_append, List.getLast?_eq_some_getLast (List.cons_ne_nil _ _)]
      simp
    · rcases List.mem_cons.mp (List.getLast_mem (List.cons_ne_nil new.piece (r.map Frag.piece)))
        with h | h
      · exact .inl h
      · exact .inr (List.mem_append_right _ h)
    · exact adjoined_pieces.mp hrow.append_left.append_left.joined
    · have hhole : hole = [] := by
        by_contra h
        exact (hne h).2 hnil
      subst hnil hhole
      apply adjoined_pieces.mp
      simpa using hrow.joined
    · cases l with
      | nil =>
        have hhole : hole = [] := by
          by_contra h
          exact (hne h).1 rfl
        subst hhole
        simpa [Frag.piece] using hzero
      | cons q l => simpa [Frag.piece] using hzero
    · apply adjoined_pieces.mp
      simpa using hrow.append_right.joined

theorem chainFrag_of_mem (hF : Whole F) (hsub : (d.p.map Frag.piece).Sublist F)
    (hp : (newFrag p).piece ∈ d.p.map Frag.piece) :
    chainFragIntoDatagramAndValidate d p = (none, false) := by
  obtain ⟨q, hq, heq⟩ := List.mem_map.mp hp
  have hstart : q.start = (newFrag p).start := congrArg Piece.start heq
  have hsorted : (d.p.map Frag.piece).Pairwise fun a b => a.start < b.start :=
    hF.pairwise_lt.sublist hsub
  rw [List.pairwise_map] at hsorted
  unfold chainFragIntoDatagramAndValidate
  rw [insertFrag_of_mem hq hstart hsorted]

theorem chainFrag_of_not_mem (hF : Whole F) (hsub : (d.p.map Frag.piece).Sublist F)
    (hp : (newFrag p).piece ∈ F) (hnot : (newFrag p).piece ∉ d.p.map Frag.piece)
    (hlast : d.lastfrag = true ↔
      ∃ a ∈ F.getLast?, a = (newFrag p).piece ∨ a ∈ d.p.map Frag.piece) :
    ∃ l r, d.p = l ++ r ∧
      (chainFragIntoDatagramAndValidate d p).1 = some (l ++ newFrag p :: r) ∧
      ((l ++ newFrag p :: r).map Frag.piece).Sublist F ∧
      ((chainFragIntoDatagramAndValidate d p).2 = true ↔
        ∃ hole, F = l.map Frag.piece ++ hole ++ (newFrag p).piece :: r.map Frag.piece ∧
          (hole ≠ [] → l ≠ [] ∧ r ≠ [])) := by
  set new := newFrag p with hnew
  obtain ⟨A, B, rfl⟩ := List.append_of_mem hp
  have hrow := hF.row
  have hsorted : (d.p.map Frag.piece).Pairwise fun a b => a.start < b.start :=
    hF.pairwise_lt.sublist hsub
  have hnone : insertFrag new none true d.p ≠ none := by
    refine insertFrag_ne_none (fun q hq => ?_) (by simp) true
    have hmem : q.piece ∈ d.p.map Frag.piece := List.mem_map_of_mem hq
    rcases List.mem_append.mp (hsub.subset hmem) with hA | hB
    · have hle := (List.pairwise_append.mp hrow.pairwise).2.2 _ hA new.piece (by simp)
      exact .inl ⟨hrow.start_lt hA, hle⟩
    · rcases List.mem_cons.mp hB with heq | hB
      · exact absurd (heq ▸ hmem) hnot
      · exact .inr ⟨hrow.lt_start hB, hrow.append_right.le_of_mem hB⟩
  rcases insertFrag_spec new none true d.p with h | ⟨l, r, v, hlr, hsome, hv, hl, hr⟩
  · exact absurd h hnone
  rw [hlr, List.map_append] at hsub hsorted hlast
  have hlA : (l.map Frag.piece).Sublist A :=
    hrow.sublist_left ((List.sublist_append_left _ _).trans hsub)
      (by simpa [Frag.piece] using hl)
  have hrB : (r.map Frag.piece).Sublist B := by
    refine hrow.sublist_right ((List.sublist_append_right _ _).trans hsub) fun b hb => ?_
    cases r with
    | nil => cases hb
    | cons q r =>
      have hq : new.start < q.start := hr q rfl
      have hpair := List.pairwise_cons.mp (List.pairwise_append.mp hsorted).2.1
      rcases List.mem_cons.mp hb with rfl | hb
      · exact hq
      · exact hq.trans (hpair.1 b hb)
  refine ⟨l, r, hlr, ?_, ?_, ?_⟩
  · unfold chainFragIntoDatagramAndValidate
    rw [← hnew, hsome]
  · rw [List.map_append, List.map_cons]
    exact hlA.append (hrB.cons_cons _)
  · unfold chainFragIntoDatagramAndValidate
    rw [← hnew, hsome]
    rw [← complete_iff hF rfl hlA hrB]
    simp only [Bool.and_eq_true, beq_iff_eq, noHoles_iff, hlast, hv, Option.toList_none,
      List.nil_append, true_and, and_assoc]

theorem noteLast_collected (hc : Collected F d) (hp : Carries F p) :
    let e := noteLast (adoptHdr d p.hdr) p.hdr
    e.p = d.p ∧
      (e.lastfrag = true ↔ ∃ a ∈ F.getLast?, a = (newFrag p).piece ∨ a ∈ d.p.map Frag.piece) ∧
      (e.lastfrag = true → ∀ a ∈ F.getLast?, e.datagramLen = a.stop) := by
  intro e
  have hadopt : (adoptHdr d p.hdr).p = d.p ∧ (adoptHdr d p.hdr).lastfrag = d.lastfrag ∧
      (adoptHdr d p.hdr).datagramLen = d.datagramLen := by
    unfold adoptHdr
    split <;> exact ⟨rfl, rfl, rfl⟩
  obtain ⟨hdp, hdl, hdn⟩ := hadopt
  by_cases hmf : p.hdr.moreFragments = true
  · have he : e = adoptHdr d p.hdr := by
      show noteLast _ _ = _
      rw [noteLast, if_pos hmf]
    rw [he, hdp, hdl, hdn]
    refine ⟨rfl, ?_, hc.len⟩
    rw [hc.lastfrag]
    constructor
    · rintro ⟨a, ha, hmem⟩
      exact ⟨a, ha, .inr hmem⟩
    · rintro ⟨a, ha, rfl | hmem⟩
      · have := hp.last.mpr ha
        rw [hmf] at this
        cases this
      · exact ⟨a, ha, hmem⟩
  · have hlast := hp.last.mp (by simpa using hmf)
    have he : e = { adoptHdr d p.hdr with
        lastfrag := true
        datagramLen := (p.hdr.fragOffset + p.hdr.dataLen) % 65536 } := by
      show noteLast _ _ = _
      rw [noteLast, if_neg hmf]
    rw [he, hlast]
    refine ⟨hdp, ⟨fun _ => ⟨_, rfl, .inl rfl⟩, fun _ => rfl⟩, fun _ a ha => ?_⟩
    cases ha
    rfl

theorem filter_start {l r : List Piece} {n : Nat} (hl : ∀ b ∈ l, b.start < n)
    (hr : ∀ b ∈ r, n < b.start) : (l ++ r).filter (fun b => b.start < n) = l := by
  rw [List.filter_append, List.filter_eq_self.mpr fun b hb => decide_eq_true (hl b hb),
    List.filter_eq_nil_iff.mpr, List.append_nil]
  intro b hb
  have := hr b hb
  simp only [decide_eq_true_eq]
  omega

theorem completes_iff (hF : Whole F) {l r : List Piece} (hole : List Piece) {a : Piece}
    (hl : ∀ b ∈ l, b.start < a.start) (hr : ∀ b ∈ r, a.start < b.start) :
    Completes F (l ++ r) a hole ↔ F = l ++ hole ++ a :: r ∧ (hole ≠ [] → l ≠ [] ∧ r ≠ []) := by
  constructor
  · rintro ⟨l', r', hlr, hF', hne⟩
    have hrow := hF.row
    rw [hF'] at hrow
    have hl' : ∀ b ∈ l', b.start < a.start := fun b hb =>
      hrow.start_lt (List.mem_append_left _ hb)
    have hr' : ∀ b ∈ r', a.start < b.start := fun b hb => hrow.lt_start hb
    obtain rfl : l = l' := by
      rw [← filter_start hl hr, hlr, filter_start hl' hr']
    obtain rfl := List.append_cancel_left hlr
    exact ⟨hF', hne⟩
  · rintro ⟨hF, hne⟩
    exact ⟨l, r, rfl, hF, hne⟩

end FreeLwip.Ip.Reass
