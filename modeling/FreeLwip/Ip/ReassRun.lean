import FreeLwip.Ip.ReassQueue

/-!
# Runs of the reassembly

Fragments come from `ip_input` in any order, and the timer runs in between.
-/

namespace FreeLwip.Ip.Reass

open Run Singly State

structure Sys where
  s : State
  /-- The pbufs that came in. -/
  given : List Nat
  /-- What `ip_reass` returned. -/
  out : List Pbuf

inductive Action where
  | input (p : Pbuf)
  | tmr

def Sys.init (ipr : Nat → Reassdata) : Sys := { s := State.init ipr, given := [], out := [] }

def step (y : Sys) : Action → Option Sys
  | .input p =>
    let (r, s) := y.s.ipReass p
    some { s := s, given := p.chain ++ y.given, out := r.toList ++ y.out }
  | .tmr => some { y with s := y.s.ipReassTmr }

def SafeStep (y : Sys) (act : Action) (_ : Sys) : Prop :=
  match act with
  | .input p => Safe y.s p
  | .tmr => True

/-- What `ip_reass` evicts for a fragment leaves the list intact: to make room, and for a new
datagram when the pool is empty. -/
def IntactStep (y : Sys) (act : Action) (_ : Sys) : Prop :=
  match act with
  | .input p => p.hdr.hl * 4 = ipHlen →
      (ipReassMaxPbufs < y.s.pbufcount + pbufClen p →
        RoundsIntact p.hdr (pbufClen p) mempNumReassdata y.s 0) ∧
      ∀ u, y.s.makeRoom p.hdr (pbufClen p) = (true, u) →
        (u.findDatagram p.hdr none u.datagrams).1 = none → (u.newDatagram p.hdr).1 = none →
        RoundsIntact p.hdr (pbufClen p) mempNumReassdata u 0
  | .tmr => True

structure SysInv (y : Sys) (xs : List Nat) : Prop where
  inv : Inv y.s xs
  conserved : (y.s.freed ++ queued y.s xs ++ y.out.flatMap Pbuf.chain).Perm y.given

theorem init_sysInv (ipr : Nat → Reassdata) : SysInv (Sys.init ipr) [] where
  inv := init_inv ipr
  conserved := .refl _

variable {y z : Sys} {act : Action} {xs : List Nat}

theorem returned_toList (r : Option Pbuf) : r.toList.flatMap Pbuf.chain = returned r := by
  cases r <;> simp [returned]

theorem step_input (hi : SysInv y xs) {p : Pbuf} (hsafe : Safe y.s p)
    (h : step y (.input p) = some z) :
    ∃ ws, SysInv z ws ∧ Effect y.s xs p (y.s.ipReass p).1 z.s ws := by
  obtain ⟨ws, hinv, hcons, heff⟩ := ipReass_spec hi.inv p hsafe
  cases h
  refine ⟨ws, ⟨hinv, ?_⟩, heff⟩
  have hgiven := hi.conserved
  unfold Conserves at hcons
  dsimp only
  rw [List.flatMap_append, returned_toList, ← List.append_assoc]
  refine (hcons.append_right _).trans ?_
  rw [List.append_assoc]
  exact hgiven.append_left p.chain

theorem step_tmr (hi : SysInv y xs) (h : step y .tmr = some z) :
    ∃ ws zs, xs = ws ++ zs ∧ SysInv z ws ∧
      (∀ x ∈ ws, 0 < (y.s.ipr x).timer ∧
        z.s.ipr x = { y.s.ipr x with timer := (y.s.ipr x).timer - 1 }) ∧
      ∀ x ∈ zs, (y.s.ipr x).timer = 0 := by
  obtain ⟨ws, zs, hxs, hinv, hws, hzs, hperm⟩ := ipReassTmr_spec hi.inv
  cases h
  exact ⟨ws, zs, hxs, ⟨hinv, (hperm.append_right _).trans hi.conserved⟩, hws, hzs⟩

theorem step_sysInv (hi : SysInv y xs) (hsafe : SafeStep y act z) (h : step y act = some z) :
    ∃ ws, SysInv z ws := by
  cases act with
  | input p =>
    obtain ⟨ws, hws, -⟩ := step_input hi hsafe h
    exact ⟨ws, hws⟩
  | tmr =>
    obtain ⟨ws, -, -, hws, -⟩ := step_tmr hi h
    exact ⟨ws, hws⟩

theorem run_sysInv {as : List Action} (hi : SysInv y xs) (hsafe : EveryStep step SafeStep y as)
    (h : run step y as = some z) : ∃ ws, SysInv z ws := by
  refine run_invariant_under (I := fun y => ∃ xs, SysInv y xs) ?_ ⟨xs, hi⟩ hsafe h
  rintro s act t ⟨vs, hi⟩ hstep hsafe
  exact step_sysInv hi hsafe hstep

/-- Every pbuf that came in is freed, waits in a datagram of the list, or was returned, and that
once; the pbufs that wait are counted, and are at most `IP_REASS_MAX_PBUFS`. -/
theorem pbufs_conserved (ipr : Nat → Reassdata) (as : List Action)
    (hsafe : EveryStep step SafeStep (Sys.init ipr) as)
    (h : run step (Sys.init ipr) as = some z) :
    ∃ xs, z.s.reassdatagrams.Holds xs ∧ (xs ++ z.s.pool).Perm (List.range mempNumReassdata) ∧
      (xs.Pairwise fun a b =>
        (z.s.ipr a).iphdr.addressesAndIdMatch (z.s.ipr b).iphdr = false) ∧
      z.s.pbufcount = clens z.s xs ∧ z.s.pbufcount ≤ ipReassMaxPbufs ∧
      (z.s.freed ++ queued z.s xs ++ z.out.flatMap Pbuf.chain).Perm z.given := by
  obtain ⟨xs, hinv, hcons⟩ := run_sysInv (init_sysInv ipr) hsafe h
  exact ⟨xs, hinv.holds, hinv.pool, hinv.keys, hinv.count, hinv.max, hcons⟩

theorem safe_of_room {s : State} {p : Pbuf} (h : s.pbufcount + pbufClen p ≤ ipReassMaxPbufs) :
    Safe s p := fun _ hfull => absurd hfull (Nat.not_lt.mpr h)

theorem pbufs_conserved_two :
    let hdr : BitVec 16 → IpHdr := fun off => ⟨0x45, 0, 28, 7, off, 63, 17, 0, 1, 2⟩
    let as : List Action := [.input ⟨[10, 11], hdr 0x2000, [1, 2, 3, 4, 5, 6, 7, 8]⟩,
      .input ⟨[12], hdr 0x2000, [1, 2, 3, 4, 5, 6, 7, 8]⟩]
    ∃ z xs, run step (Sys.init fun _ => freshDatagram (hdr 0)) as = some z ∧
      z.s.reassdatagrams.Holds xs ∧ z.s.pbufcount = clens z.s xs ∧
      (z.s.freed ++ queued z.s xs ++ z.out.flatMap Pbuf.chain).Perm [12, 10, 11] := by
  intro hdr as
  have hsafe : EveryStep step SafeStep (Sys.init fun _ => freshDatagram (hdr 0)) as := by
    refine fun t ht => ⟨safe_of_room (by decide), fun u _ => ⟨?_, trivial⟩⟩
    cases ht
    exact safe_of_room (by decide +kernel)
  obtain ⟨xs, hholds, -, -, hcount, -, hperm⟩ := pbufs_conserved _ as hsafe rfl
  exact ⟨_, xs, rfl, hholds, hcount, hperm⟩

theorem enqueue_intact {u : State} {p : Pbuf} (hi : SysInv y xs)
    (hsafe : ipReassMaxPbufs < y.s.pbufcount + pbufClen p → Spares p.hdr (pbufClen p) 0 y.s xs)
    (hroom : y.s.makeRoom p.hdr (pbufClen p) = (true, u))
    (hnone : (u.findDatagram p.hdr none u.datagrams).1 = none) :
    RoundsIntact p.hdr (pbufClen p) mempNumReassdata u 0 := by
  obtain ⟨ys, n, hev, -⟩ := makeRoom_spec p.hdr (pbufClen p) hi.inv hsafe
  rw [hroom] at hev
  have hinv : Inv u ys := hev.inv
  rw [hinv.datagrams_eq] at hnone
  rw [removeOldestDatagram_intact_iff hinv]
  rcases findDatagram_spec u p.hdr none ys with ⟨hno, -⟩ | ⟨as, x, bs, -, -, hfind⟩
  · exact hno.spares
  · rw [hfind] at hnone
    cases hnone

theorem intactStep_iff (hi : SysInv y xs) (z : Sys) : IntactStep y act z ↔ SafeStep y act z := by
  cases act with
  | input p =>
    unfold IntactStep SafeStep Safe
    simp only [removeOldestDatagram_intact_iff hi.inv, hi.inv.datagrams_eq]
    refine forall_congr' fun _ => ⟨And.left, fun hsafe => ⟨hsafe, fun u hroom hnone _ => ?_⟩⟩
    exact enqueue_intact hi hsafe hroom hnone
  | tmr => exact Iff.rfl

/-- Over a run, the evictions leave the list intact exactly if, each time, the datagram of the
fragment is not at the end of the list with two others in front. -/
theorem evictions_intact_iff (ipr : Nat → Reassdata) (as : List Action) :
    EveryStep step IntactStep (Sys.init ipr) as ↔ EveryStep step SafeStep (Sys.init ipr) as := by
  refine everyStep_congr (I := fun y => ∃ xs, SysInv y xs) ?_ ?_ as ⟨[], init_sysInv ipr⟩
  · rintro y act z ⟨xs, hi⟩ -
    exact intactStep_iff hi z
  · rintro y act z ⟨xs, hi⟩ hstep hintact
    exact step_sysInv hi ((intactStep_iff hi z).mp hintact) hstep

/-! ## Timing out -/

def isTmr : Action → Bool
  | .input _ => false
  | .tmr => true

variable {k : IpHdr}

/-- The datagrams `k` have had `n` calls of the timer, at least. -/
def Aged (k : IpHdr) (n : Nat) (s : State) (xs : List Nat) : Prop :=
  ∀ x ∈ xs, (s.ipr x).iphdr.addressesAndIdMatch k = true → (s.ipr x).timer + n ≤ ipReassMaxage

theorem step_aged {n : Nat} (hi : SysInv y xs) (ha : Aged k n y.s xs) (hsafe : SafeStep y act z)
    (hother : ∀ p, act = .input p → k.addressesAndIdMatch p.hdr = false)
    (h : step y act = some z) :
    ∃ ws, SysInv z ws ∧ Aged k (n + if isTmr act then 1 else 0) z.s ws := by
  cases act with
  | input p =>
    obtain ⟨ws, hws, heff⟩ := step_input hi hsafe h
    refine ⟨ws, hws, fun w hw hk => ?_⟩
    have hno := hother p rfl
    rcases heff with ⟨-, hsame, -⟩ | ⟨d, o, hb, ht, heff, -⟩
    · obtain ⟨hmem, heq⟩ := hsame w hw
      rw [heq] at hk ⊢
      exact ha w hmem hk
    · rcases heff w hw with ho | ⟨hmem, -, heq⟩
      · rw [ho] at ht
        rw [match_symm] at hk
        have hmatch := match_trans hk (ht.key hb)
        rw [hno] at hmatch
        cases hmatch
      · rw [heq] at hk ⊢
        exact ha w hmem hk
  | tmr =>
    obtain ⟨ws, zs, rfl, hws, hlive, -⟩ := step_tmr hi h
    refine ⟨ws, hws, fun w hw hk => ?_⟩
    obtain ⟨hpos, heq⟩ := hlive w hw
    rw [heq] at hk ⊢
    have hle := ha w (by simp [hw]) hk
    simp only [isTmr, if_true]
    omega

theorem run_aged {n : Nat} {as : List Action} (hi : SysInv y xs) (ha : Aged k n y.s xs)
    (hsafe : EveryStep step SafeStep y as)
    (hother : ∀ p, .input p ∈ as → k.addressesAndIdMatch p.hdr = false)
    (h : run step y as = some z) :
    ∃ ws, SysInv z ws ∧ Aged k (n + as.countP isTmr) z.s ws := by
  induction as generalizing y xs n with
  | nil =>
    cases h
    exact ⟨xs, hi, ha⟩
  | cons act as ih =>
    obtain ⟨u, hu, hrest⟩ := run_cons_some.mp h
    obtain ⟨hsafe₁, hsafe₂⟩ := hsafe u hu
    obtain ⟨vs, hvs, haged⟩ := step_aged hi ha hsafe₁ (fun p hp => hother p (by simp [hp])) hu
    obtain ⟨ws, hws, haged'⟩ := ih hvs haged hsafe₂ (fun p hp => hother p (by simp [hp])) hrest
    refine ⟨ws, hws, ?_⟩
    rw [List.countP_cons, Nat.add_comm (as.countP isTmr), ← Nat.add_assoc]
    exact haged'

/-- A datagram whose fragments stop coming is gone after more calls of the timer than
`IP_REASS_MAXAGE`, whatever else comes. -/
theorem incomplete_expires (ipr : Nat → Reassdata) (as bs : List Action)
    (hsafe : EveryStep step SafeStep (Sys.init ipr) (as ++ bs))
    (hother : ∀ p, .input p ∈ bs → k.addressesAndIdMatch p.hdr = false)
    (hage : ipReassMaxage < bs.countP isTmr)
    (h : run step (Sys.init ipr) (as ++ bs) = some z) : NoMatch z.s k z.s.datagrams := by
  rw [run_append, Option.bind_eq_some_iff] at h
  obtain ⟨y, hy, hz⟩ := h
  obtain ⟨hsafe₁, hsafe₂⟩ := everyStep_append hsafe hy
  obtain ⟨xs, hi⟩ := run_sysInv (init_sysInv ipr) hsafe₁ hy
  obtain ⟨ws, hws, haged⟩ :=
    run_aged (n := 0) hi (fun x hx _ => hi.inv.maxage x hx) hsafe₂ hother hz
  rw [hws.inv.datagrams_eq]
  intro w hw
  by_contra hk
  have := haged w hw (by simpa using hk)
  omega

theorem incomplete_expires_one :
    let hdr : IpHdr := ⟨0x45, 0, 28, 7, 0x2000, 63, 17, 0, 1, 2⟩
    let as : List Action := [.input ⟨[10], hdr, [1, 2, 3, 4, 5, 6, 7, 8]⟩]
    ∃ z, run step (Sys.init fun _ => freshDatagram hdr) (as ++ [.tmr, .tmr, .tmr, .tmr]) = some z ∧
      NoMatch z.s hdr z.s.datagrams := by
  intro hdr as
  exact ⟨_, rfl, incomplete_expires _ as [.tmr, .tmr, .tmr, .tmr]
    (fun t _ => ⟨safe_of_room (by decide), fun _ _ => ⟨trivial, fun _ _ => ⟨trivial, fun _ _ =>
      ⟨trivial, fun _ _ => ⟨trivial, trivial⟩⟩⟩⟩⟩) (by simp) (by decide) rfl⟩

end FreeLwip.Ip.Reass
