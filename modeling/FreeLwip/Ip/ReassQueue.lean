import FreeLwip.Lib.Run
import FreeLwip.Ip.ReassChain

/-!
# The datagrams that are put together

The list of datagrams and what it holds, over whole runs.
-/

namespace FreeLwip.Ip.Reass

open Singly State

/-! ## Counting -/

def queued (s : State) : List Nat → List Nat
  | [] => []
  | x :: xs => chains (s.ipr x).p ++ queued s xs

def clens (s : State) : List Nat → Nat
  | [] => 0
  | x :: xs => clenSum (s.ipr x).p + clens s xs

theorem queued_append (s : State) (xs ys : List Nat) :
    queued s (xs ++ ys) = queued s xs ++ queued s ys := by
  induction xs with
  | nil => rfl
  | cons x xs ih => simp [queued, ih]

theorem clens_append (s : State) (xs ys : List Nat) :
    clens s (xs ++ ys) = clens s xs + clens s ys := by
  induction xs with
  | nil => simp [clens]
  | cons x xs ih => simp [clens, ih, Nat.add_assoc]

theorem queued_congr {s t : State} {xs : List Nat} (h : ∀ x ∈ xs, t.ipr x = s.ipr x) :
    queued t xs = queued s xs := by
  induction xs with
  | nil => rfl
  | cons x xs ih =>
    rw [List.forall_mem_cons] at h
    rw [queued, queued, h.1, ih h.2]

theorem clens_congr {s t : State} {xs : List Nat} (h : ∀ x ∈ xs, t.ipr x = s.ipr x) :
    clens t xs = clens s xs := by
  induction xs with
  | nil => rfl
  | cons x xs ih =>
    rw [List.forall_mem_cons] at h
    rw [clens, clens, h.1, ih h.2]

theorem clenSum_append (l r : List Frag) : clenSum (l ++ r) = clenSum l + clenSum r := by
  induction l with
  | nil => simp [clenSum]
  | cons f l ih => simp [clenSum, ih, Nat.add_assoc]

theorem chains_append (l r : List Frag) : chains (l ++ r) = chains l ++ chains r := by
  simp [chains]

theorem chains_length_mod (p : List Frag) : (chains p).length % 256 = clenSum p % 256 := by
  induction p with
  | nil => rfl
  | cons f p ih =>
    have hcons : chains (f :: p) = f.p.chain ++ chains p := rfl
    rw [hcons, clenSum, List.length_append, pbufClen]
    omega

/-! ## The invariant -/

structure Inv (s : State) (xs : List Nat) : Prop where
  holds : s.reassdatagrams.Holds xs
  pool : (xs ++ s.pool).Perm (List.range mempNumReassdata)
  timers : xs.Pairwise fun a b => (s.ipr b).timer ≤ (s.ipr a).timer
  maxage : ∀ x ∈ xs, (s.ipr x).timer ≤ ipReassMaxage
  keys : xs.Pairwise fun a b => (s.ipr a).iphdr.addressesAndIdMatch (s.ipr b).iphdr = false
  sorted : ∀ x ∈ xs, (s.ipr x).p.Pairwise fun a b => a.start < b.start
  count : s.pbufcount = clens s xs
  max : s.pbufcount ≤ ipReassMaxPbufs

theorem init_inv (ipr : Nat → Reassdata) : Inv (State.init ipr) [] where
  holds := ⟨rfl, .nil⟩
  pool := .refl _
  timers := .nil
  maxage := by simp
  keys := .nil
  sorted := by simp
  count := rfl
  max := Nat.zero_le _

variable {s t : State} {xs ys zs : List Nat} {x : Nat} {h : IpHdr}

theorem Inv.length_le (hi : Inv s xs) : xs.length ≤ mempNumReassdata := by
  have hlen := hi.pool.length_eq
  rw [List.length_append, List.length_range] at hlen
  omega

theorem Inv.datagrams_eq (hi : Inv s xs) : s.datagrams = xs :=
  hi.holds.segment.walk_eq hi.length_le

theorem match_symm (a b : IpHdr) : a.addressesAndIdMatch b = b.addressesAndIdMatch a := by
  have hcomm : ∀ {α : Type} [DecidableEq α] (x y : α), (x == y) = (y == x) := fun x y => by
    rw [Bool.eq_iff_iff, beq_iff_eq, beq_iff_eq, eq_comm]
  simp only [IpHdr.addressesAndIdMatch, ipAddrCmp, hcomm a.src, hcomm a.dest, hcomm a.id]

theorem match_trans {a b c : IpHdr} (hab : a.addressesAndIdMatch b = true)
    (hbc : b.addressesAndIdMatch c = true) : a.addressesAndIdMatch c = true := by
  simp only [IpHdr.addressesAndIdMatch, ipAddrCmp, Bool.and_eq_true, beq_iff_eq] at *
  simp [hab, hbc]

/-! ## Changes of one datagram -/

theorem Inv.not_mem (hi : Inv s (ys ++ x :: zs)) : x ∉ ys ∧ x ∉ zs := by
  have hx := (List.nodup_cons.mp (List.perm_middle.nodup_iff.mp hi.holds.nodup)).1
  rw [List.mem_append, not_or] at hx
  exact hx

theorem Inv.dequeue (hi : Inv s (ys ++ x :: zs))
    (hl : t.reassdatagrams = (s.dequeueDatagram x ys.getLast?).reassdatagrams)
    (hp : t.pool = x :: s.pool) (hipr : t.ipr = s.ipr)
    (hc : t.pbufcount + clenSum (s.ipr x).p = s.pbufcount) :
    Inv t (ys ++ zs) := by
  have hsub : (ys ++ zs).Sublist (ys ++ x :: zs) :=
    (List.Sublist.refl ys).append (List.sublist_cons_self x zs)
  constructor
  case holds =>
    rw [hl]
    exact hi.holds.unlink.update_next (by simpa using hi.not_mem) _
  case pool =>
    rw [hp]
    refine List.Perm.trans ?_ hi.pool
    grind
  case timers =>
    rw [hipr]
    exact hi.timers.sublist hsub
  case maxage =>
    rw [hipr]
    exact fun y hy => hi.maxage y (hsub.subset hy)
  case keys =>
    rw [hipr]
    exact hi.keys.sublist hsub
  case sorted =>
    rw [hipr]
    exact fun y hy => hi.sorted y (hsub.subset hy)
  case count =>
    have hcount := hi.count
    rw [clens_append, clens] at hcount
    rw [clens_congr fun y _ => congrFun hipr y, clens_append]
    omega
  case max =>
    have := hi.max
    omega

theorem match_congr {a b : IpHdr} (hab : a.addressesAndIdMatch b = true) (c : IpHdr) :
    a.addressesAndIdMatch c = b.addressesAndIdMatch c := by
  rw [Bool.eq_iff_iff]
  exact ⟨match_trans (by rwa [match_symm]), match_trans hab⟩

theorem clens_update {d : Reassdata} (hx : x ∉ xs) (ht : t.ipr = Function.update s.ipr x d) :
    clens t xs = clens s xs := by
  refine clens_congr fun y hy => ?_
  have hne : y ≠ x := by
    rintro rfl
    exact hx hy
  rw [ht, Function.update_of_ne hne]

theorem queued_update {d : Reassdata} (hx : x ∉ xs) (ht : t.ipr = Function.update s.ipr x d) :
    queued t xs = queued s xs := by
  refine queued_congr fun y hy => ?_
  have hne : y ≠ x := by
    rintro rfl
    exact hx hy
  rw [ht, Function.update_of_ne hne]

theorem Inv.update (hi : Inv s (ys ++ x :: zs)) {d : Reassdata}
    (hl : t.reassdatagrams = s.reassdatagrams) (hp : t.pool = s.pool)
    (hipr : t.ipr = Function.update s.ipr x d) (htimer : d.timer = (s.ipr x).timer)
    (hkey : d.iphdr.addressesAndIdMatch (s.ipr x).iphdr = true)
    (hsorted : d.p.Pairwise fun a b => a.start < b.start)
    (hc : t.pbufcount + clenSum (s.ipr x).p = s.pbufcount + clenSum d.p)
    (hmax : t.pbufcount ≤ ipReassMaxPbufs) : Inv t (ys ++ x :: zs) := by
  have htimer' : ∀ y, (t.ipr y).timer = (s.ipr y).timer := fun y => by
    rw [hipr, Function.update_apply]
    split
    · next heq => rw [heq, htimer]
    · rfl
  have hkey' : ∀ a b, (t.ipr a).iphdr.addressesAndIdMatch (t.ipr b).iphdr =
      (s.ipr a).iphdr.addressesAndIdMatch (s.ipr b).iphdr := by
    have hleft : ∀ a c, (t.ipr a).iphdr.addressesAndIdMatch c =
        (s.ipr a).iphdr.addressesAndIdMatch c := fun a c => by
      rw [hipr, Function.update_apply]
      split
      · next heq => rw [heq, match_congr hkey]
      · rfl
    intro a b
    rw [hleft, match_symm, hleft, match_symm]
  constructor
  case holds =>
    rw [hl]
    exact hi.holds
  case pool =>
    rw [hp]
    exact hi.pool
  case timers =>
    simp only [htimer']
    exact hi.timers
  case maxage =>
    simp only [htimer']
    exact hi.maxage
  case keys =>
    simp only [hkey']
    exact hi.keys
  case sorted =>
    intro y hy
    rw [hipr, Function.update_apply]
    split
    · exact hsorted
    · exact hi.sorted y hy
  case count =>
    have hcount := hi.count
    obtain ⟨hys, hzs⟩ := hi.not_mem
    rw [clens_append, clens] at hcount ⊢
    rw [clens_update hys hipr, clens_update hzs hipr, hipr, Function.update_self]
    omega
  case max => exact hmax

theorem freeComplete_spec (hi : Inv s (ys ++ x :: zs)) :
    Inv (s.freeCompleteDatagram x ys.getLast?).2 (ys ++ zs) ∧
      (s.freeCompleteDatagram x ys.getLast?).1 = clenSum (s.ipr x).p ∧
      (s.freeCompleteDatagram x ys.getLast?).2.ipr = s.ipr ∧
      (s.freeCompleteDatagram x ys.getLast?).2.freed = chains (s.ipr x).p ++ s.freed := by
  have hcount := hi.count
  have hmax := hi.max
  rw [clens_append, clens] at hcount
  unfold ipReassMaxPbufs at hmax
  have hle : clenSum (s.ipr x).p % 65536 = clenSum (s.ipr x).p := by omega
  have hpbuf : (s.freeCompleteDatagram x ys.getLast?).2.pbufcount =
      (s.pbufcount + 65536 - clenSum (s.ipr x).p % 65536) % 65536 := rfl
  exact ⟨hi.dequeue rfl rfl rfl (by rw [hpbuf, hle]; omega), hle, rfl, rfl⟩

/-! ## Freeing the oldest -/

/-- The datagrams that `fraghdr` does not belong to. -/
def others (s : State) (fraghdr : IpHdr) (xs : List Nat) : List Nat :=
  xs.filter fun x => !(s.ipr x).iphdr.addressesAndIdMatch fraghdr

theorem others_append (s : State) (fraghdr : IpHdr) (xs ys : List Nat) :
    others s fraghdr (xs ++ ys) = others s fraghdr xs ++ others s fraghdr ys :=
  List.filter_append ..

theorem others_singleton (s : State) (fraghdr : IpHdr) (x : Nat) : others s fraghdr [x] =
    if (s.ipr x).iphdr.addressesAndIdMatch fraghdr then [] else [x] := by
  unfold others
  by_cases hm : (s.ipr x).iphdr.addressesAndIdMatch fraghdr = true <;> simp [hm]

theorem scanStep_eq {s : State} {fraghdr : IpHdr} {acc : Scan} {z : Nat}
    (hold : ∀ o ∈ acc.oldest, (s.ipr z).timer ≤ (s.ipr o).timer) :
    s.scanStep fraghdr acc z =
      if (s.ipr z).iphdr.addressesAndIdMatch fraghdr then
        { acc with prev := if (s.reassdatagrams.next z).isSome then some z else acc.prev }
      else
        { oldest := some z
          prev := if (s.reassdatagrams.next z).isSome then some z else acc.prev
          otherDatagrams := acc.otherDatagrams + 1 } := by
  obtain ⟨oldest, prev, n⟩ := acc
  unfold scanStep
  cases oldest with
  | none => split_ifs <;> rfl
  | some o =>
    have hle : (s.ipr z).timer ≤ (s.ipr o).timer := hold o rfl
    simp only [hle, if_true]
    split_ifs <;> rfl

theorem scanStep_foldl (s : State) (fraghdr : IpHdr) (xs : List Nat)
    (htimers : xs.Pairwise fun a b => (s.ipr b).timer ≤ (s.ipr a).timer) :
    xs.foldl (s.scanStep fraghdr) ⟨none, none, 0⟩ =
      ⟨(others s fraghdr xs).getLast?,
        (xs.filter fun x => (s.reassdatagrams.next x).isSome).getLast?,
        (others s fraghdr xs).length⟩ := by
  induction xs using List.reverseRecOn with
  | nil => rfl
  | append_singleton xs z ih =>
    have hpair := List.pairwise_append.mp htimers
    rw [List.foldl_append, ih hpair.1, List.foldl_cons, List.foldl_nil, others_append,
      others_singleton, List.filter_append]
    -- the timers fall along the list, so each one is at least as old as the oldest in front of it
    rw [scanStep_eq fun o ho =>
      hpair.2.2 o (List.mem_of_mem_filter (List.mem_of_getLast? ho)) z (by simp)]
    by_cases hm : (s.ipr z).iphdr.addressesAndIdMatch fraghdr = true <;>
      by_cases hn : (s.reassdatagrams.next z).isSome = true <;> simp [hm, hn]

/-- What the scan finds: `prev` is always the one in front of the last. -/
theorem scan_spec (hholds : s.reassdatagrams.Holds xs) (hlen : xs.length ≤ mempNumReassdata)
    (htimers : xs.Pairwise fun a b => (s.ipr b).timer ≤ (s.ipr a).timer) (fraghdr : IpHdr) :
    s.scan fraghdr = ⟨(others s fraghdr xs).getLast?, xs.dropLast.getLast?,
      (others s fraghdr xs).length⟩ := by
  unfold scan datagrams
  rw [hholds.segment.walk_eq hlen, scanStep_foldl s fraghdr xs htimers]
  rcases List.eq_nil_or_concat xs with rfl | ⟨ys, z, rfl⟩
  · rfl
  · rw [List.concat_eq_append] at *
    obtain ⟨hys, hz⟩ := hholds.next_concat
    rw [List.filter_append, List.filter_eq_self.mpr (fun y hy => by simpa using hys y hy)]
    simp [hz]

/-- The datagrams `ys` are left of `xs`, and `freed` pbufs are free. -/
structure Evicted (fraghdr : IpHdr) (s t : State) (xs ys : List Nat) (freed : Nat) : Prop where
  inv : Inv t ys
  sub : ys.Sublist xs
  ipr : t.ipr = s.ipr
  own : ∀ x ∈ xs, (s.ipr x).iphdr.addressesAndIdMatch fraghdr = true → x ∈ ys
  perm : (t.freed ++ queued t ys).Perm (s.freed ++ queued s xs)
  count : t.pbufcount + freed = s.pbufcount

theorem Evicted.refl (hi : Inv s xs) (fraghdr : IpHdr) : Evicted fraghdr s s xs xs 0 :=
  ⟨hi, .refl _, rfl, fun _ hx _ => hx, .refl _, rfl⟩

theorem Evicted.trans {u : State} {n m : Nat} (h₁ : Evicted h s t xs ys n)
    (h₂ : Evicted h t u ys zs m) : Evicted h s u xs zs (n + m) where
  inv := h₂.inv
  sub := h₂.sub.trans h₁.sub
  ipr := h₂.ipr.trans h₁.ipr
  own := fun x hx hm => h₂.own x (h₁.own x hx hm) (by rw [h₁.ipr]; exact hm)
  perm := h₂.perm.trans h₁.perm
  count := by
    have := h₁.count
    have := h₂.count
    omega

theorem Evicted.pool_nil {n : Nat} (h₁ : Evicted h s t xs ys n) (hi : Inv s xs)
    (hpool : t.pool = []) : s.pool = [] := by
  have hs := hi.pool.length_eq
  have ht := h₁.inv.pool.length_eq
  have hle := h₁.sub.length_le
  rw [List.length_append, List.length_range] at hs ht
  rw [hpool, List.length_nil] at ht
  exact List.eq_nil_of_length_eq_zero (by omega)

theorem evict_one (hi : Inv s (ys ++ x :: zs))
    (hx : (s.ipr x).iphdr.addressesAndIdMatch h = false) :
    Evicted h s (s.freeCompleteDatagram x ys.getLast?).2 (ys ++ x :: zs) (ys ++ zs)
      (s.freeCompleteDatagram x ys.getLast?).1 := by
  obtain ⟨hinv, hn, hipr, hfreed⟩ := freeComplete_spec hi
  refine ⟨hinv, (List.Sublist.refl ys).append (List.sublist_cons_self x zs), hipr, ?_, ?_, ?_⟩
  · intro y hy hm
    have hne : y ≠ x := by
      rintro rfl
      rw [hx] at hm
      cases hm
    simp only [List.mem_append, List.mem_cons] at hy ⊢
    tauto
  · rw [hfreed, queued_append, queued_append, queued,
      queued_congr fun y _ => congrFun hipr y, queued_congr fun y _ => congrFun hipr y]
    grind
  · rw [hinv.count, hi.count, hn, clens_append, clens_append, clens,
      clens_congr fun y _ => congrFun hipr y, clens_congr fun y _ => congrFun hipr y]
    omega

theorem evict_last (hi : Inv s (ys ++ [x]))
    (hx : (s.ipr x).iphdr.addressesAndIdMatch h = false) :
    Evicted h s (s.freeCompleteDatagram x ys.getLast?).2 (ys ++ [x]) ys
      (s.freeCompleteDatagram x ys.getLast?).1 := by
  have hone := evict_one hi hx
  rwa [List.append_nil] at hone

/-- `ip_reass_remove_oldest_datagram` takes the datagram in front of the last one for the one in
front of the oldest. These differ when the last one is that of the fragment, and there are two
others in front of it when its turn comes. -/
def Spares (fraghdr : IpHdr) (pbufsNeeded pbufsFreed : Nat) (s : State) (xs : List Nat) : Prop :=
  ∀ ys m zs, xs = ys ++ m :: zs → (s.ipr m).iphdr.addressesAndIdMatch fraghdr = true →
    ys.length < 2 ∨ (zs ≠ [] ∧ pbufsNeeded ≤ pbufsFreed + clens s zs)

/-- No datagram in the list is that of the fragment. -/
def NoMatch (s : State) (fraghdr : IpHdr) (xs : List Nat) : Prop :=
  ∀ x ∈ xs, (s.ipr x).iphdr.addressesAndIdMatch fraghdr = false

theorem NoMatch.spares {needed f : Nat} (hno : NoMatch s h xs) : Spares h needed f s xs := by
  intro ys m zs heq hm
  rw [hno m (heq ▸ by simp)] at hm
  cases hm

theorem NoMatch.congr {k h : IpHdr} (hno : NoMatch s k xs) (hk : k.addressesAndIdMatch h = true) :
    NoMatch s h xs := by
  intro x hx
  have hcongr := match_congr hk (s.ipr x).iphdr
  rw [match_symm k, match_symm h, hno x hx] at hcongr
  exact hcongr.symm

theorem Inv.noMatch (hi : Inv s (ys ++ x :: zs))
    (hx : (s.ipr x).iphdr.addressesAndIdMatch h = true) : NoMatch s h (ys ++ zs) := by
  intro y hy
  by_contra hm
  have hxy : (s.ipr x).iphdr.addressesAndIdMatch (s.ipr y).iphdr = true :=
    match_trans hx (by rw [match_symm]; simpa using hm)
  have hkeys := List.pairwise_append.mp hi.keys
  rcases List.mem_append.mp hy with hy | hy
  · have := hkeys.2.2 y hy x (by simp)
    rw [match_symm, hxy] at this
    cases this
  · have := (List.pairwise_cons.mp hkeys.2.1).1 y hy
    rw [hxy] at this
    cases this

theorem Inv.others_eq (hi : Inv s (ys ++ x :: zs))
    (hx : (s.ipr x).iphdr.addressesAndIdMatch h = true) :
    others s h (ys ++ x :: zs) = ys ++ zs := by
  have hno := hi.noMatch hx
  have hcons : x :: zs = [x] ++ zs := rfl
  rw [hcons, others_append, others_append, others_singleton, if_pos hx, List.nil_append,
    ← others_append]
  exact List.filter_eq_self.mpr fun y hy => by simp [hno y hy]

/-- No datagram in the list has been given back to the pool. -/
def Intact (s : State) : Prop := ∃ xs, s.reassdatagrams.Holds xs ∧ ∀ x ∈ xs, x ∉ s.pool

theorem Inv.intact (hi : Inv s xs) : Intact s := by
  have hnodup := hi.pool.nodup_iff.mpr List.nodup_range
  exact ⟨xs, hi.holds, fun x hx hp => (List.nodup_append.mp hnodup).2.2 x hx x hp rfl⟩

/-- The list is intact after every round of `ip_reass_remove_oldest_datagram`. -/
def RoundsIntact (fraghdr : IpHdr) (pbufsNeeded : Nat) : Nat → State → Nat → Prop
  | 0, _, _ => True
  | fuel + 1, s, pbufsFreed =>
    Intact (s.freeOldest (s.scan fraghdr)).2 ∧
      (pbufsFreed + (s.freeOldest (s.scan fraghdr)).1 < pbufsNeeded ∧
          1 < (s.scan fraghdr).otherDatagrams →
        RoundsIntact fraghdr pbufsNeeded fuel (s.freeOldest (s.scan fraghdr)).2
          (pbufsFreed + (s.freeOldest (s.scan fraghdr)).1))

theorem removeOldestLoop_of_others_nil (hi : Inv s xs) (hoth : others s h xs = [])
    (needed fuel f : Nat) : removeOldestLoop h needed (fuel + 1) s f = (f, s) ∧
      RoundsIntact h needed (fuel + 1) s f := by
  rw [removeOldestLoop, RoundsIntact, scan_spec hi.holds hi.length_le hi.timers h, hoth]
  simp [freeOldest, hi.intact]

theorem freeOldest_last {z : Nat} (hi : Inv s (ys ++ [z]))
    (hz : (s.ipr z).iphdr.addressesAndIdMatch h = false) :
    s.freeOldest (s.scan h) = s.freeCompleteDatagram z ys.getLast? ∧
      (s.scan h).otherDatagrams = (others s h ys).length + 1 := by
  rw [scan_spec hi.holds hi.length_le hi.timers h, others_append, others_singleton,
    if_neg (by simp [hz]), List.getLast?_concat, List.dropLast_concat]
  exact ⟨rfl, List.length_append⟩

theorem removeOldestLoop_spec {needed fuel f : Nat} (hi : Inv s xs) (hfuel : xs.length ≤ fuel)
    (hsafe : Spares h needed f s xs) :
    ∃ ys n, (removeOldestLoop h needed fuel s f).1 = f + n ∧
      Evicted h s (removeOldestLoop h needed fuel s f).2 xs ys n ∧
      RoundsIntact h needed fuel s f := by
  induction fuel generalizing s xs f with
  | zero => exact ⟨xs, 0, rfl, .refl hi h, trivial⟩
  | succ fuel ih =>
    rcases List.eq_nil_or_concat xs with rfl | ⟨ys, z, rfl⟩
    · obtain ⟨hloop, hround⟩ := removeOldestLoop_of_others_nil (h := h) hi rfl needed fuel f
      rw [hloop]
      exact ⟨[], 0, rfl, .refl hi h, hround⟩
    rw [List.concat_eq_append] at *
    by_cases hz : (s.ipr z).iphdr.addressesAndIdMatch h = true
    · have hoth : others s h (ys ++ [z]) = ys := by
        rw [hi.others_eq hz, List.append_nil]
      have hlen : ys.length < 2 := by
        rcases hsafe ys z [] rfl hz with hlt | ⟨hne, -⟩
        · exact hlt
        · exact absurd rfl hne
      match ys, hlen with
      | [], _ =>
        obtain ⟨hloop, hround⟩ := removeOldestLoop_of_others_nil hi hoth needed fuel f
        rw [hloop]
        exact ⟨_, 0, rfl, .refl hi h, hround⟩
      | [b], _ =>
        have hb : (s.ipr b).iphdr.addressesAndIdMatch h = false := by
          have hmem : b ∈ others s h ([b] ++ [z]) := by
            rw [hoth]
            simp
          simpa using List.of_mem_filter hmem
        have hi' : Inv s ([] ++ b :: [z]) := hi
        have hone := evict_one hi' hb
        -- it is the first, and `prev` is not read
        have hprev : ∀ prev, s.freeCompleteDatagram b prev = s.freeCompleteDatagram b none := by
          have hhead : s.reassdatagrams.head = some b := hi.holds.segment.head_eq
          simp [freeCompleteDatagram, dequeueDatagram, SList.unlink, hhead]
        rw [removeOldestLoop, RoundsIntact, scan_spec hi.holds hi.length_le hi.timers h, hoth]
        simp only [freeOldest, List.getLast?_singleton, hprev (List.getLast? _),
          List.length_singleton]
        rw [if_neg (by omega)]
        exact ⟨[z], _, rfl, hone, hone.inv.intact, fun hcond => by omega⟩
    · have hz' : (s.ipr z).iphdr.addressesAndIdMatch h = false := by simpa using hz
      obtain ⟨hfree, hothers⟩ := freeOldest_last hi hz'
      rw [removeOldestLoop, RoundsIntact]
      dsimp only
      rw [hfree, hothers]
      have hone := evict_last hi hz'
      by_cases hcond : f + (s.freeCompleteDatagram z ys.getLast?).1 < needed ∧
          1 < (others s h ys).length + 1
      · rw [if_pos hcond]
        have hsafe' : Spares h needed (f + (s.freeCompleteDatagram z ys.getLast?).1)
            (s.freeCompleteDatagram z ys.getLast?).2 ys := by
          intro as m bs heq hm
          rw [hone.ipr] at hm
          have hclens : clens s (bs ++ [z]) = clens s bs + clenSum (s.ipr z).p := by
            rw [clens_append, clens, clens, Nat.add_zero]
          have hclens' : clens (s.freeCompleteDatagram z ys.getLast?).2 bs = clens s bs :=
            clens_congr fun y _ => congrFun hone.ipr y
          have hfreed := (freeComplete_spec hi).2.1
          rcases hsafe as m (bs ++ [z]) (by simp [heq]) hm with hlt | ⟨-, hle⟩
          · exact .inl hlt
          · refine .inr ⟨?_, by omega⟩
            rintro rfl
            rw [List.nil_append, clens, clens] at hle
            omega
        obtain ⟨ws, n, hn, hrest, hround⟩ := ih hone.inv (by simpa using hfuel) hsafe'
        exact ⟨ws, _, by rw [hn, Nat.add_assoc], hone.trans hrest, hone.inv.intact, fun _ => hround⟩
      · rw [if_neg hcond]
        exact ⟨ys, _, rfl, hone, hone.inv.intact, fun hcond' => absurd hcond' hcond⟩

/-- A datagram that is taken for the one in front of itself is freed, and stays in the list. -/
theorem freeOldest_dangling {b m : Nat} (hi : Inv s (ys ++ [b, m])) (hys : ys ≠ [])
    (hm : (s.ipr m).iphdr.addressesAndIdMatch h = true) :
    ¬ Intact (s.freeOldest (s.scan h)).2 := by
  have hsplit : ys ++ [b, m] = ys ++ [b] ++ [m] := by simp
  have hothers : others s h (ys ++ [b, m]) = ys ++ [b] := by
    rw [hsplit] at hi ⊢
    rw [hi.others_eq hm, List.append_nil]
  have hhead : s.reassdatagrams.head ≠ some b := by
    rw [hi.holds.segment.head_eq]
    cases ys with
    | nil => exact absurd rfl hys
    | cons y ys =>
      rintro heq
      cases heq
      exact (List.nodup_cons.mp hi.holds.nodup).1 (by simp)
  have hbys : b ∉ ys := hi.not_mem.1
  obtain ⟨k, hk, rfl, -⟩ := segment_append.mp hi.holds.segment
  rw [scan_spec hi.holds hi.length_le hi.timers h, hothers, hsplit, List.dropLast_concat,
    List.getLast?_concat]
  simp only [freeOldest, freeCompleteDatagram, dequeueDatagram, SList.unlink, if_neg hhead,
    Function.update_eq_self]
  rintro ⟨ws, hws, hfree⟩
  -- the datagrams in front of it still lead to it
  refine hfree b (Segment.mem_of_reach (hk.congr fun y hy => Function.update_of_ne ?_ _ _)
    hws.segment) List.mem_cons_self
  rintro rfl
  exact hbys hy

theorem removeOldestLoop_not_intact {needed fuel f : Nat} (hi : Inv s xs)
    (hfuel : xs.length ≤ fuel) (hnot : ¬ Spares h needed f s xs) :
    ¬ RoundsIntact h needed fuel s f := by
  induction fuel generalizing s xs f with
  | zero =>
    have hnil : xs = [] := List.eq_nil_of_length_eq_zero (by omega)
    subst hnil
    exact absurd (fun _ _ _ heq => by simp at heq) hnot
  | succ fuel ih =>
    unfold Spares at hnot
    push Not at hnot
    obtain ⟨ys, m, zs, rfl, hm, hlen, hzs⟩ := hnot
    have hoth := hi.others_eq hm
    rcases List.eq_nil_or_concat zs with rfl | ⟨zs, z, rfl⟩
    · -- the one in front of it is the oldest of the others
      rcases List.eq_nil_or_concat ys with rfl | ⟨ys, b, rfl⟩
      · simp at hlen
      rw [List.concat_eq_append] at *
      have hsplit : ys ++ [b] ++ [m] = ys ++ [b, m] := by simp
      rw [hsplit] at hi
      have hys : ys ≠ [] := by
        rintro rfl
        simp at hlen
      exact fun hround => freeOldest_dangling hi hys hm hround.1
    · rw [List.concat_eq_append] at *
      have hlt : f + clens s (zs ++ [z]) < needed := by
        by_contra hle
        exact absurd (hzs (by simp)) (by omega)
      have hsplit : ys ++ m :: (zs ++ [z]) = (ys ++ m :: zs) ++ [z] := by simp
      rw [hsplit] at hi hoth hfuel
      have hz : (s.ipr z).iphdr.addressesAndIdMatch h = false := by
        have hmem : z ∈ others s h (ys ++ m :: zs ++ [z]) := by
          rw [hoth]
          simp
        simpa using List.of_mem_filter hmem
      have hone := evict_last hi hz
      have hfreed := (freeComplete_spec hi).2.1
      have hclens : clens s (zs ++ [z]) = clens s zs + clenSum (s.ipr z).p := by
        rw [clens_append, clens, clens, Nat.add_zero]
      obtain ⟨hfree, hothers⟩ := freeOldest_last hi hz
      rintro ⟨-, hround⟩
      rw [hfree, hothers] at hround
      have hsome : 0 < (others s h (ys ++ m :: zs)).length := by
        have hrest := hone.inv.others_eq (h := h) (by rw [hone.ipr]; exact hm)
        unfold others at hrest ⊢
        rw [hone.ipr] at hrest
        rw [hrest, List.length_append]
        omega
      rw [List.length_append, List.length_singleton] at hfuel
      refine ih hone.inv (by omega) (fun hspares => ?_) (hround ⟨by omega, by omega⟩)
      have hclens' : clens (s.freeCompleteDatagram z (ys ++ m :: zs).getLast?).2 zs = clens s zs :=
        clens_congr fun y _ => congrFun hone.ipr y
      rcases hspares ys m zs rfl (by rw [hone.ipr]; exact hm) with hlt' | ⟨-, hle⟩
      · omega
      · omega

theorem removeOldestDatagram_spec {needed : Nat} (hi : Inv s xs)
    (hsafe : Spares h needed 0 s xs) :
    ∃ ys, Evicted h s (s.removeOldestDatagram h needed).2 xs ys
      (s.removeOldestDatagram h needed).1 := by
  obtain ⟨ys, n, hn, hev, -⟩ := removeOldestLoop_spec hi hi.length_le hsafe
  rw [Nat.zero_add] at hn
  exact ⟨ys, by rw [removeOldestDatagram, hn]; exact hev⟩

/-- The list survives the eviction exactly when the datagram of the fragment is not at its end by
then, with two others in front. -/
theorem removeOldestDatagram_intact_iff (hi : Inv s xs) (fraghdr : IpHdr) (needed : Nat) :
    RoundsIntact fraghdr needed mempNumReassdata s 0 ↔ Spares fraghdr needed 0 s xs := by
  constructor
  · intro hround
    by_contra hnot
    exact removeOldestLoop_not_intact hi hi.length_le hnot hround
  · intro hspares
    obtain ⟨ys, n, -, -, hround⟩ := removeOldestLoop_spec hi hi.length_le hspares
    exact hround

/-! ## A new datagram -/

theorem newDatagram_spec (hi : Inv s xs) (hno : NoMatch s h xs) :
    (s.newDatagram h = (none, s) ∧ s.pool = []) ∨
      ∃ i, (s.newDatagram h).1 = some i ∧ Inv (s.newDatagram h).2 (i :: xs) ∧ i ∉ xs ∧
        (s.newDatagram h).2.ipr = Function.update s.ipr i (freshDatagram h) ∧
        (s.newDatagram h).2.freed = s.freed ∧ (s.newDatagram h).2.pbufcount = s.pbufcount := by
  unfold newDatagram
  cases hpool : s.pool with
  | nil => exact .inl ⟨rfl, rfl⟩
  | cons i pool =>
    have hperm := hi.pool
    rw [hpool] at hperm
    have hnot : i ∉ xs := fun hmem =>
      (List.nodup_append.mp (hperm.nodup_iff.mpr List.nodup_range)).2.2 i hmem i (by simp) rfl
    have hipr : ∀ x ∈ xs, Function.update s.ipr i (freshDatagram h) x = s.ipr x := fun x hx => by
      have hne : x ≠ i := by
        rintro rfl
        exact hnot hx
      exact Function.update_of_ne hne _ _
    refine .inr ⟨i, rfl, ?_, hnot, rfl, rfl, rfl⟩
    constructor
    case holds => exact hi.holds.push hnot
    case pool => exact List.perm_middle.symm.trans hperm
    case timers =>
      refine List.pairwise_cons.mpr ⟨fun x hx => ?_, hi.timers.imp_of_mem fun ha hb hab => ?_⟩
      · simp only [hipr x hx, Function.update_self]
        exact hi.maxage x hx
      · simp only [hipr _ ha, hipr _ hb]
        exact hab
    case maxage =>
      refine List.forall_mem_cons.mpr ⟨?_, fun x hx => ?_⟩
      · simp [freshDatagram]
      · simp only [hipr x hx]
        exact hi.maxage x hx
    case keys =>
      refine List.pairwise_cons.mpr ⟨fun x hx => ?_, hi.keys.imp_of_mem fun ha hb hab => ?_⟩
      · simp only [hipr x hx, Function.update_self]
        rw [match_symm]
        exact hno x hx
      · simp only [hipr _ ha, hipr _ hb]
        exact hab
    case sorted =>
      refine List.forall_mem_cons.mpr ⟨?_, fun x hx => ?_⟩
      · simp [freshDatagram]
      · simp only [hipr x hx]
        exact hi.sorted x hx
    case count =>
      have hcongr : clens { s with
          pool := pool
          ipr := Function.update s.ipr i (freshDatagram h)
          reassdatagrams := s.reassdatagrams.push i } xs = clens s xs := clens_congr hipr
      rw [clens, hcongr]
      simp [freshDatagram, clenSum, hi.count]
    case max => exact hi.max

/-! ## A fragment -/

theorem chainFrag_cases {d : Reassdata} (hsorted : d.p.Pairwise fun a b => a.start < b.start)
    (p : Pbuf) :
    chainFragIntoDatagramAndValidate d p = (none, false) ∨
      ∃ l r b, d.p = l ++ r ∧
        chainFragIntoDatagramAndValidate d p = (some (l ++ newFrag p :: r), b) ∧
        (l ++ newFrag p :: r).Pairwise fun a b => a.start < b.start := by
  unfold chainFragIntoDatagramAndValidate
  rcases insertFrag_spec (newFrag p) none true d.p with h | ⟨l, r, v, hlr, hsome, -, hl, hr⟩
  · exact .inl (by rw [h])
  · refine .inr ⟨l, r, _, hlr, by rw [hsome], ?_⟩
    rw [hlr, List.pairwise_append] at hsorted
    have hr' : ∀ b ∈ r, (newFrag p).start < b.start := fun b hb => by
      cases r with
      | nil => cases hb
      | cons q r =>
        have hq := hr q rfl
        rcases List.mem_cons.mp hb with rfl | hb
        · exact hq
        · exact hq.trans ((List.pairwise_cons.mp hsorted.2.1).1 b hb)
    refine List.pairwise_append.mpr ⟨hsorted.1, List.pairwise_cons.mpr ⟨hr', hsorted.2.1⟩, ?_⟩
    intro a ha b hb
    rcases List.mem_cons.mp hb with rfl | hb
    · exact hl a ha
    · exact hsorted.2.2 a ha b hb

/-- What becomes of the datagram of a fragment, and what `ip_reass` returns. -/
inductive Took (p : Pbuf) (d : Reassdata) : Option Pbuf → Option Reassdata → Prop where
  | dropped (h : chainFragIntoDatagramAndValidate d p = (none, false)) : Took p d none (some d)
  | kept (c : List Frag) (h : chainFragIntoDatagramAndValidate d p = (some c, false)) :
      Took p d none (some { d with p := c })
  | complete (c : List Frag) (h : chainFragIntoDatagramAndValidate d p = (some c, true)) :
      Took p d (some (joinDatagram { d with p := c })) none

def returned (r : Option Pbuf) : List Nat := (r.map Pbuf.chain).getD []

/-- The result `res` of `ip_reass` for a fragment of the datagram `x`: the list becomes `ws`, and
`o` is the datagram in it, if it is left. -/
structure Added (s : State) (ys : List Nat) (x : Nat) (zs : List Nat) (p : Pbuf)
    (res : Option Pbuf × State) (ws : List Nat) (o : Option Reassdata) : Prop where
  inv : Inv res.2 ws
  took : Took p (noteLast (s.ipr x) p.hdr) res.1 o
  ipr : ∀ y ∈ ws, (y = x ∧ o = some (res.2.ipr y)) ∨ (y ∈ ys ++ zs ∧ res.2.ipr y = s.ipr y)
  found : ∀ e ∈ o, ∃ y ∈ ws, res.2.ipr y = e
  count : res.2.pbufcount ≤ s.pbufcount + pbufClen p
  perm : (res.2.freed ++ queued res.2 ws ++ returned res.1).Perm
    (p.chain ++ (s.freed ++ queued s (ys ++ x :: zs)))

section

variable {p : Pbuf} {prev : Option Nat} {d : Reassdata} {c l r : List Frag}

theorem noteLast_fields (d : Reassdata) (fraghdr : IpHdr) : (noteLast d fraghdr).p = d.p ∧
    (noteLast d fraghdr).timer = d.timer ∧ (noteLast d fraghdr).iphdr = d.iphdr := by
  unfold noteLast
  split <;> exact ⟨rfl, rfl, rfl⟩

theorem match_self (a : IpHdr) : a.addressesAndIdMatch a = true := by
  simp [IpHdr.addressesAndIdMatch, ipAddrCmp]

theorem Inv.ipr_update (hi : Inv s (ys ++ x :: zs)) (ht : t.ipr = Function.update s.ipr x d) :
    ∀ y ∈ ys ++ zs, t.ipr y = s.ipr y := by
  intro y hy
  have hne : y ≠ x := by
    rintro rfl
    exact (List.mem_append.mp hy).elim hi.not_mem.1 hi.not_mem.2
  rw [ht, Function.update_of_ne hne]

theorem Inv.ipr_cases (hi : Inv s (ys ++ x :: zs)) (ht : t.ipr = Function.update s.ipr x d) :
    ∀ y ∈ ys ++ x :: zs,
      (y = x ∧ some d = some (t.ipr y)) ∨ (y ∈ ys ++ zs ∧ t.ipr y = s.ipr y) := by
  intro y hy
  have hmem : y = x ∨ y ∈ ys ++ zs := by
    simp only [List.mem_append, List.mem_cons] at hy ⊢
    tauto
  rcases hmem with rfl | hy
  · exact .inl ⟨rfl, by rw [ht, Function.update_self]⟩
  · exact .inr ⟨hy, hi.ipr_update ht y hy⟩

theorem ipr_found (ht : t.ipr = Function.update s.ipr x d) :
    ∀ e ∈ some d, ∃ y ∈ ys ++ x :: zs, t.ipr y = e := by
  intro e he
  cases he
  exact ⟨x, by simp, by rw [ht, Function.update_self]⟩

theorem Inv.queued_others (hi : Inv s (ys ++ x :: zs)) (ht : t.ipr = Function.update s.ipr x d) :
    queued t (ys ++ zs) = queued s ys ++ queued s zs := by
  rw [queued_append, queued_update hi.not_mem.1 ht, queued_update hi.not_mem.2 ht]

theorem Inv.queued_cons (hi : Inv s (ys ++ x :: zs)) (ht : t.ipr = Function.update s.ipr x d) :
    queued t (ys ++ x :: zs) = queued s ys ++ (chains d.p ++ queued s zs) := by
  rw [queued_append, queued, queued_update hi.not_mem.1 ht, queued_update hi.not_mem.2 ht, ht,
    Function.update_self]

theorem clenSum_insert (l r : List Frag) (p : Pbuf) :
    clenSum (l ++ newFrag p :: r) = clenSum (l ++ r) + pbufClen p := by
  have hself : (newFrag p).p = p := rfl
  rw [clenSum_append, clenSum_append, clenSum, hself]
  omega

theorem chains_insert (l r : List Frag) (p : Pbuf) :
    (chains (l ++ newFrag p :: r)).Perm (p.chain ++ chains (l ++ r)) := by
  have hcons : chains (newFrag p :: r) = p.chain ++ chains r := rfl
  rw [chains_append, chains_append, hcons]
  grind

theorem addFragment_dropped (hi : Inv s (ys ++ x :: zs))
    (hroom : s.pbufcount + pbufClen p ≤ ipReassMaxPbufs)
    (hnone : chainFragIntoDatagramAndValidate (noteLast (s.ipr x) p.hdr) p = (none, false)) :
    Added s ys x zs p (s.addFragment x prev p) (ys ++ x :: zs)
      (some (noteLast (s.ipr x) p.hdr)) := by
  obtain ⟨hdp, hdt, hdh⟩ := noteLast_fields (s.ipr x) p.hdr
  set d := noteLast (s.ipr x) p.hdr with hd
  unfold ipReassMaxPbufs at hroom
  have hadd : s.addFragment x prev p = (none, { (s.setIpr x d).free p with
      pbufcount := ((s.pbufcount + pbufClen p) % 65536 + 65536 - pbufClen p) % 65536 }) := by
    unfold addFragment
    dsimp only
    rw [← hd, hnone]
    rfl
  rw [hadd]
  refine ⟨?_, .dropped hnone, hi.ipr_cases rfl, ipr_found rfl, ?_, ?_⟩
  · refine hi.update rfl rfl rfl hdt (by rw [hdh]; exact match_self _)
      (by rw [hdp]; exact hi.sorted x (by simp)) ?_ ?_
    · rw [hdp]
      dsimp only
      omega
    · unfold ipReassMaxPbufs
      dsimp only
      omega
  · dsimp only
    omega
  · rw [hi.queued_cons rfl, queued_append, queued, hdp]
    simp only [State.free, State.setIpr, returned, Option.map_none, Option.getD_none]
    grind

theorem Inv.insert (hi : Inv s (ys ++ x :: zs))
    (hroom : s.pbufcount + pbufClen p ≤ ipReassMaxPbufs)
    (hlr : (noteLast (s.ipr x) p.hdr).p = l ++ r)
    (hsorted : (l ++ newFrag p :: r).Pairwise fun a b => a.start < b.start) :
    Inv ({ s with pbufcount := (s.pbufcount + pbufClen p) % 65536 }.setIpr x
      { noteLast (s.ipr x) p.hdr with p := l ++ newFrag p :: r }) (ys ++ x :: zs) := by
  obtain ⟨hdp, hdt, hdh⟩ := noteLast_fields (s.ipr x) p.hdr
  have hclens := clenSum_insert l r p
  rw [← hlr, hdp] at hclens
  unfold ipReassMaxPbufs at hroom
  refine hi.update rfl rfl rfl hdt (by rw [← hdh]; exact match_self _) hsorted ?_ ?_
  · simp only [State.setIpr]
    omega
  · unfold ipReassMaxPbufs
    simp only [State.setIpr]
    omega

theorem addFragment_kept (hi : Inv s (ys ++ x :: zs))
    (hroom : s.pbufcount + pbufClen p ≤ ipReassMaxPbufs)
    (hlr : (noteLast (s.ipr x) p.hdr).p = l ++ r)
    (hsome : chainFragIntoDatagramAndValidate (noteLast (s.ipr x) p.hdr) p =
      (some (l ++ newFrag p :: r), false))
    (hsorted : (l ++ newFrag p :: r).Pairwise fun a b => a.start < b.start) :
    Added s ys x zs p (s.addFragment x prev p) (ys ++ x :: zs)
      (some { noteLast (s.ipr x) p.hdr with p := l ++ newFrag p :: r }) := by
  have hkept := hi.insert hroom hlr hsorted
  have hchains := chains_insert l r p
  rw [← hlr, (noteLast_fields (s.ipr x) p.hdr).1] at hchains
  have hadd : s.addFragment x prev p =
      (none, { s with pbufcount := (s.pbufcount + pbufClen p) % 65536 }.setIpr x
        { noteLast (s.ipr x) p.hdr with p := l ++ newFrag p :: r }) := by
    unfold addFragment
    dsimp only
    rw [hsome]
  rw [hadd]
  refine ⟨hkept, .kept _ hsome, hi.ipr_cases rfl, ipr_found rfl, Nat.mod_le _ _, ?_⟩
  rw [hi.queued_cons rfl, queued_append, queued]
  simp only [State.setIpr, returned, Option.map_none, Option.getD_none]
  grind

theorem addFragment_complete (hi : Inv s (ys ++ x :: zs)) (hprev : ys = [] ∨ prev = ys.getLast?)
    (hroom : s.pbufcount + pbufClen p ≤ ipReassMaxPbufs)
    (hlr : (noteLast (s.ipr x) p.hdr).p = l ++ r)
    (hsome : chainFragIntoDatagramAndValidate (noteLast (s.ipr x) p.hdr) p =
      (some (l ++ newFrag p :: r), true))
    (hsorted : (l ++ newFrag p :: r).Pairwise fun a b => a.start < b.start) :
    Added s ys x zs p (s.addFragment x prev p) (ys ++ zs) none := by
  have hkept := hi.insert hroom hlr hsorted
  have hchains := chains_insert l r p
  have hclens := clenSum_insert l r p
  rw [← hlr, (noteLast_fields (s.ipr x) p.hdr).1] at hchains hclens
  have hcount := hi.count
  rw [clens_append, clens] at hcount
  unfold ipReassMaxPbufs at hroom
  set d := noteLast (s.ipr x) p.hdr with hd
  set c := l ++ newFrag p :: r with hc
  set q := joinDatagram { d with p := c } with hq
  have hadd : s.addFragment x prev p = (some q,
      { ({ s with pbufcount := (s.pbufcount + pbufClen p) % 65536 }.setIpr x
          { d with p := c }).dequeueDatagram x prev with
        pbufcount := ((s.pbufcount + pbufClen p) % 65536 + 65536 - pbufClen q) % 65536 }) := by
    unfold addFragment
    dsimp only
    rw [← hd, hsome]
    rfl
  have hqclen : pbufClen q = clenSum c := by
    have hmod := chains_length_mod c
    have hlt : clenSum c < 256 := by omega
    rw [Nat.mod_eq_of_lt hlt] at hmod
    exact hmod
  have hunlink : (s.dequeueDatagram x prev).reassdatagrams =
      (s.dequeueDatagram x ys.getLast?).reassdatagrams := by
    rcases hprev with rfl | rfl
    · have hhead : s.reassdatagrams.head = some x := hi.holds.segment.head_eq
      simp [dequeueDatagram, SList.unlink, hhead]
    · rfl
  rw [hadd]
  refine ⟨?_, .complete c hsome, fun y hy => .inr ⟨hy, hi.ipr_update rfl y hy⟩, by simp,
    by dsimp only; omega, ?_⟩
  · refine hkept.dequeue hunlink rfl rfl ?_
    have hx : (({ s with pbufcount := (s.pbufcount + pbufClen p) % 65536 }.setIpr x
        { d with p := c }).ipr x).p = c := by
      simp [State.setIpr]
    rw [hx]
    simp only [State.setIpr, hqclen]
    omega
  · rw [hi.queued_others rfl, queued_append, queued]
    have hret : returned (some q) = chains c := rfl
    rw [hret]
    simp only [State.setIpr, dequeueDatagram]
    grind

theorem addFragment_spec (hi : Inv s (ys ++ x :: zs)) (hprev : ys = [] ∨ prev = ys.getLast?)
    (hroom : s.pbufcount + pbufClen p ≤ ipReassMaxPbufs) :
    ∃ ws o, Added s ys x zs p (s.addFragment x prev p) ws o := by
  have hsorted := hi.sorted x (by simp)
  rw [← (noteLast_fields (s.ipr x) p.hdr).1] at hsorted
  rcases chainFrag_cases hsorted p with hnone | ⟨l, r, b, hlr, hsome, hsorted'⟩
  · exact ⟨_, _, addFragment_dropped hi hroom hnone⟩
  · cases b with
    | false => exact ⟨_, _, addFragment_kept hi hroom hlr hsome hsorted'⟩
    | true => exact ⟨_, _, addFragment_complete hi hprev hroom hlr hsome hsorted'⟩

end

/-! ## `ip_reass` -/

theorem findDatagram_spec (s : State) (fraghdr : IpHdr) (prev : Option Nat) (xs : List Nat) :
    (NoMatch s fraghdr xs ∧ (s.findDatagram fraghdr prev xs).1 = none) ∨
      ∃ ys x zs, xs = ys ++ x :: zs ∧ (s.ipr x).iphdr.addressesAndIdMatch fraghdr = true ∧
        s.findDatagram fraghdr prev xs = (some x, ys.getLast?.or prev) := by
  induction xs generalizing prev with
  | nil => exact .inl ⟨by simp [NoMatch], rfl⟩
  | cons x xs ih =>
    rw [findDatagram]
    by_cases hx : (s.ipr x).iphdr.addressesAndIdMatch fraghdr = true
    · rw [if_pos hx]
      exact .inr ⟨[], x, xs, rfl, hx, rfl⟩
    · rw [if_neg hx]
      rcases ih (some x) with ⟨hno, hnone⟩ | ⟨ys, y, zs, rfl, hy, hfind⟩
      · exact .inl ⟨List.forall_mem_cons.mpr ⟨by simpa using hx, hno⟩, hnone⟩
      · refine .inr ⟨x :: ys, y, zs, rfl, hy, ?_⟩
        rw [hfind]
        cases ys using List.reverseRecOn with
        | nil => rfl
        | append_singleton ys z => simp [List.getLast?_cons]

theorem makeRoom_spec (h : IpHdr) (clen : Nat) (hi : Inv s xs)
    (hsafe : ipReassMaxPbufs < s.pbufcount + clen → Spares h clen 0 s xs) :
    ∃ ys n, Evicted h s (s.makeRoom h clen).2 xs ys n ∧
      ((s.makeRoom h clen).1 = true →
        (s.makeRoom h clen).2.pbufcount + clen ≤ ipReassMaxPbufs) := by
  unfold makeRoom
  split
  · next hfull =>
    obtain ⟨ys, hev⟩ := removeOldestDatagram_spec hi (hsafe hfull)
    exact ⟨ys, _, hev, fun hok => (of_decide_eq_true hok).2⟩
  · next hroom => exact ⟨xs, 0, .refl hi h, fun _ => Nat.not_lt.mp hroom⟩

theorem enqueueNewDatagram_spec (hi : Inv s xs) (hno : NoMatch s h xs) (clen : Nat) :
    ∃ ys n u, Evicted h s u xs ys n ∧
      ((s.enqueueNewDatagram h clen = (none, u) ∧ s.pool = []) ∨
        ∃ i, (s.enqueueNewDatagram h clen).1 = some i ∧ i ∉ ys ∧
          Inv (s.enqueueNewDatagram h clen).2 (i :: ys) ∧
          (s.enqueueNewDatagram h clen).2.ipr = Function.update s.ipr i (freshDatagram h) ∧
          (s.enqueueNewDatagram h clen).2.freed = u.freed ∧
          (s.enqueueNewDatagram h clen).2.pbufcount = u.pbufcount) := by
  have hgot : ∀ {u : State} {ys : List Nat} {n : Nat}, Evicted h s u xs ys n →
      (u.newDatagram h = (none, u) ∧ u.pool = []) ∨ ∃ i, (u.newDatagram h).1 = some i ∧ i ∉ ys ∧
        Inv (u.newDatagram h).2 (i :: ys) ∧
        (u.newDatagram h).2.ipr = Function.update s.ipr i (freshDatagram h) ∧
        (u.newDatagram h).2.freed = u.freed ∧ (u.newDatagram h).2.pbufcount = u.pbufcount := by
    intro u ys n hev
    have hno' : NoMatch u h ys := fun x hx => by
      rw [hev.ipr]
      exact hno x (hev.sub.subset hx)
    rcases newDatagram_spec hev.inv hno' with hnone | ⟨i, hsome, hinv, hnot, hipr, hfreed, hcount⟩
    · exact .inl hnone
    · exact .inr ⟨i, hsome, hnot, hinv, by rw [hipr, hev.ipr], hfreed, hcount⟩
  rcases hgot (.refl hi h) with ⟨hnone, hpool⟩ | ⟨i, hsome, hrest⟩
  · have hspares : Spares h clen 0 s xs := hno.spares
    obtain ⟨ys, hev⟩ := removeOldestDatagram_spec hi hspares
    have henq : s.enqueueNewDatagram h clen =
        if clen ≤ (s.removeOldestDatagram h clen).1 then
          (s.removeOldestDatagram h clen).2.newDatagram h
        else (none, (s.removeOldestDatagram h clen).2) := by
      unfold enqueueNewDatagram
      rw [hnone]
    rw [henq]
    split
    · exact ⟨ys, _, _, hev, (hgot hev).imp_left fun hnone => ⟨hnone.1, hpool⟩⟩
    · exact ⟨ys, _, _, hev, .inl ⟨rfl, hpool⟩⟩
  · have henq : s.enqueueNewDatagram h clen = s.newDatagram h := by
      unfold enqueueNewDatagram
      split
      · next heq => rw [heq]
      · next heq =>
        rw [heq] at hsome
        cases hsome
    rw [henq]
    exact ⟨xs, 0, s, .refl hi h, .inr ⟨i, hsome, hrest⟩⟩

/-- The step of `ip_reass` is safe for the list, by what `Spares` says. -/
def Safe (s : State) (p : Pbuf) : Prop :=
  p.hdr.hl * 4 = ipHlen → ipReassMaxPbufs < s.pbufcount + pbufClen p →
    Spares p.hdr (pbufClen p) 0 s s.datagrams

/-- The datagram of a fragment, before that is put in. -/
def Before (s : State) (xs : List Nat) (fraghdr : IpHdr) (d : Reassdata) : Prop :=
  (d = freshDatagram fraghdr ∧ NoMatch s fraghdr xs) ∨
    ∃ x ∈ xs, (s.ipr x).iphdr.addressesAndIdMatch fraghdr = true ∧ d = s.ipr x

theorem Took.key {p : Pbuf} {d e : Reassdata} {r : Option Pbuf}
    (ht : Took p (noteLast (adoptHdr d h) h) r (some e)) (hb : Before s xs h d) :
    e.iphdr.addressesAndIdMatch h = true := by
  have hd : d.iphdr.addressesAndIdMatch h = true := by
    rcases hb with ⟨rfl, -⟩ | ⟨x, -, hmatch, rfl⟩
    · exact match_self h
    · exact hmatch
  have hadopt : (noteLast (adoptHdr d h) h).iphdr.addressesAndIdMatch h = true := by
    rw [(noteLast_fields _ h).2.2]
    unfold adoptHdr
    split
    · exact match_self h
    · exact hd
  cases ht <;> exact hadopt

theorem Inv.free (hi : Inv s xs) (p : Pbuf) : Inv (s.free p) xs where
  holds := hi.holds
  pool := hi.pool
  timers := hi.timers
  maxage := hi.maxage
  keys := hi.keys
  sorted := hi.sorted
  count := by
    have hcongr : clens (s.free p) xs = clens s xs := clens_congr fun _ _ => rfl
    rw [hcongr]
    exact hi.count
  max := hi.max

theorem adoptHdr_fields (d : Reassdata) (fraghdr : IpHdr)
    (hd : d.iphdr.addressesAndIdMatch fraghdr = true) :
    (adoptHdr d fraghdr).p = d.p ∧ (adoptHdr d fraghdr).timer = d.timer ∧
      (adoptHdr d fraghdr).iphdr.addressesAndIdMatch d.iphdr = true := by
  unfold adoptHdr
  split
  · exact ⟨rfl, rfl, by rw [match_symm]; exact hd⟩
  · exact ⟨rfl, rfl, match_trans hd (by rw [match_symm]; exact hd)⟩

theorem adoptHdr_fresh (fraghdr : IpHdr) :
    adoptHdr (freshDatagram fraghdr) fraghdr = freshDatagram fraghdr := by
  unfold adoptHdr
  rw [if_neg]
  rintro ⟨h₁, h₂⟩
  exact h₂ h₁

/-- What `ip_reass` may do to the datagrams `xs`: nothing but make room, or take the fragment in.
It takes it in when there is room, and a struct for its datagram. -/
def Effect (s : State) (xs : List Nat) (p : Pbuf) (r : Option Pbuf) (t : State) (ws : List Nat) :
    Prop :=
  (r = none ∧ (∀ y ∈ ws, y ∈ xs ∧ t.ipr y = s.ipr y) ∧
      (p.hdr.hl * 4 = ipHlen → (s.makeRoom p.hdr (pbufClen p)).1 = true →
        NoMatch s p.hdr xs ∧ s.pool = [])) ∨
    ∃ d o, Before s xs p.hdr d ∧ Took p (noteLast (adoptHdr d p.hdr) p.hdr) r o ∧
      (∀ y ∈ ws, o = some (t.ipr y) ∨
        (y ∈ xs ∧ (s.ipr y).iphdr.addressesAndIdMatch p.hdr = false ∧ t.ipr y = s.ipr y)) ∧
      (∀ e ∈ o, ∃ y ∈ ws, t.ipr y = e) ∧ t.pbufcount ≤ s.pbufcount + pbufClen p

/-- No pbuf is lost or freed twice. -/
def Conserves (s : State) (xs : List Nat) (p : Pbuf) (r : Option Pbuf) (t : State)
    (ws : List Nat) : Prop :=
  (t.freed ++ queued t ws ++ returned r).Perm (p.chain ++ (s.freed ++ queued s xs))

section

variable {u : State} {n : Nat} {p : Pbuf}

theorem ipReass_dropped (hev : Evicted p.hdr s u xs ys n)
    (hdrop : p.hdr.hl * 4 = ipHlen → (s.makeRoom p.hdr (pbufClen p)).1 = true →
      NoMatch s p.hdr xs ∧ s.pool = []) :
    Inv (u.free p) ys ∧ Conserves s xs p none (u.free p) ys ∧ Effect s xs p none (u.free p) ys := by
  refine ⟨hev.inv.free p, ?_, .inl ⟨rfl, fun y hy => ⟨hev.sub.subset hy, ?_⟩, hdrop⟩⟩
  · have hq : queued (u.free p) ys = queued u ys := queued_congr fun _ _ => rfl
    have hperm := hev.perm
    unfold Conserves
    rw [hq]
    simp only [State.free, returned, Option.map_none, Option.getD_none]
    grind
  · exact congrFun hev.ipr y

theorem ipReass_found {as bs : List Nat} (hev : Evicted p.hdr s u xs (as ++ x :: bs) n)
    (hx : (u.ipr x).iphdr.addressesAndIdMatch p.hdr = true)
    (hroom : u.pbufcount + pbufClen p ≤ ipReassMaxPbufs) :
    ∃ ws, Inv ((u.setIpr x (adoptHdr (u.ipr x) p.hdr)).addFragment x as.getLast? p).2 ws ∧
      Conserves s xs p ((u.setIpr x (adoptHdr (u.ipr x) p.hdr)).addFragment x as.getLast? p).1
        ((u.setIpr x (adoptHdr (u.ipr x) p.hdr)).addFragment x as.getLast? p).2 ws ∧
      Effect s xs p ((u.setIpr x (adoptHdr (u.ipr x) p.hdr)).addFragment x as.getLast? p).1
        ((u.setIpr x (adoptHdr (u.ipr x) p.hdr)).addFragment x as.getLast? p).2 ws := by
  obtain ⟨hp, htimer, hkey⟩ := adoptHdr_fields (u.ipr x) p.hdr hx
  have hi := hev.inv
  have hipr : (u.setIpr x (adoptHdr (u.ipr x) p.hdr)).ipr =
      Function.update u.ipr x (adoptHdr (u.ipr x) p.hdr) := rfl
  have hv : Inv (u.setIpr x (adoptHdr (u.ipr x) p.hdr)) (as ++ x :: bs) := by
    refine hi.update rfl rfl hipr htimer hkey ?_ (by rw [hp]; rfl) hi.max
    rw [hp]
    exact hi.sorted x (by simp)
  obtain ⟨ws, o, hinv, htook, heff, hin, hcount, hperm⟩ :=
    addFragment_spec (p := p) hv (.inr rfl) hroom
  obtain ⟨has, hbs⟩ := hi.not_mem
  refine ⟨ws, hinv, ?_, .inr ⟨u.ipr x, o, .inr ⟨x, hev.sub.subset (by simp), ?_, ?_⟩, ?_, ?_,
    hin, ?_⟩⟩
  · have hq : queued (u.setIpr x (adoptHdr (u.ipr x) p.hdr)) (as ++ x :: bs) =
        queued u (as ++ x :: bs) := by
      rw [queued_append, queued, queued_append, queued, queued_update has hipr,
        queued_update hbs hipr, hipr, Function.update_self, hp]
    rw [hq] at hperm
    exact hperm.trans (hev.perm.append_left p.chain)
  · rw [← hev.ipr]
    exact hx
  · rw [hev.ipr]
  · rw [hipr, Function.update_self] at htook
    exact htook
  · intro y hy
    rcases heff y hy with ⟨-, ho⟩ | ⟨hmem, hy'⟩
    · exact .inl ho
    · have hne : y ≠ x := by
        rintro rfl
        exact (List.mem_append.mp hmem).elim has hbs
      rw [hipr, Function.update_of_ne hne] at hy'
      refine .inr ⟨hev.sub.subset ?_, ?_, hy'.trans (congrFun hev.ipr y)⟩
      · simp only [List.mem_append, List.mem_cons] at hmem ⊢
        tauto
      · rw [← hev.ipr]
        exact hi.noMatch hx y hmem
  · have hev := hev.count
    have hu : (u.setIpr x (adoptHdr (u.ipr x) p.hdr)).pbufcount = u.pbufcount := rfl
    omega

theorem ipReass_new {i : Nat} {prev : Option Nat} (hev : Evicted p.hdr s u xs ys n)
    (hno : NoMatch s p.hdr xs) (hnot : i ∉ ys) (ht : Inv t (i :: ys))
    (hipr : t.ipr = Function.update s.ipr i (freshDatagram p.hdr)) (hfreed : t.freed = u.freed)
    (hbound : t.pbufcount ≤ s.pbufcount) (hroom : t.pbufcount + pbufClen p ≤ ipReassMaxPbufs) :
    ∃ ws, Inv (t.addFragment i prev p).2 ws ∧
      Conserves s xs p (t.addFragment i prev p).1 (t.addFragment i prev p).2 ws ∧
      Effect s xs p (t.addFragment i prev p).1 (t.addFragment i prev p).2 ws := by
  have hti : Inv t ([] ++ i :: ys) := ht
  obtain ⟨ws, o, hinv, htook, heff, hin, hcount, hperm⟩ :=
    addFragment_spec (p := p) hti (.inl rfl) hroom
  rw [hipr, Function.update_self] at htook
  refine ⟨ws, hinv, ?_, .inr ⟨freshDatagram p.hdr, o, .inl ⟨rfl, hno⟩, ?_, fun y hy => ?_,
    hin, ?_⟩⟩
  · have hq : queued t ([] ++ i :: ys) = queued u ys := by
      have hu : u.ipr = s.ipr := hev.ipr
      rw [List.nil_append, queued, queued_update hnot hipr, hipr, Function.update_self,
        queued_congr fun y _ => congrFun hu y]
      rfl
    rw [hq, hfreed] at hperm
    exact hperm.trans (hev.perm.append_left p.chain)
  · rw [adoptHdr_fresh]
    exact htook
  · rcases heff y hy with ⟨-, ho⟩ | ⟨hmem, hy'⟩
    · exact .inl ho
    · have hne : y ≠ i := by
        rintro rfl
        exact hnot hmem
      rw [hipr, Function.update_of_ne hne] at hy'
      exact .inr ⟨hev.sub.subset hmem, hno y (hev.sub.subset hmem), hy'⟩
  · omega

end

theorem ipReass_spec (hi : Inv s xs) (p : Pbuf) (hsafe : Safe s p) :
    ∃ ws, Inv (s.ipReass p).2 ws ∧ Conserves s xs p (s.ipReass p).1 (s.ipReass p).2 ws ∧
      Effect s xs p (s.ipReass p).1 (s.ipReass p).2 ws := by
  unfold ipReass
  dsimp only
  split
  · next hhl => exact ⟨xs, ipReass_dropped (.refl hi p.hdr) fun hok => absurd hok hhl⟩
  next hhl =>
  obtain ⟨ys, n, hev, hroom⟩ := makeRoom_spec p.hdr (pbufClen p) hi fun hfull => by
    have hspares := hsafe (by simpa using hhl) hfull
    rwa [hi.datagrams_eq] at hspares
  rcases hmr : s.makeRoom p.hdr (pbufClen p) with ⟨b, u⟩
  rw [hmr] at hev hroom
  dsimp only at hev hroom
  cases b with
  | false => exact ⟨ys, ipReass_dropped hev fun _ hok => by rw [hmr] at hok; cases hok⟩
  | true =>
    have hle := hroom rfl
    dsimp only
    rw [hev.inv.datagrams_eq]
    rcases findDatagram_spec u p.hdr none ys with ⟨hno, hnone⟩ | ⟨as, x, bs, rfl, hx, hfind⟩
    · have hno' : NoMatch s p.hdr xs := fun x hx => by
        by_contra hm
        have hmem := hev.own x hx (by simpa using hm)
        have := hno x hmem
        rw [hev.ipr] at this
        exact hm this
      rcases hfd : u.findDatagram p.hdr none ys with ⟨found, prev⟩
      rw [hfd] at hnone
      obtain rfl : found = none := hnone
      dsimp only
      obtain ⟨zs, m, v, hev', henq⟩ := enqueueNewDatagram_spec hev.inv hno (pbufClen p)
      have hall := hev.trans hev'
      rcases hen : u.enqueueNewDatagram p.hdr (pbufClen p) with ⟨o, w⟩
      rw [hen] at henq
      rcases henq with ⟨hdrop, hpool⟩ | ⟨i, hsome, hnot, hinv, hipr, hfreed, hcount⟩
      · cases hdrop
        exact ⟨zs, ipReass_dropped hall fun _ _ => ⟨hno', hev.pool_nil hi hpool⟩⟩
      · obtain rfl : o = some i := hsome
        dsimp only at *
        have hcount' := hev'.count
        have hcount'' := hev.count
        exact ipReass_new hall hno' hnot hinv (by rw [hipr, hev.ipr]) hfreed (by omega) (by omega)
    · rw [hfind, Option.or_none]
      exact ipReass_found hev hx hle

/-! ## `ip_reass_tmr` -/

/-- The timers of some datagrams count down. -/
def tick (s : State) : List Nat → State
  | [] => s
  | x :: xs => tick (s.setIpr x { s.ipr x with timer := (s.ipr x).timer - 1 }) xs

theorem tick_fields (s : State) (xs : List Nat) :
    (tick s xs).reassdatagrams = s.reassdatagrams ∧ (tick s xs).pool = s.pool ∧
      (tick s xs).pbufcount = s.pbufcount ∧ (tick s xs).freed = s.freed := by
  induction xs generalizing s with
  | nil => exact ⟨rfl, rfl, rfl, rfl⟩
  | cons x xs ih => exact ih _

theorem tick_ipr (s : State) (hnodup : xs.Nodup) (y : Nat) : (tick s xs).ipr y =
    if y ∈ xs then { s.ipr y with timer := (s.ipr y).timer - 1 } else s.ipr y := by
  induction xs generalizing s with
  | nil => simp [tick]
  | cons x xs ih =>
    obtain ⟨hx, hnodup⟩ := List.nodup_cons.mp hnodup
    rw [tick, ih _ hnodup]
    simp only [State.setIpr, Function.update_apply, List.mem_cons]
    by_cases hy : y = x
    · subst hy
      simp [hx]
    · simp [hy]

theorem ipReassTmrLoop_tick {r m : Option Nat} (fuel : Nat) (prev : Option Nat)
    (hseg : Segment s.reassdatagrams.next r xs m) (hlive : ∀ x ∈ xs, 0 < (s.ipr x).timer)
    (hnodup : xs.Nodup) :
    ipReassTmrLoop (xs.length + fuel) s r prev =
      ipReassTmrLoop fuel (tick s xs) m (xs.getLast?.or prev) := by
  induction xs generalizing s r prev with
  | nil =>
    rw [Segment] at hseg
    simp [hseg, tick]
  | cons x xs ih =>
    obtain ⟨rfl, hrest⟩ := hseg
    obtain ⟨hx, hnodup⟩ := List.nodup_cons.mp hnodup
    rw [List.forall_mem_cons] at hlive
    have hlen : (x :: xs).length + fuel = (xs.length + fuel) + 1 := by
      rw [List.length_cons]
      omega
    rw [hlen, ipReassTmrLoop, if_pos hlive.1, tick]
    have hlive' : ∀ y ∈ xs,
        0 < ((s.setIpr x { s.ipr x with timer := (s.ipr x).timer - 1 }).ipr y).timer := by
      intro y hy
      have hne : y ≠ x := by
        rintro rfl
        exact hx hy
      simp only [State.setIpr, Function.update_of_ne hne]
      exact hlive.2 y hy
    have hloop := ih (s := s.setIpr x { s.ipr x with timer := (s.ipr x).timer - 1 }) (some x) hrest
      hlive' hnodup
    dsimp only at hloop ⊢
    rw [hloop]
    cases xs using List.reverseRecOn with
    | nil => rfl
    | append_singleton xs z => simp [List.getLast?_cons]

theorem tick_inv (hi : Inv s (ys ++ zs)) (hzs : ∀ z ∈ zs, (s.ipr z).timer = 0) :
    Inv (tick s ys) (ys ++ zs) := by
  obtain ⟨hl, hp, hc, -⟩ := tick_fields s ys
  have hnodup := List.nodup_append.mp hi.holds.nodup
  have hipr := tick_ipr s hnodup.1
  have hfields : ∀ y, ((tick s ys).ipr y).p = (s.ipr y).p ∧
      ((tick s ys).ipr y).iphdr = (s.ipr y).iphdr := fun y => by
    rw [hipr]
    split <;> exact ⟨rfl, rfl⟩
  have hdead : ∀ z ∈ zs, ((tick s ys).ipr z).timer = 0 := fun z hz => by
    have hnot : z ∉ ys := fun hmem => hnodup.2.2 z hmem z hz rfl
    rw [hipr, if_neg hnot, hzs z hz]
  have hlive : ∀ y ∈ ys, ((tick s ys).ipr y).timer = (s.ipr y).timer - 1 := fun y hy => by
    rw [hipr, if_pos hy]
  constructor
  case holds =>
    rw [hl]
    exact hi.holds
  case pool =>
    rw [hp]
    exact hi.pool
  case timers =>
    have hpair := List.pairwise_append.mp hi.timers
    refine List.pairwise_append.mpr ⟨hpair.1.imp_of_mem fun ha hb hab => ?_,
      List.pairwise_of_forall_mem_list fun a ha b hb => ?_, fun a _ b hb => ?_⟩
    · rw [hlive _ ha, hlive _ hb]
      omega
    · rw [hdead b hb]
      exact Nat.zero_le _
    · rw [hdead b hb]
      exact Nat.zero_le _
  case maxage =>
    intro y hy
    have hle := hi.maxage y hy
    rw [hipr]
    split
    · dsimp only
      omega
    · exact hle
  case keys =>
    simp only [(hfields _).2]
    exact hi.keys
  case sorted =>
    intro y hy
    rw [(hfields y).1]
    exact hi.sorted y hy
  case count =>
    have hcongr : ∀ ws, clens (tick s ys) ws = clens s ws := fun ws => by
      induction ws with
      | nil => rfl
      | cons w ws ih => rw [clens, clens, (hfields w).1, ih]
    rw [hc, hcongr]
    exact hi.count
  case max =>
    rw [hc]
    exact hi.max

theorem ipReassTmrLoop_dead (fuel : Nat) (hi : Inv s (ys ++ zs)) (hfuel : zs.length ≤ fuel)
    (hzs : ∀ z ∈ zs, (s.ipr z).timer = 0) :
    Inv (ipReassTmrLoop fuel s zs.head? ys.getLast?) ys ∧
      (ipReassTmrLoop fuel s zs.head? ys.getLast?).ipr = s.ipr ∧
      ((ipReassTmrLoop fuel s zs.head? ys.getLast?).freed ++ queued s ys).Perm
        (s.freed ++ queued s (ys ++ zs)) := by
  induction zs generalizing s fuel with
  | nil =>
    rw [List.append_nil] at hi ⊢
    cases fuel <;> exact ⟨hi, rfl, .refl _⟩
  | cons z zs ih =>
    obtain ⟨fuel, rfl⟩ : ∃ k, fuel = k + 1 := ⟨fuel - 1, by rw [List.length_cons] at hfuel; omega⟩
    rw [List.forall_mem_cons] at hzs
    obtain ⟨hinv, -, hipr, hfreed⟩ := freeComplete_spec hi
    have hnext : s.reassdatagrams.next z = zs.head? := by
      obtain ⟨m, -, -, hseg⟩ := segment_append.mp hi.holds.segment
      exact hseg.head_eq
    rw [List.head?_cons, ipReassTmrLoop, hnext, if_neg (by rw [hzs.1]; exact Nat.lt_irrefl 0)]
    obtain ⟨hinv', hipr', hperm⟩ := ih fuel hinv (by simpa using hfuel)
      (fun y hy => by rw [hipr]; exact hzs.2 y hy)
    refine ⟨hinv', hipr'.trans hipr, ?_⟩
    have hq : ∀ ws, queued (s.freeCompleteDatagram z ys.getLast?).2 ws = queued s ws := fun ws =>
      queued_congr fun y _ => congrFun hipr y
    rw [hq, hq, hfreed] at hperm
    refine hperm.trans ?_
    rw [queued_append, queued_append, queued]
    grind

theorem exists_live (htimers : xs.Pairwise fun a b => (s.ipr b).timer ≤ (s.ipr a).timer) :
    ∃ ws zs, xs = ws ++ zs ∧ (∀ x ∈ ws, 0 < (s.ipr x).timer) ∧ ∀ z ∈ zs, (s.ipr z).timer = 0 := by
  induction xs with
  | nil => exact ⟨[], [], rfl, by simp, by simp⟩
  | cons x xs ih =>
    obtain ⟨hx, hxs⟩ := List.pairwise_cons.mp htimers
    by_cases hzero : (s.ipr x).timer = 0
    · refine ⟨[], x :: xs, rfl, by simp, List.forall_mem_cons.mpr ⟨hzero, fun z hz => ?_⟩⟩
      have := hx z hz
      omega
    · obtain ⟨ws, zs, rfl, hws, hzs⟩ := ih hxs
      exact ⟨x :: ws, zs, rfl, List.forall_mem_cons.mpr ⟨Nat.pos_of_ne_zero hzero, hws⟩, hzs⟩

/-- The datagrams whose time is up are at the end of the list, and only they are freed. -/
theorem ipReassTmr_spec (hi : Inv s xs) :
    ∃ ws zs, xs = ws ++ zs ∧ Inv s.ipReassTmr ws ∧
      (∀ x ∈ ws, 0 < (s.ipr x).timer ∧
        s.ipReassTmr.ipr x = { s.ipr x with timer := (s.ipr x).timer - 1 }) ∧
      (∀ z ∈ zs, (s.ipr z).timer = 0) ∧
      (s.ipReassTmr.freed ++ queued s.ipReassTmr ws).Perm (s.freed ++ queued s xs) := by
  obtain ⟨ws, zs, rfl, hws, hzs⟩ := exists_live hi.timers
  have hlen := hi.length_le
  rw [List.length_append] at hlen
  obtain ⟨m, hseg, hrest⟩ := segment_append.mp hi.holds.segment
  obtain rfl := hrest.head_eq
  have hnodup := (List.nodup_append.mp hi.holds.nodup).1
  have hnot : ∀ z ∈ zs, z ∉ ws := fun z hz hmem =>
    (List.nodup_append.mp hi.holds.nodup).2.2 z hmem z hz rfl
  have hipr := tick_ipr s hnodup
  have hloop : s.ipReassTmr = ipReassTmrLoop (mempNumReassdata - ws.length) (tick s ws) zs.head?
      ws.getLast? := by
    have hfuel : mempNumReassdata = ws.length + (mempNumReassdata - ws.length) := by omega
    unfold ipReassTmr
    rw [hfuel, ipReassTmrLoop_tick _ _ hseg hws hnodup, ← hfuel, Option.or_none]
  obtain ⟨hinv, hipr', hperm⟩ := ipReassTmrLoop_dead (mempNumReassdata - ws.length)
    (tick_inv hi hzs) (by omega) fun z hz => by rw [hipr, if_neg (hnot z hz), hzs z hz]
  rw [← hloop] at hinv hipr' hperm
  have hq : ∀ vs, queued (tick s ws) vs = queued s vs := fun vs => by
    induction vs with
    | nil => rfl
    | cons v vs ih =>
      rw [queued, queued, ih, hipr]
      split <;> rfl
  refine ⟨ws, zs, rfl, hinv, fun x hx => ⟨hws x hx, ?_⟩, hzs, ?_⟩
  · rw [hipr', hipr, if_pos hx]
  · rw [hq, hq, (tick_fields s ws).2.2.2] at hperm
    rwa [queued_congr fun y _ => congrFun hipr' y, hq]

end FreeLwip.Ip.Reass
