import FreeLwip.Ip.Output
import FreeLwip.Lib.Run
import FreeLwip.Lib.Singly

/-!
# Demultiplexing of received datagrams (`udp_input` of `udp.c`)

One pass over the list of pcbs tests each of them against the datagram, remembers the first
unconnected one, and moves the first that fits entirely to the front of the list. IGMP and
SO_REUSE_RXTOALL are off.
-/

namespace FreeLwip.Ip

open Run Singly

def udpFlagsConnected : BitVec 8 := 0x04
def dhcpClientPort : BitVec 16 := 68
def dhcpServerPort : BitVec 16 := 67

/-- The pcbs with their list, as `udp_input` sees them. -/
structure UdpPcbs where
  udpPcb : Nat → UdpPcb
  flags : Nat → BitVec 8
  udpPcbs : SList Nat

structure UdpDatagram where
  /-- `IPH_HL(iphdr) * 4` -/
  iphdrLen : Nat
  /-- The lengths of the first pbuf and of the chain, with the IP header. -/
  len : Nat
  totLen : Nat
  currentIphdrSrc : IpAddr
  currentIphdrDest : IpAddr
  src : BitVec 16
  dest : BitVec 16
  chksum : BitVec 16
  /-- What `inet_chksum_pseudo` makes of the datagram. -/
  chksumPseudo : BitVec 16

/-- The interface that a datagram came in on, and the pcb of its DHCP client. -/
structure Inp where
  netif : Netif
  dhcpPcb : Option Nat

/-- What becomes of a datagram. -/
inductive UdpAction
  | discard
  | recv (pcb : Nat)
  | icmpDestUnreach
  deriving DecidableEq, Repr

namespace UdpPcbs

variable (u : UdpPcbs) (g : UdpDatagram) (inp : Inp)

/-- The pcb's address and port against the destination. -/
def localMatch (pcb : Nat) : Bool :=
  let p := u.udpPcb pcb
  let broadcast := ipAddrIsbroadcast g.currentIphdrDest inp.netif
  p.localPort == g.dest &&
    (!broadcast && ipAddrIsany p.localIp || ipAddrCmp p.localIp g.currentIphdrDest ||
      broadcast && (ipAddrCmp p.localIp inp.netif.ipAddr || ipAddrIsany p.localIp))

def connected (pcb : Nat) : Bool := u.flags pcb &&& udpFlagsConnected != 0

/-- The pcb's remote address and port against the source. -/
def remoteMatch (pcb : Nat) : Bool :=
  let p := u.udpPcb pcb
  p.remotePort == g.src && (ipAddrIsany p.remoteIp || ipAddrCmp p.remoteIp g.currentIphdrSrc)

/-- The loop; no result stands for a loop that has not come to an end. -/
def search : Nat → Option Nat → Option Nat → Option Nat → Option (Option Nat × UdpPcbs)
  | 0, _, _, _ => none
  | _ + 1, none, _, unconPcb => some (unconPcb, u)
  | fuel + 1, some pcb, prev, unconPcb =>
    let matched := u.localMatch g inp pcb
    let unconPcb := if matched && unconPcb.isNone && !u.connected pcb then some pcb else unconPcb
    if matched && u.remoteMatch g pcb then
      match prev with
      | some prev => some (some pcb, { u with udpPcbs := u.udpPcbs.moveToFront prev pcb })
      | none => some (some pcb, u)
    else
      search fuel (u.udpPcbs.next pcb) (some pcb) unconPcb

/-- Datagrams to the client port are for the DHCP client of the interface only. -/
def dhcpMatch : Option Nat :=
  if g.src = dhcpServerPort then
    inp.dhcpPcb.filter fun pcb =>
      ipAddrIsany (u.udpPcb pcb).remoteIp || ipAddrCmp (u.udpPcb pcb).remoteIp g.currentIphdrSrc
  else
    none

def demux (fuel : Nat) : Option (Option Nat × UdpPcbs) :=
  if g.dest = dhcpClientPort then
    some (u.dhcpMatch g inp, u)
  else
    u.search g inp fuel u.udpPcbs.head none none

end UdpPcbs

/-- The datagram has no room for an IP header and a UDP header. -/
def UdpDatagram.short (g : UdpDatagram) : Bool := decide (g.totLen < g.iphdrLen + udpHlen)

/-- `pbuf_header` with the negated length of a header, on a first pbuf of `len` octets. One that
does not hold the header fails an `LWIP_ERROR`, which prints and does not return here. -/
def pbufHeader (len header : Nat) : Option Nat :=
  if header ≤ len then some (len - header) else none

/-- The end of `udp_input`, with the pcb that was found. -/
def UdpDatagram.deliver (g : UdpDatagram) (inp : Inp) (pcb : Option Nat) : Option UdpAction :=
  if pcb.isSome || ipAddrCmp inp.netif.ipAddr g.currentIphdrDest then
    if g.chksum ≠ 0 ∧ g.chksumPseudo ≠ 0 then
      some .discard
    else
      (pbufHeader (g.len - g.iphdrLen) udpHlen).map fun _ =>
        match pcb with
        | some pcb => .recv pcb
        | none =>
          if !ipAddrIsbroadcast g.currentIphdrDest inp.netif &&
              !ipAddrIsmulticast g.currentIphdrDest then
            .icmpDestUnreach
          else
            .discard
  else
    some .discard

/-- The pcb that was found, what becomes of the datagram, and the pcbs afterwards. No result
stands for a call that does not return. -/
def udpInput (fuel : Nat) (u : UdpPcbs) (g : UdpDatagram) (inp : Inp) :
    Option (Option Nat × UdpAction × UdpPcbs) :=
  if g.short then
    some (none, .discard, u)
  else
    (pbufHeader g.len g.iphdrLen).bind fun _ =>
      (u.demux g inp fuel).bind fun (pcb, u) =>
        (g.deliver inp pcb).map fun act => (pcb, act, u)

/-! ## What is to be found -/

section Spec

variable (u : UdpPcbs) (g : UdpDatagram) (inp : Inp)

/-- The pcb has the destination port, and is bound to any address, to the destination, or to
the interface's own address if the destination is broadcast there. -/
def LocalMatch (pcb : Nat) : Prop :=
  (u.udpPcb pcb).localPort = g.dest ∧
    ((u.udpPcb pcb).localIp = ipAddrAny ∨ (u.udpPcb pcb).localIp = g.currentIphdrDest ∨
      (ipAddrIsbroadcast g.currentIphdrDest inp.netif = true ∧
        (u.udpPcb pcb).localIp = inp.netif.ipAddr))

/-- The pcb takes datagrams of the sender. -/
def RemoteMatch (pcb : Nat) : Prop :=
  (u.udpPcb pcb).remotePort = g.src ∧
    ((u.udpPcb pcb).remoteIp = ipAddrAny ∨ (u.udpPcb pcb).remoteIp = g.currentIphdrSrc)

instance (pcb : Nat) : Decidable (LocalMatch u g inp pcb) :=
  inferInstanceAs (Decidable (_ ∧ _))

instance (pcb : Nat) : Decidable (RemoteMatch u g pcb) :=
  inferInstanceAs (Decidable (_ ∧ _))

def firstFull (xs : List Nat) : Option Nat :=
  xs.find? fun x => decide (LocalMatch u g inp x ∧ RemoteMatch u g x)

def firstUnconnected (xs : List Nat) : Option Nat :=
  xs.find? fun x => decide (LocalMatch u g inp x ∧ u.connected x = false)

/-- The first full match, or else the first local match that is not connected. -/
def chosen (xs : List Nat) : Option Nat :=
  (firstFull u g inp xs).or (firstUnconnected u g inp xs)

/-- The list with the full match moved to the front. -/
def reordered (xs : List Nat) : List Nat :=
  match firstFull u g inp xs with
  | some x => x :: xs.erase x
  | none => xs

theorem localMatch_iff (pcb : Nat) : u.localMatch g inp pcb = true ↔ LocalMatch u g inp pcb := by
  unfold UdpPcbs.localMatch LocalMatch ipAddrIsany ipAddrCmp
  cases hb : ipAddrIsbroadcast g.currentIphdrDest inp.netif <;>
    simp only [Bool.and_eq_true, Bool.or_eq_true, beq_iff_eq, Bool.not_true, Bool.not_false,
      Bool.false_eq_true, false_and, true_and, false_or, or_false]
  refine and_congr_right fun _ => ?_
  rw [← or_assoc, or_comm]

theorem remoteMatch_iff (pcb : Nat) : u.remoteMatch g pcb = true ↔ RemoteMatch u g pcb := by
  simp [UdpPcbs.remoteMatch, RemoteMatch, ipAddrIsany, ipAddrCmp]

end Spec

/-! ## The search -/

section Search

variable {u : UdpPcbs} {g : UdpDatagram} {inp : Inp} {xs pre rest : List Nat} {x : Nat}

theorem reordered_perm : (reordered u g inp xs).Perm xs := by
  unfold reordered
  split
  · next x hx => exact (List.perm_cons_erase (List.mem_of_find?_eq_some hx)).symm
  · exact List.Perm.refl xs

theorem firstFull_append (hpre : ∀ y ∈ pre, ¬ (LocalMatch u g inp y ∧ RemoteMatch u g y)) :
    firstFull u g inp (pre ++ rest) = firstFull u g inp rest := by
  unfold firstFull
  rw [List.find?_append, List.find?_eq_none.mpr (by simpa using hpre), Option.none_or]

theorem firstUnconnected_concat :
    firstUnconnected u g inp (pre ++ [x]) =
      if u.localMatch g inp x && (firstUnconnected u g inp pre).isNone && !u.connected x then
        some x
      else
        firstUnconnected u g inp pre := by
  have hx := localMatch_iff u g inp x
  unfold firstUnconnected
  rw [List.find?_append, List.find?_singleton]
  cases hpre : pre.find? fun x => decide (LocalMatch u g inp x ∧ u.connected x = false) with
  | some y => simp
  | none => simp [← hx]

theorem reordered_full (hpre : ∀ y ∈ pre, ¬ (LocalMatch u g inp y ∧ RemoteMatch u g y))
    (hx : LocalMatch u g inp x ∧ RemoteMatch u g x) (hnodup : (pre ++ x :: rest).Nodup) :
    reordered u g inp (pre ++ x :: rest) = x :: (pre ++ rest) := by
  have hfirst : firstFull u g inp (pre ++ x :: rest) = some x := by
    rw [firstFull_append hpre]
    simp [firstFull, hx]
  have hxpre : x ∉ pre := fun hmem =>
    (List.nodup_append.mp hnodup).2.2 x hmem x List.mem_cons_self rfl
  rw [reordered, hfirst]
  simp only
  rw [List.erase_append_right _ hxpre, List.erase_cons_head]

theorem search_spec (g : UdpDatagram) (inp : Inp) {fuel : Nat} {cur : Option Nat}
    (hlist : u.udpPcbs.Holds (pre ++ rest))
    (hcur : Segment u.udpPcbs.next cur rest none)
    (hpre : ∀ y ∈ pre, ¬ (LocalMatch u g inp y ∧ RemoteMatch u g y))
    (hfuel : rest.length < fuel) :
    ∃ l, u.search g inp fuel cur pre.getLast? (firstUnconnected u g inp pre) =
        some (chosen u g inp (pre ++ rest), { u with udpPcbs := l }) ∧
      l.Holds (reordered u g inp (pre ++ rest)) := by
  induction rest generalizing pre fuel cur with
  | nil =>
    obtain ⟨fuel, rfl⟩ := Nat.exists_eq_succ_of_ne_zero (Nat.ne_of_gt hfuel)
    obtain rfl : cur = none := hcur
    have hnone : firstFull u g inp (pre ++ []) = none := by
      rw [firstFull_append hpre]
      rfl
    refine ⟨u.udpPcbs, ?_, ?_⟩
    · rw [UdpPcbs.search, chosen, hnone, Option.none_or, List.append_nil]
    · rw [reordered, hnone]
      exact hlist
  | cons x rest ih =>
    obtain ⟨fuel, rfl⟩ := Nat.exists_eq_succ_of_ne_zero (Nat.ne_of_gt (Nat.zero_lt_of_lt hfuel))
    obtain ⟨rfl, hrest⟩ := hcur
    have hlocal := localMatch_iff u g inp x
    have hremote := remoteMatch_iff u g x
    by_cases hfull : LocalMatch u g inp x ∧ RemoteMatch u g x
    · have hmatch : (u.localMatch g inp x && u.remoteMatch g x) = true := by
        rw [Bool.and_eq_true, hlocal, hremote]
        exact hfull
      have hchosen : chosen u g inp (pre ++ x :: rest) = some x := by
        rw [chosen, firstFull_append hpre]
        simp [firstFull, hfull]
      simp only [UdpPcbs.search, hmatch, if_true]
      rw [hchosen, reordered_full hpre hfull hlist.nodup]
      rcases List.eq_nil_or_concat pre with rfl | ⟨before, p, rfl⟩
      · exact ⟨u.udpPcbs, rfl, hlist⟩
      · rw [List.concat_eq_append] at hlist ⊢
        rw [List.getLast?_concat]
        rw [List.append_assoc, List.singleton_append] at hlist ⊢
        exact ⟨_, rfl, hlist.moveToFront⟩
    · have hmatch : (u.localMatch g inp x && u.remoteMatch g x) = false := by
        rw [Bool.eq_false_iff, Ne, Bool.and_eq_true, hlocal, hremote]
        exact hfull
      have hpre' : ∀ y ∈ pre ++ [x], ¬ (LocalMatch u g inp y ∧ RemoteMatch u g y) := by
        intro y hy
        rcases List.mem_append.mp hy with hy | hy
        · exact hpre y hy
        · rwa [List.mem_singleton.mp hy]
      have hgo := ih (by simpa using hlist) hrest hpre' (by simpa using hfuel)
      rw [List.getLast?_concat, firstUnconnected_concat, List.append_assoc,
        List.singleton_append] at hgo
      simp only [UdpPcbs.search, hmatch, Bool.false_eq_true, if_false]
      exact hgo

end Search

section Input

variable {u u' : UdpPcbs} {g : UdpDatagram} {inp : Inp} {xs : List Nat} {fuel : Nat}

theorem udpInput_short (hshort : g.short = true) :
    udpInput fuel u g inp = some (none, .discard, u) := by
  simp [udpInput, hshort]

theorem demux_spec (g : UdpDatagram) (inp : Inp) (hlist : u.udpPcbs.Holds xs)
    (hdest : g.dest ≠ dhcpClientPort) (hfuel : xs.length < fuel) :
    ∃ l, u.demux g inp fuel = some (chosen u g inp xs, { u with udpPcbs := l }) ∧
      l.Holds (reordered u g inp xs) := by
  obtain ⟨l, hsearch, hl⟩ := search_spec g inp (List.nil_append xs ▸ hlist)
    hlist.segment (List.forall_mem_nil _) hfuel
  refine ⟨l, ?_, hl⟩
  unfold UdpPcbs.demux
  rw [if_neg hdest]
  exact hsearch

theorem udpInput_of_demux {r : Option Nat × UdpPcbs} (hshort : g.short = false)
    (hhdr : g.iphdrLen ≤ g.len) (hdemux : u.demux g inp fuel = some r) :
    udpInput fuel u g inp = (g.deliver inp r.1).map fun act => (r.1, act, r.2) := by
  simp [udpInput, hshort, pbufHeader, hhdr, hdemux]

theorem demux_of_udpInput {r : Option Nat} {act : UdpAction} (hshort : g.short = false)
    (h : udpInput fuel u g inp = some (r, act, u')) : u.demux g inp fuel = some (r, u') := by
  simp only [udpInput, hshort, Bool.false_eq_true, if_false] at h
  obtain ⟨_, -, h⟩ := Option.bind_eq_some_iff.mp h
  obtain ⟨⟨r', v⟩, hdemux, h⟩ := Option.bind_eq_some_iff.mp h
  obtain ⟨act', -, h⟩ := Option.map_eq_some_iff.mp h
  obtain ⟨rfl, -, rfl⟩ := Prod.mk.inj h |>.imp_right Prod.mk.inj
  exact hdemux

theorem udpInput_keeps {r : Option Nat} {act : UdpAction} (hlist : u.udpPcbs.Holds xs)
    (hfuel : xs.length < fuel) (h : udpInput fuel u g inp = some (r, act, u')) :
    u'.udpPcb = u.udpPcb ∧ u'.flags = u.flags ∧ ∃ ys, u'.udpPcbs.Holds ys ∧ ys.Perm xs := by
  cases hshort : g.short with
  | true =>
    rw [udpInput_short hshort] at h
    obtain ⟨-, -, rfl⟩ := h
    exact ⟨rfl, rfl, xs, hlist, List.Perm.refl xs⟩
  | false =>
    have hdemux := demux_of_udpInput hshort h
    by_cases hdest : g.dest = dhcpClientPort
    · rw [UdpPcbs.demux, if_pos hdest] at hdemux
      obtain ⟨-, rfl⟩ := Prod.mk.inj (Option.some.inj hdemux)
      exact ⟨rfl, rfl, xs, hlist, List.Perm.refl xs⟩
    · obtain ⟨l, hspec, hl⟩ := demux_spec g inp hlist hdest hfuel
      rw [hspec] at hdemux
      obtain ⟨-, rfl⟩ := Prod.mk.inj (Option.some.inj hdemux)
      exact ⟨rfl, rfl, _, hl, reordered_perm⟩

end Input

/-! ## One datagram after the other -/

/-- A datagram comes in. -/
def udpStep (fuel : Nat) (u : UdpPcbs) (a : UdpDatagram × Inp) : Option UdpPcbs :=
  (udpInput fuel u a.1 a.2).map fun r => r.2.2

/-- Neither the IP header nor the UDP header is cut off, and the checksum is right. -/
def UdpDatagram.Intact (g : UdpDatagram) : Prop :=
  g.iphdrLen + udpHlen ≤ g.len ∧ g.len ≤ g.totLen ∧ (g.chksum = 0 ∨ g.chksumPseudo = 0)

/-- The unconnected pcbs of a port are bound to the addresses of two interfaces. -/
structure BoundPerNetif (u : UdpPcbs) (xs : List Nat) (port : BitVec 16) (netif1 netif2 : Netif)
    (pcb1 pcb2 : Nat) : Prop where
  mem1 : pcb1 ∈ xs
  mem2 : pcb2 ∈ xs
  localPort1 : (u.udpPcb pcb1).localPort = port
  localPort2 : (u.udpPcb pcb2).localPort = port
  localIp1 : (u.udpPcb pcb1).localIp = netif1.ipAddr
  localIp2 : (u.udpPcb pcb2).localIp = netif2.ipAddr
  unconnected1 : u.connected pcb1 = false
  unconnected2 : u.connected pcb2 = false
  only : ∀ y ∈ xs, (u.udpPcb y).localPort = port → y = pcb1 ∨ y = pcb2
  distinct : netif1.ipAddr ≠ netif2.ipAddr

/-- The interface has an address of its own. -/
def Addressed (netif : Netif) : Prop :=
  netif.ipAddr ≠ ipAddrAny ∧ netif.ipAddr ≠ ipAddrBroadcast

section Broadcast

variable {u u' : UdpPcbs} {g : UdpDatagram} {inp inp1 inp2 : Inp} {xs ys : List Nat}
  {fuel : Nat} {port : BitVec 16} {netif1 netif2 : Netif} {pcb1 pcb2 : Nat}

theorem BoundPerNetif.symm (h : BoundPerNetif u xs port netif1 netif2 pcb1 pcb2) :
    BoundPerNetif u xs port netif2 netif1 pcb2 pcb1 where
  mem1 := h.mem2
  mem2 := h.mem1
  localPort1 := h.localPort2
  localPort2 := h.localPort1
  localIp1 := h.localIp2
  localIp2 := h.localIp1
  unconnected1 := h.unconnected2
  unconnected2 := h.unconnected1
  only y hy hport := (h.only y hy hport).symm
  distinct := h.distinct.symm

theorem BoundPerNetif.congr (h : BoundPerNetif u xs port netif1 netif2 pcb1 pcb2)
    (hpcb : u'.udpPcb = u.udpPcb) (hflags : u'.flags = u.flags) (hperm : ys.Perm xs) :
    BoundPerNetif u' ys port netif1 netif2 pcb1 pcb2 := by
  have hconn : u'.connected = u.connected := by
    funext pcb
    rw [UdpPcbs.connected, UdpPcbs.connected, hflags]
  constructor
  case mem1 => exact hperm.mem_iff.mpr h.mem1
  case mem2 => exact hperm.mem_iff.mpr h.mem2
  case distinct => exact h.distinct
  case only => exact fun y hy => hpcb ▸ h.only y (hperm.mem_iff.mp hy)
  all_goals first | rw [hpcb] | rw [hconn]
  exacts [h.localPort1, h.localPort2, h.localIp1, h.localIp2, h.unconnected1, h.unconnected2]

theorem ne_of_isbroadcast {addr : IpAddr} {netif : Netif} (hown : Addressed netif)
    (hb : ipAddrIsbroadcast addr netif = true) : addr ≠ netif.ipAddr := by
  rintro rfl
  have hall : (~~~netif.ipAddr == ipAddrAny) = false := by
    rw [beq_eq_false_iff_ne]
    intro h
    apply hown.2
    rw [← BitVec.not_not (b := netif.ipAddr), h]
    rfl
  have hany : (netif.ipAddr == ipAddrAny) = false := beq_eq_false_iff_ne.mpr hown.1
  simp [ipAddrIsbroadcast, hall, hany] at hb

theorem chosen_of_only {x : Nat} (hmem : x ∈ xs) (hx : LocalMatch u g inp x)
    (hconn : u.connected x = false) (honly : ∀ y ∈ xs, LocalMatch u g inp y → y = x) :
    chosen u g inp xs = some x := by
  unfold chosen
  cases hfull : firstFull u g inp xs with
  | some y =>
    have hy : LocalMatch u g inp y ∧ RemoteMatch u g y := by
      simpa using List.find?_some hfull
    rw [honly y (List.mem_of_find?_eq_some hfull) hy.1, Option.some_or]
  | none =>
    rw [Option.none_or]
    cases hun : firstUnconnected u g inp xs with
    | some y =>
      have hy : LocalMatch u g inp y ∧ u.connected y = false := by
        simpa using List.find?_some hun
      rw [honly y (List.mem_of_find?_eq_some hun) hy.1]
    | none =>
      have hnot := List.find?_eq_none.mp hun x hmem
      simp [hx, hconn] at hnot

theorem BoundPerNetif.chosen (h : BoundPerNetif u xs port inp1.netif netif2 pcb1 pcb2)
    (hown2 : Addressed netif2) (hport : g.dest = port)
    (hb1 : ipAddrIsbroadcast g.currentIphdrDest inp1.netif = true)
    (hb2 : ipAddrIsbroadcast g.currentIphdrDest netif2 = true) :
    chosen u g inp1 xs = some pcb1 := by
  refine chosen_of_only h.mem1 ⟨h.localPort1.trans hport.symm, .inr (.inr ⟨hb1, h.localIp1⟩)⟩
    h.unconnected1 fun y hy hlocal => ?_
  rcases h.only y hy (hlocal.1.trans hport) with rfl | rfl
  · rfl
  -- The pcb of the other interface is bound to neither of the addresses that would do.
  · have hip := hlocal.2
    rw [h.localIp2] at hip
    rcases hip with hany | hdest | ⟨-, hinp⟩
    · exact absurd hany hown2.1
    · exact absurd hdest.symm (ne_of_isbroadcast hown2 hb2)
    · exact absurd hinp.symm h.distinct

theorem UdpDatagram.Intact.not_short (h : g.Intact) : g.short = false := by
  obtain ⟨hlen, htot, -⟩ := h
  simp only [UdpDatagram.short, decide_eq_false_iff_not, Nat.not_lt]
  omega

theorem UdpDatagram.Intact.deliver {pcb : Nat} (h : g.Intact) :
    g.deliver inp (some pcb) = some (.recv pcb) := by
  obtain ⟨hlen, -, hchksum⟩ := h
  have hheader : udpHlen ≤ g.len - g.iphdrLen := by omega
  have hsum : ¬ (g.chksum ≠ 0 ∧ g.chksumPseudo ≠ 0) := by
    rintro ⟨h1, h2⟩
    exact hchksum.elim h1 h2
  unfold UdpDatagram.deliver
  rw [if_pos (by simp), if_neg hsum, pbufHeader, if_pos hheader]
  rfl

theorem BoundPerNetif.udpInput (h : BoundPerNetif u xs port inp1.netif netif2 pcb1 pcb2)
    (hlist : u.udpPcbs.Holds xs) (hfuel : xs.length < fuel) (hdhcp : port ≠ dhcpClientPort)
    (hown2 : Addressed netif2) (hintact : g.Intact) (hport : g.dest = port)
    (hb1 : ipAddrIsbroadcast g.currentIphdrDest inp1.netif = true)
    (hb2 : ipAddrIsbroadcast g.currentIphdrDest netif2 = true) :
    ∃ v, udpInput fuel u g inp1 = some (some pcb1, .recv pcb1, v) := by
  obtain ⟨l, hdemux, -⟩ := demux_spec g inp1 hlist (hport ▸ hdhcp) hfuel
  have hinput := udpInput_of_demux hintact.not_short (Nat.le_of_add_right_le hintact.1) hdemux
  rw [h.chosen hown2 hport hb1 hb2, hintact.deliver] at hinput
  exact ⟨_, hinput⟩

theorem udpRun_keeps {as : List (UdpDatagram × Inp)} (hlist : u.udpPcbs.Holds xs)
    (hfuel : xs.length < fuel) (hrun : run (udpStep fuel) u as = some u') :
    u'.udpPcb = u.udpPcb ∧ u'.flags = u.flags ∧ ∃ ys, u'.udpPcbs.Holds ys ∧ ys.Perm xs := by
  refine run_invariant (I := fun v : UdpPcbs => v.udpPcb = u.udpPcb ∧ v.flags = u.flags ∧
    ∃ ys, v.udpPcbs.Holds ys ∧ ys.Perm xs) ?_ ⟨rfl, rfl, xs, hlist, List.Perm.refl xs⟩ hrun
  rintro v ⟨g, inp⟩ w ⟨hpcb, hflags, ys, hys, hperm⟩ hstep
  obtain ⟨⟨r, act, w'⟩, hinput, rfl⟩ := Option.map_eq_some_iff.mp hstep
  obtain ⟨hpcb', hflags', zs, hzs, hperm'⟩ :=
    udpInput_keeps hys (hperm.length_eq ▸ hfuel) hinput
  exact ⟨hpcb'.trans hpcb, hflags'.trans hflags, zs, hzs, hperm'.trans hperm⟩

/-- Each datagram goes to the first full match, or to the first unconnected local match, and
the list is reordered at most. When two unconnected pcbs are bound to the addresses of two
interfaces, then after any traffic each of them gets the broadcasts of its own interface. -/
theorem udpInput_demultiplexes :
    (∀ (fuel : Nat) (u : UdpPcbs) (g : UdpDatagram) (inp : Inp) (xs : List Nat),
      u.udpPcbs.Holds xs → xs.length < fuel → g.dest ≠ dhcpClientPort → g.short = false →
      g.iphdrLen ≤ g.len →
      ∃ l, u.demux g inp fuel = some (chosen u g inp xs, { u with udpPcbs := l }) ∧
        udpInput fuel u g inp = ((g.deliver inp (chosen u g inp xs)).map fun act =>
          (chosen u g inp xs, act, { u with udpPcbs := l })) ∧
        l.Holds (reordered u g inp xs) ∧ (reordered u g inp xs).Perm xs) ∧
    (∀ (fuel : Nat) (u u' : UdpPcbs) (xs : List Nat) (port : BitVec 16) (inp1 inp2 : Inp)
      (pcb1 pcb2 : Nat) (as : List (UdpDatagram × Inp)),
      u.udpPcbs.Holds xs → xs.length < fuel → port ≠ dhcpClientPort →
      BoundPerNetif u xs port inp1.netif inp2.netif pcb1 pcb2 →
      Addressed inp1.netif → Addressed inp2.netif → run (udpStep fuel) u as = some u' →
      ∀ g : UdpDatagram, g.Intact → g.dest = port →
        ipAddrIsbroadcast g.currentIphdrDest inp1.netif = true →
        ipAddrIsbroadcast g.currentIphdrDest inp2.netif = true →
        (∃ v, udpInput fuel u' g inp1 = some (some pcb1, .recv pcb1, v)) ∧
        (∃ v, udpInput fuel u' g inp2 = some (some pcb2, .recv pcb2, v))) := by
  constructor
  · intro fuel u g inp xs hlist hfuel hdest hshort hhdr
    obtain ⟨l, hdemux, hl⟩ := demux_spec g inp hlist hdest hfuel
    exact ⟨l, hdemux, udpInput_of_demux hshort hhdr hdemux, hl, reordered_perm⟩
  · intro fuel u u' xs port inp1 inp2 pcb1 pcb2 as hlist hfuel hdhcp hbound hown1 hown2 hrun
      g hintact hport hb1 hb2
    obtain ⟨hpcb, hflags, ys, hys, hperm⟩ := udpRun_keeps hlist hfuel hrun
    have hbound' := hbound.congr hpcb hflags hperm
    have hfuel' : ys.length < fuel := hperm.length_eq ▸ hfuel
    exact ⟨hbound'.udpInput hys hfuel' hdhcp hown2 hintact hport hb1 hb2,
      hbound'.symm.udpInput hys hfuel' hdhcp hown1 hintact hport hb2 hb1⟩

end Broadcast

/-- Two unconnected pcbs on port 5000, the first in the list bound to `ip2`. -/
def twoPcbs (ip1 ip2 : IpAddr) : UdpPcbs where
  udpPcb pcb := ⟨if pcb = 1 then ip1 else ip2, ipAddrAny, 0, 0, 255, 5000, 0⟩
  flags _ := 0
  udpPcbs := ⟨some 2, fun pcb => if pcb = 2 then some 1 else none⟩

def inpMasked (ip netmask : IpAddr) : Inp where
  netif := ⟨ip, netmask, 0, 0xa0, 1500, netifFlagUp ||| netifFlagBroadcast⟩
  dhcpPcb := none

def inpWith (ip : IpAddr) : Inp := inpMasked ip (ppHtonl 0xffffff00)

/-- A datagram of 10.0.0.9. -/
def datagramTo (dest : IpAddr) : UdpDatagram :=
  ⟨20, 60, 60, ppHtonl 0x0a000009, dest, 6000, 5000, 0, 0⟩

def broadcastDatagram : UdpDatagram := datagramTo ipAddrBroadcast

theorem twoPcbs_bound (ip1 ip2 mask1 mask2 : IpAddr) (hne : ip1 ≠ ip2) :
    BoundPerNetif (twoPcbs ip1 ip2) [2, 1] 5000 (inpMasked ip1 mask1).netif
      (inpMasked ip2 mask2).netif 1 2 where
  mem1 := by simp
  mem2 := by simp
  localPort1 := rfl
  localPort2 := rfl
  localIp1 := rfl
  localIp2 := rfl
  unconnected1 := by simp [UdpPcbs.connected, twoPcbs]
  unconnected2 := by simp [UdpPcbs.connected, twoPcbs]
  only y hy _ := by simpa [or_comm] using hy
  distinct := hne

theorem twoPcbs_holds (ip1 ip2 : IpAddr) : (twoPcbs ip1 ip2).udpPcbs.Holds [2, 1] :=
  ⟨⟨rfl, rfl, rfl⟩, by decide⟩

/-- The copies of one broadcast, first the one of the interface whose pcb is behind. -/
theorem udpInput_demultiplexes_two :
    (∃ l, (twoPcbs (ppHtonl 0x0a000001) (ppHtonl 0x0a000002)).demux broadcastDatagram
          (inpWith (ppHtonl 0x0a000001)) 3 =
        some (some 1, { twoPcbs (ppHtonl 0x0a000001) (ppHtonl 0x0a000002) with udpPcbs := l }) ∧
      udpInput 3 (twoPcbs (ppHtonl 0x0a000001) (ppHtonl 0x0a000002)) broadcastDatagram
          (inpWith (ppHtonl 0x0a000001)) =
        some (some 1, .recv 1,
          { twoPcbs (ppHtonl 0x0a000001) (ppHtonl 0x0a000002) with udpPcbs := l }) ∧
      l.Holds [2, 1] ∧ [2, 1].Perm [2, 1]) ∧
    ∃ u', run (udpStep 3) (twoPcbs (ppHtonl 0x0a000001) (ppHtonl 0x0a000002))
        [(broadcastDatagram, inpWith (ppHtonl 0x0a000001))] = some u' ∧
      (∃ v, udpInput 3 u' broadcastDatagram (inpWith (ppHtonl 0x0a000001)) =
        some (some 1, .recv 1, v)) ∧
      (∃ v, udpInput 3 u' broadcastDatagram (inpWith (ppHtonl 0x0a000002)) =
        some (some 2, .recv 2, v)) :=
  ⟨udpInput_demultiplexes.1 3 _ broadcastDatagram (inpWith (ppHtonl 0x0a000001)) [2, 1]
      (twoPcbs_holds _ _) (by decide) (by decide) (by decide) (by decide),
    _, rfl, udpInput_demultiplexes.2 3 _ _ [2, 1] 5000 _ _ 1 2
    [(broadcastDatagram, inpWith (ppHtonl 0x0a000001))] (twoPcbs_holds _ _) (by decide)
    (by decide) (twoPcbs_bound _ _ _ _ (by decide)) ⟨by decide, by decide⟩ ⟨by decide, by decide⟩
    rfl broadcastDatagram ⟨by decide, by decide, .inl rfl⟩ rfl (by decide) (by decide)⟩

/-- The pcb that is bound to an interface without an address, 0.0.0.0, is bound to any
address: it gets the copy of the other interface too. And a pcb that is bound to the very
address that is broadcast on the other interface, 10.0.0.255, gets what comes to that address. -/
theorem broadcast_to_other_netif :
    ((twoPcbs (ppHtonl 0x0a000001) ipAddrAny).udpPcbs.Holds [2, 1] ∧
      BoundPerNetif (twoPcbs (ppHtonl 0x0a000001) ipAddrAny) [2, 1] 5000
        (inpWith (ppHtonl 0x0a000001)).netif (inpWith ipAddrAny).netif 1 2 ∧
      ipAddrIsbroadcast broadcastDatagram.currentIphdrDest
        (inpWith (ppHtonl 0x0a000001)).netif = true ∧
      ipAddrIsbroadcast broadcastDatagram.currentIphdrDest (inpWith ipAddrAny).netif = true ∧
      broadcastDatagram.Intact ∧
      udpInput 3 (twoPcbs (ppHtonl 0x0a000001) ipAddrAny) broadcastDatagram
          (inpWith (ppHtonl 0x0a000001)) =
        some (some 2, .recv 2, twoPcbs (ppHtonl 0x0a000001) ipAddrAny)) ∧
    (BoundPerNetif (twoPcbs (ppHtonl 0x0a000001) (ppHtonl 0x0a0000ff)) [2, 1] 5000
        (inpWith (ppHtonl 0x0a000001)).netif
        (inpMasked (ppHtonl 0x0a0000ff) (ppHtonl 0xffff0000)).netif 1 2 ∧
      Addressed (inpWith (ppHtonl 0x0a000001)).netif ∧
      Addressed (inpMasked (ppHtonl 0x0a0000ff) (ppHtonl 0xffff0000)).netif ∧
      ipAddrIsbroadcast (ppHtonl 0x0a0000ff) (inpWith (ppHtonl 0x0a000001)).netif = true ∧
      (datagramTo (ppHtonl 0x0a0000ff)).Intact ∧
      udpInput 3 (twoPcbs (ppHtonl 0x0a000001) (ppHtonl 0x0a0000ff))
          (datagramTo (ppHtonl 0x0a0000ff)) (inpWith (ppHtonl 0x0a000001)) =
        some (some 2, .recv 2, twoPcbs (ppHtonl 0x0a000001) (ppHtonl 0x0a0000ff))) :=
  ⟨⟨twoPcbs_holds _ _, twoPcbs_bound _ _ _ _ (by decide), by decide, by decide,
      ⟨by decide, by decide, .inl rfl⟩, rfl⟩,
    twoPcbs_bound _ _ _ _ (by decide), ⟨by decide, by decide⟩, ⟨by decide, by decide⟩, by decide,
    ⟨by decide, by decide, .inl rfl⟩, rfl⟩

end FreeLwip.Ip
