import Mathlib.Data.BitVec
import Mathlib.Data.List.Basic
import Mathlib.Data.List.Perm.Basic

/-!
# Addresses, interfaces and the source-aware route (`ip_addr.h`, `netif.h`, `ip.c`)
-/

namespace FreeLwip.Ip

/-! ## Addresses -/

/-- An `ip_addr_t`: 32 bits in network order. -/
abbrev IpAddr := BitVec 32

def ipAddrAny : IpAddr := 0x00000000
def ipAddrBroadcast : IpAddr := 0xffffffff

/-- `PP_HTONL` on the little-endian CPU. -/
def ppHtonl (x : BitVec 32) : BitVec 32 :=
  ((x &&& 0xff) <<< 24) ||| ((x &&& 0xff00) <<< 8) ||| ((x &&& 0xff0000) >>> 8) |||
    ((x &&& 0xff000000) >>> 24)

def ipAddrNetcmp (addr1 addr2 mask : IpAddr) : Bool := addr1 &&& mask == addr2 &&& mask
def ipAddrCmp (addr1 addr2 : IpAddr) : Bool := addr1 == addr2
def ipAddrIsany (addr1 : IpAddr) : Bool := addr1 == ipAddrAny
def ipAddrIsmulticast (addr1 : IpAddr) : Bool :=
  addr1 &&& ppHtonl 0xf0000000 == ppHtonl 0xe0000000
def ipAddrIslinklocal (addr1 : IpAddr) : Bool :=
  addr1 &&& ppHtonl 0xffff0000 == ppHtonl 0xa9fe0000

/-! ## Interfaces -/

abbrev EthAddr := BitVec 48

/-- The fields of a `struct netif` that sending reads. -/
structure Netif where
  ipAddr : IpAddr
  netmask : IpAddr
  gw : IpAddr
  hwaddr : EthAddr
  mtu : BitVec 16
  flags : BitVec 8
  deriving DecidableEq, Repr

def netifFlagUp : BitVec 8 := 0x01
def netifFlagBroadcast : BitVec 8 := 0x02

def netifIsUp (netif : Netif) : Bool := netif.flags &&& netifFlagUp != 0

def ipAddrIsbroadcast (addr : IpAddr) (netif : Netif) : Bool :=
  if ~~~addr == ipAddrAny || addr == ipAddrAny then
    true
  else if netif.flags &&& netifFlagBroadcast == 0 then
    false
  else if addr == netif.ipAddr then
    false
  else if ipAddrNetcmp addr netif.ipAddr netif.netmask &&
      addr &&& ~~~netif.netmask == ipAddrBroadcast &&& ~~~netif.netmask then
    true
  else
    false

/-- A `struct netif *`. -/
abbrev NetifId := Nat

structure Interfaces where
  netif : NetifId → Netif
  netifList : List NetifId
  netifDefault : Option NetifId

/-! ## The route -/

/-- The condition of the scan; a NULL or ANY source matches every interface. -/
def routeMatches (src : Option IpAddr) (dest : IpAddr) (netif : Netif) : Bool :=
  netifIsUp netif && ipAddrNetcmp dest netif.ipAddr netif.netmask &&
    (match src with
      | none => true
      | some src => ipAddrIsany src || ipAddrCmp src netif.ipAddr)

def Interfaces.defaultRoute (ifs : Interfaces) : Option NetifId :=
  ifs.netifDefault.filter fun n => netifIsUp (ifs.netif n)

def ipRoute (ifs : Interfaces) (src : Option IpAddr) (dest : IpAddr) : Option NetifId :=
  match ifs.netifList.find? fun n => routeMatches src dest (ifs.netif n) with
  | some n => some n
  | none => ifs.defaultRoute

section Route

variable {ifs : Interfaces} {src dest : IpAddr} {n : NetifId}

theorem ipRoute_of_find {s : Option IpAddr}
    (h : ifs.netifList.find? (fun n => routeMatches s dest (ifs.netif n)) = some n) :
    ipRoute ifs s dest = some n := by
  rw [ipRoute, h]

theorem ipRoute_of_none {s : Option IpAddr}
    (h : ∀ m ∈ ifs.netifList, routeMatches s dest (ifs.netif m) = false) :
    ipRoute ifs s dest = ifs.defaultRoute := by
  have : ifs.netifList.find? (fun n => routeMatches s dest (ifs.netif n)) = none := by
    rw [List.find?_eq_none]
    intro m hm
    simp [h m hm]
  rw [ipRoute, this]

theorem ipRoute_cases {s : Option IpAddr} (h : ipRoute ifs s dest = some n) :
    (n ∈ ifs.netifList ∧ routeMatches s dest (ifs.netif n) = true ∧
      ifs.netifList.find? (fun n => routeMatches s dest (ifs.netif n)) = some n) ∨
    (ifs.defaultRoute = some n ∧
      ∀ m ∈ ifs.netifList, routeMatches s dest (ifs.netif m) = false) := by
  unfold ipRoute at h
  split at h
  · next m hm =>
    obtain rfl := Option.some.inj h
    exact .inl ⟨List.mem_of_find?_eq_some hm, by simpa using List.find?_some hm, hm⟩
  · next hm =>
    refine .inr ⟨h, fun m hmem => ?_⟩
    simpa using List.find?_eq_none.mp hm m hmem

theorem defaultRoute_up (h : ifs.defaultRoute = some n) : netifIsUp (ifs.netif n) = true := by
  rw [Interfaces.defaultRoute, Option.filter_eq_some_iff] at h
  exact h.2

theorem ipRoute_up {s : Option IpAddr} (h : ipRoute ifs s dest = some n) :
    netifIsUp (ifs.netif n) = true := by
  rcases ipRoute_cases h with ⟨-, hm, -⟩ | ⟨hd, -⟩
  · simp only [routeMatches, Bool.and_eq_true] at hm
    exact hm.1.1
  · exact defaultRoute_up hd

theorem routeMatches_any (netif : Netif) :
    routeMatches (some ipAddrAny) dest netif =
      (netifIsUp netif && ipAddrNetcmp dest netif.ipAddr netif.netmask) := by
  simp [routeMatches, ipAddrIsany]

theorem routeMatches_own {netif : Netif} (h : routeMatches (some ipAddrAny) dest netif = true) :
    routeMatches (some netif.ipAddr) dest netif = true := by
  rw [routeMatches_any] at h
  simp [routeMatches, ipAddrCmp, h]

theorem routeMatches_narrows {netif : Netif} {s : Option IpAddr}
    (h : routeMatches (some ipAddrAny) dest netif = false) :
    routeMatches s dest netif = false := by
  rw [routeMatches_any] at h
  simp [routeMatches, h]

/-- The interface that a route without source picks is picked again for its own address:
the interfaces before it in the list do not have the destination, whatever the source. -/
theorem ipRoute_stable (h : ipRoute ifs (some ipAddrAny) dest = some n) :
    ipRoute ifs (some (ifs.netif n).ipAddr) dest = some n := by
  rcases ipRoute_cases h with ⟨-, hm, hfind⟩ | ⟨hd, hnone⟩
  · apply ipRoute_of_find
    obtain ⟨-, before, after, hlist, hbefore⟩ := List.find?_eq_some_iff_append.mp hfind
    refine List.find?_eq_some_iff_append.mpr ⟨routeMatches_own hm, before, after, hlist, ?_⟩
    intro m hmem
    have := hbefore m hmem
    simp only [Bool.not_eq_true'] at this ⊢
    exact routeMatches_narrows this
  · rw [ipRoute_of_none fun m hmem => routeMatches_narrows (hnone m hmem), hd]

/-! ## Distinct addresses -/

/-- The interface is up, has the source address, and its subnet has the destination. -/
def Owns (ifs : Interfaces) (src dest : IpAddr) (n : NetifId) : Prop :=
  netifIsUp (ifs.netif n) = true ∧ (ifs.netif n).ipAddr = src ∧
    ipAddrNetcmp dest (ifs.netif n).ipAddr (ifs.netif n).netmask = true

/-- What a route for a source should be: its owner, and without one the default. -/
def IsSourceRoute (ifs : Interfaces) (src dest : IpAddr) (route : Option NetifId) : Prop :=
  (∃ n ∈ ifs.netifList, Owns ifs src dest n ∧ route = some n) ∨
    (∀ n ∈ ifs.netifList, ¬ Owns ifs src dest n) ∧ route = ifs.defaultRoute

def DistinctAddresses (ifs : Interfaces) : Prop :=
  (ifs.netifList.map fun n => (ifs.netif n).ipAddr).Nodup

theorem routeMatches_source (hs : src ≠ ipAddrAny) :
    routeMatches (some src) dest (ifs.netif n) = true ↔ Owns ifs src dest n := by
  simp only [routeMatches, ipAddrIsany, ipAddrCmp, beq_iff_eq, hs, Owns, Bool.and_eq_true,
    Bool.or_eq_true, false_or]
  constructor
  · rintro ⟨⟨hup, hnet⟩, hsrc⟩
    exact ⟨hup, hsrc.symm, hnet⟩
  · rintro ⟨hup, hsrc, hnet⟩
    exact ⟨⟨hup, hnet⟩, hsrc.symm⟩

theorem ipRoute_isSourceRoute (hs : src ≠ ipAddrAny) :
    IsSourceRoute ifs src dest (ipRoute ifs (some src) dest) := by
  cases hfind : ifs.netifList.find? fun n => routeMatches (some src) dest (ifs.netif n) with
  | some n =>
    refine .inl ⟨n, List.mem_of_find?_eq_some hfind, ?_, ipRoute_of_find hfind⟩
    rw [← routeMatches_source hs]
    simpa using List.find?_some hfind
  | none =>
    rw [List.find?_eq_none] at hfind
    refine .inr ⟨fun n hn howns => hfind n hn ?_, ipRoute_of_none fun n hn => ?_⟩
    · exact (routeMatches_source hs).mpr howns
    · simpa using hfind n hn

theorem isSourceRoute_unique (hd : DistinctAddresses ifs) {r r' : Option NetifId}
    (h : IsSourceRoute ifs src dest r) (h' : IsSourceRoute ifs src dest r') : r = r' := by
  rcases h with ⟨n, hn, howns, rfl⟩ | ⟨hnone, rfl⟩
  · rcases h' with ⟨m, hm, howns', rfl⟩ | ⟨hnone', -⟩
    · have hinj := List.inj_on_of_nodup_map hd hn hm
      rw [hinj (howns.2.1.trans howns'.2.1.symm)]
    · exact absurd howns (hnone' n hn)
  · rcases h' with ⟨m, hm, howns', -⟩ | ⟨-, rfl⟩
    · exact absurd howns' (hnone m hm)
    · rfl

theorem isSourceRoute_perm {l : List NetifId} (hl : l.Perm ifs.netifList) {r : Option NetifId} :
    IsSourceRoute { ifs with netifList := l } src dest r ↔ IsSourceRoute ifs src dest r := by
  unfold IsSourceRoute
  simp only [hl.mem_iff]
  rfl

theorem ipRoute_perm (hs : src ≠ ipAddrAny) (hd : DistinctAddresses ifs) {l : List NetifId}
    (hl : l.Perm ifs.netifList) :
    ipRoute { ifs with netifList := l } (some src) dest = ipRoute ifs (some src) dest :=
  isSourceRoute_unique hd ((isSourceRoute_perm hl).mp (ipRoute_isSourceRoute hs))
    (ipRoute_isSourceRoute hs)

end Route

end FreeLwip.Ip
