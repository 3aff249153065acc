import FreeLwip.Ip.Output

/-!
# Source addresses and outgoing interfaces

What the source-aware route promises to its callers, and on which interface a packet
leaves in a run of sends, ARP traffic and interface changes.
-/

namespace FreeLwip

/-- Neither ERR_RTE nor ERR_VAL. -/
def Err.Routed (err : Err) : Prop :=
  err ≠ .rte ∧ err ≠ .val

end FreeLwip

namespace FreeLwip.Ip

open Run

/-! ## A destination in the subnet is no routing error -/

namespace Stack

variable (s : Stack)

theorem etharpRequest_err (netif : NetifId) (ipaddr : IpAddr) :
    (s.etharpRequest netif ipaddr).1.Routed := by
  unfold etharpRequest etharpRaw
  simp only
  split <;> simp [Err.Routed, linkoutput]

theorem queuePacket_err (i : ArpIndex) (q : Packet) : (s.queuePacket i q).1.Routed := by
  unfold queuePacket
  split
  · simp [Err.Routed]
  · split <;> simp [Err.Routed]

theorem etharpQuery_err (netif : NetifId) (ipaddr : IpAddr) (q : Option Packet) :
    (s.etharpQuery netif ipaddr q).1.Routed := by
  unfold etharpQuery
  split
  · simp [Err.Routed]
  · split
    · simp [Err.Routed]
    · next i s' _ =>
      simp only
      generalize (if (s'.arpTable i).state = .empty then
        s'.setEntry i { s'.arpTable i with state := .pending } else s') = s₁
      have hr : (if (s₁.arpTable i).state = .pending ∨ q = none then
          s₁.etharpRequest netif ipaddr else (Err.mem, s₁)).1.Routed := by
        split
        · exact s₁.etharpRequest_err netif ipaddr
        · simp [Err.Routed]
      generalize (if (s₁.arpTable i).state = .pending ∨ q = none then
        s₁.etharpRequest netif ipaddr else (Err.mem, s₁)) = r at hr ⊢
      split
      · exact hr
      · split
        · simp [Err.Routed, etharpSendIp, linkoutput]
        · split
          · exact queuePacket_err _ i _
          · exact hr

theorem outputUnicast_err (netif : NetifId) (q : Packet) (dstAddr : IpAddr) :
    (s.outputUnicast netif q dstAddr).1.Routed := by
  unfold outputUnicast
  split
  · simp [Err.Routed, etharpOutputToArpIndex, etharpSendIp, linkoutput]
  · simp only
    split
    · simp [Err.Routed, etharpOutputToArpIndex, etharpSendIp, linkoutput]
    · exact s.etharpQuery_err netif dstAddr (some q)

theorem etharpOutput_err (netif : NetifId) (q : Packet) (ipaddr : IpAddr)
    (h : ipAddrNetcmp ipaddr (s.ifs.netif netif).ipAddr (s.ifs.netif netif).netmask = true) :
    (s.etharpOutput netif q ipaddr).1.Routed := by
  unfold etharpOutput
  split
  · simp [Err.Routed]
  · next s' hreq =>
    rw [← (s.request_quiet hreq).ifs] at h
    simp only [h]
    split
    · simp [Err.Routed, etharpSendIp, linkoutput]
    · -- in the subnet, so the next hop needs no gateway
      split
      · simp [Err.Routed, etharpSendIp, linkoutput]
      · simp only [Bool.not_true, Bool.false_and, Bool.false_eq_true, if_false]
        exact s'.outputUnicast_err netif q ipaddr

theorem ipFragLoop_err (netif : NetifId) (dest : IpAddr) (p : Packet) (mtu fuel : Nat)
    (left : List (BitVec 8)) (ofo : BitVec 16) :
    (ipFragLoop netif dest p mtu fuel s left ofo).1.Routed := by
  induction fuel generalizing s left ofo with
  | zero => simp [ipFragLoop, Err.Routed]
  | succ fuel ih =>
    unfold ipFragLoop
    split
    · simp [Err.Routed]
    · split
      · simp [Err.Routed]
      · exact ih _ _ _

theorem ipOutputPacket_err (p : Packet) (netif : NetifId)
    (h : ipAddrNetcmp p.dest (s.ifs.netif netif).ipAddr (s.ifs.netif netif).netmask = true) :
    (s.ipOutputPacket p netif).1.Routed := by
  unfold ipOutputPacket
  simp only
  split
  · exact s.ipFragLoop_err netif _ p _ _ _ _
  · exact s.etharpOutput_err netif p _ h

theorem ipOutputIf_err (data : List (BitVec 8)) (src dest : IpAddr) (ttl tos proto : BitVec 8)
    (netif : NetifId)
    (h : ipAddrNetcmp dest (s.ifs.netif netif).ipAddr (s.ifs.netif netif).netmask = true) :
    (s.ipOutputIf data src dest ttl tos proto netif).1.Routed := by
  unfold ipOutputIf
  rcases hreq : s.request with ⟨_ | _, s'⟩
  · simp [Err.Routed]
  · rw [← (s.request_quiet hreq).ifs] at h
    exact ipOutputPacket_err _ _ netif h

end Stack

/-- UDP from an interface that is up, to a destination in its subnet: the route finds an
interface with that address and subnet, and the check of the source passes. -/
theorem udpSendto_routed {udpChksum : IpAddr → IpAddr → List (BitVec 8) → BitVec 16} {s : Stack}
    {u : UdpState} {pcb : Nat} {dest : IpAddr} {n : NetifId} (hn : n ∈ s.ifs.netifList)
    (hup : netifIsUp (s.ifs.netif n) = true)
    (hnet : ipAddrNetcmp dest (s.ifs.netif n).ipAddr (s.ifs.netif n).netmask = true)
    (hip : (u.udpPcb pcb).localIp = (s.ifs.netif n).ipAddr) (data : List (BitVec 8))
    (port : BitVec 16) : (udpSendto udpChksum s u pcb data dest port).1.Routed := by
  have hmatch : routeMatches (some (u.udpPcb pcb).localIp) dest (s.ifs.netif n) = true := by
    simp [routeMatches, ipAddrCmp, hup, hnet, hip]
  obtain ⟨m, hm⟩ : ∃ m, ipRoute s.ifs (some (u.udpPcb pcb).localIp) dest = some m := by
    rcases hfind : s.ifs.netifList.find? fun n =>
      routeMatches (some (u.udpPcb pcb).localIp) dest (s.ifs.netif n) with _ | m
    · exact absurd hmatch (List.find?_eq_none.mp hfind n hn)
    · exact ⟨m, ipRoute_of_find hfind⟩
  have hmatches : routeMatches (some (u.udpPcb pcb).localIp) dest (s.ifs.netif m) = true := by
    rcases ipRoute_cases hm with ⟨-, h, -⟩ | ⟨-, hnone⟩
    · exact h
    · exact absurd hmatch (by simp [hnone n hn])
  simp only [routeMatches, Bool.and_eq_true, Bool.or_eq_true] at hmatches
  obtain ⟨⟨-, hmnet⟩, hmsrc⟩ := hmatches
  unfold udpSendto
  rw [hm]
  simp only
  unfold udpSendtoIf
  split
  · next u' hbound =>
    have hip' := (ensureBound_spec u pcb hbound).2
    split
    · simp [Err.Routed]
    · next s' hroom =>
      have hifs := (s.headerRoom_quiet hroom).ifs
      rw [← hifs] at hmnet hmsrc
      rw [if_neg (by simpa [hip', or_iff_not_imp_left] using hmsrc)]
      simp only [Stack.ipOutputIfHinted]
      exact Stack.ipOutputIf_err _ _ _ _ _ _ _ _ hmnet
  · next err u' _ hbound =>
    rcases (ensureBound_spec u pcb hbound).1 with rfl | rfl <;> simp [Err.Routed]

/-- The three promises of the route: it does not depend on the order of the interfaces, it
gives back the interface that a connection took its address from, and it never stops UDP
from an interface to that interface's subnet. -/
theorem ipRoute_source_aware (udpChksum : IpAddr → IpAddr → List (BitVec 8) → BitVec 16)
    (ifs : Interfaces) (dest : IpAddr) :
    (∀ src, src ≠ ipAddrAny → DistinctAddresses ifs → ∀ l : List NetifId, l.Perm ifs.netifList →
      ipRoute { ifs with netifList := l } (some src) dest = ipRoute ifs (some src) dest ∧
        IsSourceRoute ifs src dest (ipRoute ifs (some src) dest)) ∧
    (∀ n, ipRoute ifs (some ipAddrAny) dest = some n →
      tcpLocalIp ifs ipAddrAny dest = some (ifs.netif n).ipAddr ∧
        ipRoute ifs (some (ifs.netif n).ipAddr) dest = some n) ∧
    (∀ (s : Stack) (u : UdpState) (pcb : Nat) (n : NetifId) (data : List (BitVec 8))
      (port : BitVec 16), s.ifs = ifs → n ∈ ifs.netifList → netifIsUp (ifs.netif n) = true →
      ipAddrNetcmp dest (ifs.netif n).ipAddr (ifs.netif n).netmask = true →
      (u.udpPcb pcb).localIp = (ifs.netif n).ipAddr →
      (udpSendto udpChksum s u pcb data dest port).1 ≠ .rte ∧
        (udpSendto udpChksum s u pcb data dest port).1 ≠ .val) := by
  refine ⟨fun src hs hd l hl => ⟨ipRoute_perm hs hd hl, ipRoute_isSourceRoute hs⟩,
    fun n hn => ⟨?_, ipRoute_stable hn⟩, ?_⟩
  · simp [tcpLocalIp, ipAddrIsany, hn]
  · rintro s u pcb n data port rfl hn hup hnet hip
    exact udpSendto_routed hn hup hnet hip data port

/-! ## Two interfaces -/

/-- An interface that is up and broadcasts, with a /24 subnet. -/
def exampleNetif (ipAddr : IpAddr) (hwaddr : EthAddr) : Netif :=
  { ipAddr := ipAddr, netmask := ppHtonl 0xffffff00, gw := 0, hwaddr := hwaddr, mtu := 1500
    flags := netifFlagUp ||| netifFlagBroadcast }

/-- 10.0.0.1 and 10.0.1.1 (the default). -/
def exampleInterfaces : Interfaces where
  netif n := if n = 0 then exampleNetif (ppHtonl 0x0a000001) 0xa0 else
    exampleNetif (ppHtonl 0x0a000101) 0xb0
  netifList := [0, 1]
  netifDefault := some 1

theorem ipRoute_source_aware_two :
    ipRoute { exampleInterfaces with netifList := [1, 0] } (some (ppHtonl 0x0a000001))
      (ppHtonl 0x0a000005) = ipRoute exampleInterfaces (some (ppHtonl 0x0a000001))
        (ppHtonl 0x0a000005) ∧
    ipRoute exampleInterfaces (some (ppHtonl 0x0a000001)) (ppHtonl 0x0a000005) = some 0 :=
  ⟨((ipRoute_source_aware (fun _ _ _ => 0) exampleInterfaces (ppHtonl 0x0a000005)).1
      (ppHtonl 0x0a000001) (by decide) (by unfold DistinctAddresses; decide) [1, 0]
      (List.Perm.swap 0 1 [])).1,
    ((ipRoute_source_aware (fun _ _ _ => 0) exampleInterfaces (ppHtonl 0x0a000005)).2.1 0
      (by decide)).2⟩

/-! ## Runs of sends, ARP traffic and interface changes -/

structure System where
  stack : Stack
  udp : UdpState

inductive Action
  | ipOutput (data : List (BitVec 8)) (src dest : IpAddr) (ttl tos proto : BitVec 8)
  /-- TCP sends its segments so. -/
  | ipOutputHinted (data : List (BitVec 8)) (src dest : IpAddr) (ttl tos proto : BitVec 8)
      (addrHint : Nat)
  | udpSendto (pcb : Nat) (data : List (BitVec 8)) (dstIp : IpAddr) (dstPort : BitVec 16)
  | rawSendto (pcb : Stack.RawPcb) (data : List (BitVec 8)) (ipaddr : IpAddr)
  | etharpArpInput (netif : NetifId) (hdr : EtharpHdr)
  | etharpIpInput (netif : NetifId) (iphdrSrc : IpAddr) (ethhdrSrc : EthAddr)
  | etharpTmr
  | etharpCleanupNetif (netif : NetifId)
  /-- Interfaces come, go, and change their addresses. -/
  | configure (ifs : Interfaces)
  /-- A pcb is created, bound or connected. -/
  | setUdp (udp : UdpState)
  /-- The outcomes of the next requests for memory. -/
  | memory (mem : List Bool)

section Runs

variable (udpChksum : IpAddr → IpAddr → List (BitVec 8) → BitVec 16)

def step (s : System) : Action → Option System
  | .ipOutput data src dest ttl tos proto =>
    some { s with stack := (s.stack.ipOutput data src dest ttl tos proto).2 }
  | .ipOutputHinted data src dest ttl tos proto addrHint =>
    some { s with stack := (s.stack.ipOutputHinted data src dest ttl tos proto addrHint).2 }
  | .udpSendto pcb data dstIp dstPort =>
    let r := Ip.udpSendto udpChksum s.stack s.udp pcb data dstIp dstPort
    some { stack := r.2.1, udp := r.2.2 }
  | .rawSendto pcb data ipaddr => some { s with stack := (s.stack.rawSendto pcb data ipaddr).2 }
  | .etharpArpInput netif hdr => some { s with stack := s.stack.etharpArpInput netif hdr }
  | .etharpIpInput netif iphdrSrc ethhdrSrc =>
    some { s with stack := s.stack.etharpIpInput netif iphdrSrc ethhdrSrc }
  | .etharpTmr => some { s with stack := s.stack.etharpTmr }
  | .etharpCleanupNetif netif => some { s with stack := s.stack.etharpCleanupNetif netif }
  | .configure ifs => some { s with stack := { s.stack with ifs := ifs } }
  | .setUdp udp => some { s with udp := udp }
  | .memory mem => some { s with stack := { s.stack with mem := mem } }

/-- The stack after start-up: any interfaces, and an empty ARP table. -/
def System.start (ifs : Interfaces) (udp : UdpState) : System where
  udp := udp
  stack :=
    { ifs := ifs
      arpTable := fun _ => ⟨[], 0, none, 0, .empty, 0⟩
      ipId := 0
      hints := fun _ => 0
      addrHint := fun _ => none
      mem := []
      sent := [] }

/-- The source's interface whose subnet has the destination moves the packets of a send, or
else the default interface; without either the send returns an error and moves none. -/
def SendsByOwner (src dest : IpAddr) (s : Stack) (err : Err) (s' : Stack) : Prop :=
  ∃ route, IsSourceRoute s.ifs src dest route ∧
    match route with
    | none => err ≠ .ok ∧ Quiet s s'
    | some n => netifIsUp (s.ifs.netif n) = true ∧ Sends n src dest s s'

/-- The same with UDP's check: an interface that has the source address, or an error. -/
def SendsFromOwner (src dest : IpAddr) (s : Stack) (err : Err) (s' : Stack) : Prop :=
  (∃ n, IsSourceRoute s.ifs src dest (some n) ∧ netifIsUp (s.ifs.netif n) = true ∧
    (s.ifs.netif n).ipAddr = src ∧ Sends n src dest s s') ∨ (err ≠ .ok ∧ Quiet s s')

/-- How packets really leave: a send with a source moves packets only of the interface that
its route gives, and UDP only if that has the source address; packets parked for a next hop
leave on the interface where its address was learned. -/
def LeavesByRoute (s : System) : Action → System → Prop
  | .ipOutput data src dest ttl tos proto, s' => src ≠ ipAddrAny →
    SendsByOwner src dest s.stack (s.stack.ipOutput data src dest ttl tos proto).1 s'.stack
  | .ipOutputHinted data src dest ttl tos proto addrHint, s' => src ≠ ipAddrAny →
    SendsByOwner src dest s.stack
      (s.stack.ipOutputHinted data src dest ttl tos proto addrHint).1 s'.stack
  | .rawSendto pcb data ipaddr, s' => pcb.localIp ≠ ipAddrAny →
    SendsByOwner pcb.localIp ipaddr s.stack (s.stack.rawSendto pcb data ipaddr).1 s'.stack
  | .udpSendto pcb data dstIp dstPort, s' => (s.udp.udpPcb pcb).localIp ≠ ipAddrAny →
    SendsFromOwner (s.udp.udpPcb pcb).localIp dstIp s.stack
      (Ip.udpSendto udpChksum s.stack s.udp pcb data dstIp dstPort).1 s'.stack
  | .etharpArpInput netif hdr, s' =>
    Effect (On netif (s.stack.ParkedFor hdr.sipaddr)) (fun _ => False) s.stack s'.stack
  | .etharpIpInput netif iphdrSrc _, s' =>
    Effect (On netif (s.stack.ParkedFor iphdrSrc)) (fun _ => False) s.stack s'.stack
  | _, s' => s'.stack.sent = s.stack.sent

theorem Quiet.sent_eq {s s' : Stack} (h : Quiet s s') : s'.sent = s.sent := by
  obtain ⟨new, hnew, hall⟩ := h.sent
  rw [hnew, List.eq_nil_iff_forall_not_mem.mpr hall, List.append_nil]

theorem SendsByRoute.byOwner {src dest : IpAddr} (hs : src ≠ ipAddrAny) {s s' : Stack} {err : Err}
    (h : SendsByRoute src dest s err s') : SendsByOwner src dest s err s' := by
  refine ⟨ipRoute s.ifs (some src) dest, ipRoute_isSourceRoute hs, ?_⟩
  unfold SendsByRoute at h
  cases hroute : ipRoute s.ifs (some src) dest with
  | none =>
    rw [hroute] at h
    exact h
  | some n =>
    rw [hroute] at h
    exact ⟨ipRoute_up hroute, h⟩

theorem udpSendto_fromOwner {s : Stack} {u : UdpState} {pcb : Nat} {dest : IpAddr}
    (hs : (u.udpPcb pcb).localIp ≠ ipAddrAny) (data : List (BitVec 8)) (port : BitVec 16) :
    SendsFromOwner (u.udpPcb pcb).localIp dest s (udpSendto udpChksum s u pcb data dest port).1
      (udpSendto udpChksum s u pcb data dest port).2.1 := by
  obtain ⟨hroute, hcheck⟩ :=
    udpSendto_byRoute udpChksum s dest hs data port
  unfold SendsByRoute at hroute
  cases hn : ipRoute s.ifs (some (u.udpPcb pcb).localIp) dest with
  | none =>
    rw [hn] at hroute
    exact .inr hroute
  | some n =>
    rw [hn] at hroute
    by_cases hip : (s.ifs.netif n).ipAddr = (u.udpPcb pcb).localIp
    · exact .inl ⟨n, hn ▸ ipRoute_isSourceRoute hs, ipRoute_up hn, hip, hroute⟩
    · exact .inr (hcheck n hn hip)

/-! ## The table stays in order -/

theorem ipOutput_tableOk {s : Stack} (hok : TableOk s) (data : List (BitVec 8))
    (src dest : IpAddr) (ttl tos proto : BitVec 8) :
    TableOk (s.ipOutput data src dest ttl tos proto).2 := by
  unfold Stack.ipOutput
  split
  · exact hok
  · exact (s.ipOutputIf_sends data src dest ttl tos proto _).tableOk hok

theorem ipOutputHinted_tableOk {s : Stack} (hok : TableOk s) (data : List (BitVec 8))
    (src dest : IpAddr) (ttl tos proto : BitVec 8) (addrHint : Nat) :
    TableOk (s.ipOutputHinted data src dest ttl tos proto addrHint).2 := by
  unfold Stack.ipOutputHinted
  split
  · exact hok
  · exact (s.ipOutputIfHinted_sends data src dest ttl tos proto _ addrHint).tableOk hok

theorem rawSendto_tableOk {s : Stack} (hok : TableOk s) (pcb : Stack.RawPcb)
    (data : List (BitVec 8)) (dest : IpAddr) : TableOk (s.rawSendto pcb data dest).2 := by
  unfold Stack.rawSendto
  split
  · next s' h => exact (s.headerRoom_quiet h).tableOk hok
  · next s' h =>
    have hok' := (s.headerRoom_quiet h).tableOk hok
    split
    · exact hok'
    · exact (s'.ipOutputIfHinted_sends data _ dest _ _ _ _ _).tableOk hok'

theorem udpSendto_tableOk {s : Stack} (hok : TableOk s) (u : UdpState) (pcb : Nat)
    (data : List (BitVec 8)) (dest : IpAddr) (port : BitVec 16) :
    TableOk (udpSendto udpChksum s u pcb data dest port).2.1 := by
  unfold udpSendto
  split
  · exact hok
  · unfold udpSendtoIf
    split
    · next u' _ =>
      split
      · next s' h => exact (s.headerRoom_quiet h).tableOk hok
      · next s' h =>
        have hok' := (s.headerRoom_quiet h).tableOk hok
        simp only
        split
        · exact hok'
        · exact (s'.ipOutputIfHinted_sends _ _ dest _ _ _ _ pcb).tableOk hok'
    · exact hok

theorem leavesByRoute_step (s : System) (a : Action) (s' : System) (hok : TableOk s.stack)
    (h : step udpChksum s a = some s') :
    LeavesByRoute udpChksum s a s' ∧ TableOk s'.stack := by
  cases a with
  | ipOutput data src dest ttl tos proto =>
    obtain rfl := Option.some.inj h
    exact ⟨fun hs => (ipOutput_byRoute hs data ttl tos proto).byOwner hs,
      ipOutput_tableOk hok data src dest ttl tos proto⟩
  | ipOutputHinted data src dest ttl tos proto addrHint =>
    obtain rfl := Option.some.inj h
    exact ⟨fun hs => (ipOutputHinted_byRoute hs data ttl tos proto addrHint).byOwner hs,
      ipOutputHinted_tableOk hok data src dest ttl tos proto addrHint⟩
  | udpSendto pcb data dstIp dstPort =>
    obtain rfl := Option.some.inj h
    exact ⟨fun hs => udpSendto_fromOwner udpChksum hs data dstPort,
      udpSendto_tableOk udpChksum hok s.udp pcb data dstIp dstPort⟩
  | rawSendto pcb data ipaddr =>
    obtain rfl := Option.some.inj h
    exact ⟨fun hs => (rawSendto_byRoute pcb hs data).byOwner hs,
      rawSendto_tableOk hok pcb data ipaddr⟩
  | etharpArpInput netif hdr =>
    obtain rfl := Option.some.inj h
    have heffect := s.stack.etharpArpInput_effect hok netif hdr
    exact ⟨heffect, heffect.tableOk hok⟩
  | etharpIpInput netif iphdrSrc ethhdrSrc =>
    obtain rfl := Option.some.inj h
    have heffect := s.stack.etharpIpInput_effect hok netif iphdrSrc ethhdrSrc
    exact ⟨heffect, heffect.tableOk hok⟩
  | etharpTmr =>
    obtain rfl := Option.some.inj h
    have hquiet := s.stack.etharpTmr_quiet
    generalize s.stack.etharpTmr = t at hquiet
    exact ⟨Quiet.sent_eq hquiet, hquiet.tableOk hok⟩
  | etharpCleanupNetif netif =>
    obtain rfl := Option.some.inj h
    have hquiet := s.stack.etharpCleanupNetif_quiet netif
    generalize s.stack.etharpCleanupNetif netif = t at hquiet
    exact ⟨Quiet.sent_eq hquiet, hquiet.tableOk hok⟩
  | configure ifs =>
    obtain rfl := Option.some.inj h
    exact ⟨rfl, hok⟩
  | setUdp udp =>
    obtain rfl := Option.some.inj h
    exact ⟨rfl, hok⟩
  | memory mem =>
    obtain rfl := Option.some.inj h
    exact ⟨rfl, hok⟩

/-- In every run from start-up, packets leave by their route. -/
theorem packets_leave_by_route (ifs : Interfaces) (udp : UdpState) (as : List Action) :
    EveryStep (step udpChksum) (LeavesByRoute udpChksum) (System.start ifs udp) as :=
  everyStep_of_invariant (I := fun s => TableOk s.stack) (leavesByRoute_step udpChksum) as
    fun _ _ => rfl

end Runs

end FreeLwip.Ip
