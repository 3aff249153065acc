import FreeLwip.Lib.Run
import FreeLwip.Ip.Etharp

/-!
# Sending through IP, UDP, RAW and TCP (`ip.c`, `ip_frag.c`, `udp.c`, `raw.c`, `tcp.c`)
-/

namespace FreeLwip.Ip

open Run

def ipHlen : Nat := 20
def udpHlen : Nat := 8
def ipMf : BitVec 16 := 0x2000
def ipOffmask : BitVec 16 := 0x1fff

def Packet.totLen (p : Packet) : Nat := ipHlen + p.data.length

namespace Stack

/-! ## IP -/

/-- The loop of `ip_frag`. One request stands for all the pbufs of a fragment; the loop ends
with the data or with the memory, and `fuel` counts the requests that can still come. -/
def ipFragLoop (netif : NetifId) (dest : IpAddr) (p : Packet) (mtu : Nat) :
    Nat → Stack → List (BitVec 8) → BitVec 16 → Err × Stack
  | 0, s, _, _ => (.mem, s)
  | fuel + 1, s, left, ofo =>
    if left = [] then
      (.ok, s)
    else
      match s.request with
      | (false, s) => (.mem, s)
      | (true, s) =>
        let nfb := (mtu - ipHlen) / 8
        let last := left.length ≤ mtu - ipHlen
        let tmp := (p.offset &&& ipMf) ||| (ipOffmask &&& ofo)
        let tmp := if last then tmp else tmp ||| ipMf
        let cop := if last then left.length else nfb * 8
        let s := (s.etharpOutput netif { p with offset := tmp, data := left.take cop } dest).2
        ipFragLoop netif dest p mtu fuel s (left.drop cop) (ofo + BitVec.ofNat 16 nfb)

def ipFrag (s : Stack) (p : Packet) (netif : NetifId) (dest : IpAddr) : Err × Stack :=
  ipFragLoop netif dest p (s.ifs.netif netif).mtu.toNat (s.mem.length + 1) s p.data
    (p.offset &&& ipOffmask)

/-- The end of `ip_output_if`: a packet over the interface's mtu is fragmented. -/
def ipOutputPacket (s : Stack) (p : Packet) (netif : NetifId) : Err × Stack :=
  let mtu := (s.ifs.netif netif).mtu
  if mtu ≠ 0 ∧ p.totLen > mtu.toNat then s.ipFrag p netif p.dest
  else s.etharpOutput netif p p.dest

def ipOutputIf (s : Stack) (data : List (BitVec 8)) (src dest : IpAddr) (ttl tos proto : BitVec 8)
    (netif : NetifId) : Err × Stack :=
  match s.request with
  | (false, s) => (.buf, s)
  | (true, s) =>
    let nif := s.ifs.netif netif
    let p : Packet :=
      { src := if ipAddrIsany src then nif.ipAddr else src
        dest := dest, ttl := ttl, tos := tos, proto := proto, id := s.ipId, offset := 0
        data := data }
    { s with ipId := s.ipId + 1 }.ipOutputPacket p netif

def ipOutput (s : Stack) (data : List (BitVec 8)) (src dest : IpAddr)
    (ttl tos proto : BitVec 8) : Err × Stack :=
  match ipRoute s.ifs (some src) dest with
  | none => (.rte, s)
  | some netif => s.ipOutputIf data src dest ttl tos proto netif

/-- `ip_output_if` between the two settings of the interface's `addr_hint`. -/
def ipOutputIfHinted (s : Stack) (data : List (BitVec 8)) (src dest : IpAddr)
    (ttl tos proto : BitVec 8) (netif : NetifId) (addrHint : Nat) : Err × Stack :=
  let (err, s) := (s.netifSetHwaddrhint netif (some addrHint)).ipOutputIf data src dest ttl tos
    proto netif
  (err, s.netifSetHwaddrhint netif none)

def ipOutputHinted (s : Stack) (data : List (BitVec 8)) (src dest : IpAddr)
    (ttl tos proto : BitVec 8) (addrHint : Nat) : Err × Stack :=
  match ipRoute s.ifs (some src) dest with
  | none => (.rte, s)
  | some netif => s.ipOutputIfHinted data src dest ttl tos proto netif addrHint

/-! ## RAW -/

structure RawPcb where
  localIp : IpAddr
  tos : BitVec 8
  ttl : BitVec 8
  protocol : BitVec 8
  addrHint : Nat

/-- The room for a header in front of the data, or a pbuf of its own for it. -/
def headerRoom (s : Stack) : Bool × Stack :=
  match s.request with
  | (true, s) => (true, s)
  | (false, s) => s.request

/-- The pcb itself is passed to `ip_route` as the source: its first field is `local_ip`. -/
def rawSendto (s : Stack) (pcb : RawPcb) (data : List (BitVec 8)) (ipaddr : IpAddr) :
    Err × Stack :=
  match s.headerRoom with
  | (false, s) => (.mem, s)
  | (true, s) =>
    match ipRoute s.ifs (some pcb.localIp) ipaddr with
    | none => (.rte, s)
    | some netif =>
      let srcIp := if ipAddrIsany pcb.localIp then (s.ifs.netif netif).ipAddr else pcb.localIp
      s.ipOutputIfHinted data srcIp ipaddr pcb.ttl pcb.tos pcb.protocol netif pcb.addrHint

end Stack

/-! ## UDP -/

structure UdpPcb where
  localIp : IpAddr
  remoteIp : IpAddr
  soOptions : BitVec 8
  tos : BitVec 8
  ttl : BitVec 8
  localPort : BitVec 16
  remotePort : BitVec 16

def sofReuseaddr : BitVec 8 := 0x04

structure UdpState where
  udpPcb : Nat → UdpPcb
  udpPcbs : List Nat
  udpPort : BitVec 16

def udpLocalPortRangeStart : BitVec 16 := 0xc000
def udpLocalPortRangeEnd : BitVec 16 := 0xffff
def ipProtoUdp : BitVec 8 := 17

namespace UdpState

/-- The new port, or 0, and the last port tried. -/
def udpNewPortFrom (u : UdpState) : Nat → BitVec 16 → BitVec 16 × BitVec 16
  | 0, udpPort => (0, udpPort)
  | tries + 1, udpPort =>
    let udpPort := if udpPort = udpLocalPortRangeEnd then udpLocalPortRangeStart else udpPort + 1
    if u.udpPcbs.any fun pcb => (u.udpPcb pcb).localPort == udpPort then
      u.udpNewPortFrom tries udpPort
    else
      (udpPort, udpPort)

def udpNewPort (u : UdpState) : BitVec 16 × UdpState :=
  let tries := (udpLocalPortRangeEnd - udpLocalPortRangeStart).toNat + 1
  let (port, udpPort) := u.udpNewPortFrom tries u.udpPort
  (port, { u with udpPort := udpPort })

/-- Another pcb holds the port on this address, and not both share it. -/
def bindConflict (u : UdpState) (pcb : Nat) (ipaddr : IpAddr) (port : BitVec 16) (ipcb : Nat) :
    Bool :=
  let p := u.udpPcb pcb
  let q := u.udpPcb ipcb
  pcb != ipcb && p.soOptions &&& sofReuseaddr == 0 && q.soOptions &&& sofReuseaddr == 0 &&
    q.localPort == port &&
    (ipAddrIsany q.localIp || ipAddrIsany ipaddr || ipAddrCmp q.localIp ipaddr)

def setLocalIp (u : UdpState) (pcb : Nat) (ip : IpAddr) : UdpState :=
  { u with udpPcb := Function.update u.udpPcb pcb { u.udpPcb pcb with localIp := ip } }

def setLocalPort (u : UdpState) (pcb : Nat) (port : BitVec 16) : UdpState :=
  { u with udpPcb := Function.update u.udpPcb pcb { u.udpPcb pcb with localPort := port } }

/-- Port 0 asks for any free port. -/
def choosePort (u : UdpState) (port : BitVec 16) : BitVec 16 × UdpState :=
  if port = 0 then u.udpNewPort else (port, u)

def udpBind (u : UdpState) (pcb : Nat) (ipaddr : IpAddr) (port : BitVec 16) : Err × UdpState :=
  if u.udpPcbs.any (u.bindConflict pcb ipaddr port) then
    (.use, u)
  else
    match (u.setLocalIp pcb ipaddr).choosePort port with
    | (port, u) =>
      if port = 0 then
        (.use, u)
      else
        let rebind := u.udpPcbs.contains pcb
        (.ok, { u.setLocalPort pcb port with
          udpPcbs := if rebind then u.udpPcbs else pcb :: u.udpPcbs })

/-- Binds the pcb if it has no port yet. -/
def ensureBound (u : UdpState) (pcb : Nat) : Err × UdpState :=
  if (u.udpPcb pcb).localPort = 0 then u.udpBind pcb (u.udpPcb pcb).localIp 0 else (.ok, u)

end UdpState

def htonsBytes (x : BitVec 16) : List (BitVec 8) :=
  [(x >>> 8).setWidth 8, x.setWidth 8]

section Udp

-- The checksum over the pseudo header, the UDP header and the data.
variable (udpChksum : IpAddr → IpAddr → List (BitVec 8) → BitVec 16)

def udpDatagram (srcIp dstIp : IpAddr) (src dest : BitVec 16) (data : List (BitVec 8)) :
    List (BitVec 8) :=
  let ports := htonsBytes src ++ htonsBytes dest
  let len := htonsBytes (BitVec.ofNat 16 (udpHlen + data.length))
  ports ++ len ++ htonsBytes (udpChksum srcIp dstIp (ports ++ len ++ data)) ++ data

def udpSendtoIf (s : Stack) (u : UdpState) (pcb : Nat) (data : List (BitVec 8)) (dstIp : IpAddr)
    (dstPort : BitVec 16) (netif : NetifId) : Err × Stack × UdpState :=
  match u.ensureBound pcb with
  | (.ok, u) =>
    match s.headerRoom with
    | (false, s) => (.mem, s, u)
    | (true, s) =>
      let p := u.udpPcb pcb
      let nif := s.ifs.netif netif
      -- A bound address has to be the interface's: it may have changed since.
      if !ipAddrIsany p.localIp && !ipAddrCmp p.localIp nif.ipAddr then
        (.val, s, u)
      else
        let srcIp := if ipAddrIsany p.localIp then nif.ipAddr else p.localIp
        let (err, s) := s.ipOutputIfHinted
          (udpDatagram udpChksum srcIp dstIp p.localPort dstPort data) srcIp dstIp p.ttl p.tos
          ipProtoUdp netif pcb
        (err, s, u)
  | (err, u) => (err, s, u)

def udpSendto (s : Stack) (u : UdpState) (pcb : Nat) (data : List (BitVec 8)) (dstIp : IpAddr)
    (dstPort : BitVec 16) : Err × Stack × UdpState :=
  match ipRoute s.ifs (some (u.udpPcb pcb).localIp) dstIp with
  | none => (.rte, s, u)
  | some netif => udpSendtoIf udpChksum s u pcb data dstIp dstPort netif

end Udp

/-! ## TCP -/

/-- How `tcp_connect` (and `tcp_output_segment`) gives a connection its local address; no
address stands for ERR_RTE. -/
def tcpLocalIp (ifs : Interfaces) (localIp remoteIp : IpAddr) : Option IpAddr :=
  if ipAddrIsany localIp then
    (ipRoute ifs (some localIp) remoteIp).map fun netif => (ifs.netif netif).ipAddr
  else
    some localIp

/-! ## What sending may do -/

/-- A packet from `src` to `dest`, or a fragment of one. -/
def Between (src dest : IpAddr) (p : Packet) : Prop :=
  p.src = src ∧ p.dest = dest

/-- Everything handed over or parked is from `src` to `dest`, on the interface `n`. -/
abbrev Sends (n : NetifId) (src dest : IpAddr) : Stack → Stack → Prop :=
  Effect (On n (Between src dest)) (Between src dest)

theorem Sends.ofOutput {n : NetifId} {q : Packet} {s s' : Stack}
    (h : Effect (On n (· = q)) (· = q) s s') : Sends n q.src q.dest s s' := by
  refine h.mono (fun f hf => ⟨hf.1, fun p hp => ?_⟩) fun p hp => ?_
  · rw [hf.2 p hp]
    exact ⟨rfl, rfl⟩
  · rw [hp]
    exact ⟨rfl, rfl⟩

namespace Stack

variable (s : Stack)

theorem ipFragLoop_sends (netif : NetifId) (dest : IpAddr) (p : Packet) (mtu fuel : Nat)
    (left : List (BitVec 8)) (ofo : BitVec 16) :
    Sends netif p.src p.dest s (ipFragLoop netif dest p mtu fuel s left ofo).2 := by
  induction fuel generalizing s left ofo with
  | zero => exact .refl s
  | succ fuel ih =>
    unfold ipFragLoop
    split
    · exact .refl s
    · split
      · next s' h => exact .ofQuiet (s.request_quiet h)
      · next s' h =>
        have hfragment : ∀ q : Packet, q.src = p.src → q.dest = p.dest →
            Sends netif p.src p.dest s' (s'.etharpOutput netif q dest).2 := by
          intro q hsrc hdest
          rw [← hsrc, ← hdest]
          exact Sends.ofOutput (s'.etharpOutput_effect netif q dest)
        refine (Effect.ofQuiet (s.request_quiet h)).trans ?_
        refine Effect.trans ?_ (ih _ _ _)
        exact hfragment _ rfl rfl

theorem ipFrag_sends (p : Packet) (netif : NetifId) (dest : IpAddr) :
    Sends netif p.src p.dest s (s.ipFrag p netif dest).2 :=
  s.ipFragLoop_sends netif dest p _ _ _ _

theorem ipOutputPacket_sends (p : Packet) (netif : NetifId) :
    Sends netif p.src p.dest s (s.ipOutputPacket p netif).2 := by
  unfold ipOutputPacket
  simp only
  split
  · exact s.ipFrag_sends p netif _
  · exact Sends.ofOutput (s.etharpOutput_effect netif p _)

theorem ipOutputIf_sends (data : List (BitVec 8)) (src dest : IpAddr) (ttl tos proto : BitVec 8)
    (netif : NetifId) :
    Sends netif (if ipAddrIsany src then (s.ifs.netif netif).ipAddr else src) dest s
      (s.ipOutputIf data src dest ttl tos proto netif).2 := by
  unfold ipOutputIf
  rcases h : s.request with ⟨_ | _, s'⟩
  · exact .ofQuiet (s.request_quiet h)
  · have hreq := s.request_quiet h
    rw [← hreq.ifs]
    refine (Effect.ofQuiet hreq).trans ?_
    have hid : Quiet s' { s' with ipId := s'.ipId + 1 } :=
      ⟨rfl, ⟨[], by simp, by simp⟩, fun _ _ hp => .inl hp, id⟩
    let p : Packet :=
      { src := if ipAddrIsany src then (s'.ifs.netif netif).ipAddr else src
        dest := dest, ttl := ttl, tos := tos, proto := proto, id := s'.ipId, offset := 0
        data := data }
    exact (Effect.ofQuiet hid).trans (ipOutputPacket_sends _ p netif)

theorem netifSetHwaddrhint_quiet (netif : NetifId) (hint : Option Nat) :
    Quiet s (s.netifSetHwaddrhint netif hint) :=
  ⟨rfl, ⟨[], by simp [netifSetHwaddrhint], by simp⟩, fun _ _ hp => .inl hp, id⟩

theorem ipOutputIfHinted_sends (data : List (BitVec 8)) (src dest : IpAddr)
    (ttl tos proto : BitVec 8) (netif : NetifId) (addrHint : Nat) :
    Sends netif (if ipAddrIsany src then (s.ifs.netif netif).ipAddr else src) dest s
      (s.ipOutputIfHinted data src dest ttl tos proto netif addrHint).2 :=
  ((Effect.ofQuiet (s.netifSetHwaddrhint_quiet netif (some addrHint))).trans
    (ipOutputIf_sends _ data src dest ttl tos proto netif)).trans
      (.ofQuiet (netifSetHwaddrhint_quiet _ netif none))

theorem headerRoom_quiet {b : Bool} {s' : Stack} (h : s.headerRoom = (b, s')) : Quiet s s' := by
  unfold headerRoom at h
  split at h
  · next s'' hreq =>
    obtain ⟨-, rfl⟩ := Prod.mk.inj h
    exact s.request_quiet hreq
  · next s'' hreq => exact (s.request_quiet hreq).trans (s''.request_quiet h)

end Stack

/-! ## Sending by the route -/

/-- A send from `src` to `dest`: it moves packets only of the interface that the route
gives, and without a route it returns an error and moves none. -/
def SendsByRoute (src dest : IpAddr) (s : Stack) (err : Err) (s' : Stack) : Prop :=
  match ipRoute s.ifs (some src) dest with
  | none => err ≠ .ok ∧ Quiet s s'
  | some n => Sends n src dest s s'

section SendsByRoute

variable {s : Stack} {src dest : IpAddr} {err : Err}

theorem SendsByRoute.ofQuiet {s' : Stack} (herr : err ≠ .ok) (h : Quiet s s') :
    SendsByRoute src dest s err s' := by
  unfold SendsByRoute
  split
  · exact ⟨herr, h⟩
  · exact .ofQuiet h

theorem ipOutput_byRoute (hs : src ≠ ipAddrAny) (data : List (BitVec 8))
    (ttl tos proto : BitVec 8) :
    SendsByRoute src dest s (s.ipOutput data src dest ttl tos proto).1
      (s.ipOutput data src dest ttl tos proto).2 := by
  unfold SendsByRoute Stack.ipOutput
  split
  · exact ⟨(by decide : Err.rte ≠ .ok), .refl s⟩
  · next n _ =>
    have h := s.ipOutputIf_sends data src dest ttl tos proto n
    rwa [if_neg (by simpa [ipAddrIsany] using hs)] at h

theorem ipOutputHinted_byRoute (hs : src ≠ ipAddrAny) (data : List (BitVec 8))
    (ttl tos proto : BitVec 8) (addrHint : Nat) :
    SendsByRoute src dest s (s.ipOutputHinted data src dest ttl tos proto addrHint).1
      (s.ipOutputHinted data src dest ttl tos proto addrHint).2 := by
  unfold SendsByRoute Stack.ipOutputHinted
  split
  · exact ⟨(by decide : Err.rte ≠ .ok), .refl s⟩
  · next n _ =>
    have h := s.ipOutputIfHinted_sends data src dest ttl tos proto n addrHint
    rwa [if_neg (by simpa [ipAddrIsany] using hs)] at h

theorem rawSendto_byRoute (pcb : Stack.RawPcb) (hs : pcb.localIp ≠ ipAddrAny)
    (data : List (BitVec 8)) :
    SendsByRoute pcb.localIp dest s (s.rawSendto pcb data dest).1
      (s.rawSendto pcb data dest).2 := by
  have hany : ipAddrIsany pcb.localIp = false := by simpa [ipAddrIsany] using hs
  unfold Stack.rawSendto
  split
  · next s' h => exact .ofQuiet (by decide : Err.mem ≠ .ok) (s.headerRoom_quiet h)
  · next s' h =>
    have hroom := s.headerRoom_quiet h
    unfold SendsByRoute
    rw [hroom.ifs]
    split
    · exact ⟨(by decide : Err.rte ≠ .ok), hroom⟩
    · next n _ =>
      have hsend := s'.ipOutputIfHinted_sends data pcb.localIp dest pcb.ttl pcb.tos pcb.protocol n
        pcb.addrHint
      rw [hany] at hsend
      simp only [hany]
      exact (Effect.ofQuiet hroom).trans hsend

end SendsByRoute

/-! ## UDP checks the source again -/

@[simp] theorem choosePort_udpPcb (u : UdpState) (port : BitVec 16) :
    (u.choosePort port).2.udpPcb = u.udpPcb := by
  unfold UdpState.choosePort
  split <;> rfl

theorem udpBind_spec (u : UdpState) (pcb : Nat) (port : BitVec 16) {err : Err} {u' : UdpState}
    (h : u.udpBind pcb (u.udpPcb pcb).localIp port = (err, u')) :
    (err = .ok ∨ err = .use) ∧ (u'.udpPcb pcb).localIp = (u.udpPcb pcb).localIp := by
  unfold UdpState.udpBind at h
  split at h
  · obtain ⟨rfl, rfl⟩ := Prod.mk.inj h
    exact ⟨.inr rfl, rfl⟩
  · split at h
    next port' u₁ hport =>
    have hpcb : (u₁.udpPcb pcb).localIp = (u.udpPcb pcb).localIp := by
      have hchoose := choosePort_udpPcb (u.setLocalIp pcb (u.udpPcb pcb).localIp) port
      rw [hport] at hchoose
      rw [hchoose]
      simp [UdpState.setLocalIp]
    split at h
    · obtain ⟨rfl, rfl⟩ := Prod.mk.inj h
      exact ⟨.inr rfl, hpcb⟩
    · obtain ⟨rfl, rfl⟩ := Prod.mk.inj h
      exact ⟨.inl rfl, by simpa [UdpState.setLocalPort] using hpcb⟩

theorem ensureBound_spec (u : UdpState) (pcb : Nat) {err : Err} {u' : UdpState}
    (h : u.ensureBound pcb = (err, u')) :
    (err = .ok ∨ err = .use) ∧ (u'.udpPcb pcb).localIp = (u.udpPcb pcb).localIp := by
  unfold UdpState.ensureBound at h
  split at h
  · exact udpBind_spec u pcb 0 h
  · obtain ⟨rfl, rfl⟩ := Prod.mk.inj h
    exact ⟨.inl rfl, rfl⟩

section Udp

variable (udpChksum : IpAddr → IpAddr → List (BitVec 8) → BitVec 16) (s : Stack) {u : UdpState}
  {pcb : Nat} (dest : IpAddr)

theorem udpSendtoIf_effect (hs : (u.udpPcb pcb).localIp ≠ ipAddrAny) (data : List (BitVec 8))
    (port : BitVec 16) (n : NetifId) :
    let r := udpSendtoIf udpChksum s u pcb data dest port n
    Sends n (u.udpPcb pcb).localIp dest s r.2.1 ∧
      ((s.ifs.netif n).ipAddr ≠ (u.udpPcb pcb).localIp → r.1 ≠ .ok ∧ Quiet s r.2.1) := by
  intro r
  subst r
  unfold udpSendtoIf
  have hany : ipAddrIsany (u.udpPcb pcb).localIp = false := by simpa [ipAddrIsany] using hs
  split
  · next u' hbound =>
    have hip := (ensureBound_spec u pcb hbound).2
    split
    · next s' h =>
      have hroom := s.headerRoom_quiet h
      exact ⟨.ofQuiet hroom, fun _ => ⟨(by decide : Err.mem ≠ .ok), hroom⟩⟩
    · next s' h =>
      have hroom := s.headerRoom_quiet h
      simp only [hip, hany]
      split
      · exact ⟨.ofQuiet hroom, fun _ => ⟨(by decide : Err.val ≠ .ok), hroom⟩⟩
      · next hsame =>
        rw [hroom.ifs] at hsame
        have heq : (u.udpPcb pcb).localIp = (s.ifs.netif n).ipAddr := by
          simpa [ipAddrCmp] using hsame
        refine ⟨(Effect.ofQuiet hroom).trans ?_, fun hne => absurd heq.symm hne⟩
        have hsend := s'.ipOutputIfHinted_sends (udpDatagram udpChksum (u.udpPcb pcb).localIp dest
          (u'.udpPcb pcb).localPort port data) (u.udpPcb pcb).localIp dest (u'.udpPcb pcb).ttl
          (u'.udpPcb pcb).tos ipProtoUdp n pcb
        rw [hany] at hsend
        exact hsend
  · next err u' hne _ => exact ⟨.refl s, fun _ => ⟨hne, .refl s⟩⟩

theorem udpSendto_byRoute (hs : (u.udpPcb pcb).localIp ≠ ipAddrAny) (data : List (BitVec 8))
    (port : BitVec 16) :
    let r := udpSendto udpChksum s u pcb data dest port
    SendsByRoute (u.udpPcb pcb).localIp dest s r.1 r.2.1 ∧
      ∀ n, ipRoute s.ifs (some (u.udpPcb pcb).localIp) dest = some n →
        (s.ifs.netif n).ipAddr ≠ (u.udpPcb pcb).localIp → r.1 ≠ .ok ∧ Quiet s r.2.1 := by
  intro r
  subst r
  unfold udpSendto SendsByRoute
  cases hroute : ipRoute s.ifs (some (u.udpPcb pcb).localIp) dest with
  | none => exact ⟨⟨(by decide : Err.rte ≠ .ok), .refl s⟩, nofun⟩
  | some n =>
    obtain ⟨hsends, hcheck⟩ :=
      udpSendtoIf_effect udpChksum s dest hs data port n
    refine ⟨hsends, fun m hm => ?_⟩
    obtain rfl := Option.some.inj hm
    exact hcheck

end Udp

end FreeLwip.Ip
