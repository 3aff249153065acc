import FreeLwip.Err
import FreeLwip.Ip.Route
import Mathlib.Data.BitVec

/-!
# The DHCP client (`dhcp.c`, `dhcp.h`, `netif.c`)

One interface with its client. What a function sends is left out, except that a message may not
get a pbuf; of a reply the model has what `dhcp_recv` reads.
-/

namespace FreeLwip.Ip.DhcpClient

def dhcpCoarseTimerSecs : BitVec 32 := 60
def dhcpFineTimerMsecs : Nat := 500
def dhcpMaxMsgLenMinRequired : BitVec 16 := 576
def dhcpMinReplyLen : BitVec 16 := 44
def rebootTries : Nat := 2

def dhcpBootreply : BitVec 8 := 2
def dhcpOffer : BitVec 8 := 2
def dhcpAck : BitVec 8 := 5
def dhcpNak : BitVec 8 := 6

def netifFlagDhcp : BitVec 8 := 0x08
def netifFlagLinkUp : BitVec 8 := 0x10
def netifFlagEtharp : BitVec 8 := 0x20

def htonl (n : BitVec 32) : BitVec 32 := ppHtonl n

/-! ## The interface -/

def netifSetUp (netif : Netif) : Netif :=
  if netif.flags &&& netifFlagUp = 0 then
    { netif with flags := netif.flags ||| netifFlagUp }
  else
    netif

def netifSetDown (netif : Netif) : Netif :=
  if netif.flags &&& netifFlagUp ≠ 0 then
    { netif with flags := netif.flags &&& ~~~netifFlagUp }
  else
    netif

def netifSetIpaddr (netif : Netif) (ipaddr : IpAddr) : Netif := { netif with ipAddr := ipaddr }
def netifSetNetmask (netif : Netif) (netmask : IpAddr) : Netif := { netif with netmask := netmask }
def netifSetGw (netif : Netif) (gw : IpAddr) : Netif := { netif with gw := gw }

/-! ## Messages -/

/-- `dhcp_rx_options_val`, in host order, where `dhcp_rx_options_given`. -/
structure DhcpOptions where
  msgType : Option (BitVec 32)
  serverId : Option (BitVec 32)
  leaseTime : Option (BitVec 32)
  t1 : Option (BitVec 32)
  t2 : Option (BitVec 32)
  subnetMask : Option (BitVec 32)
  router : Option (BitVec 32)
  deriving DecidableEq, Repr

/-- A reply: the length of its first pbuf, the fields of the header (`xid` in host order, and the
six bytes of `chaddr` that are compared), and what `dhcp_parse_reply` makes of it, `none` being an
error. -/
structure DhcpMsg where
  len : BitVec 16
  op : BitVec 8
  xid : BitVec 32
  chaddr : EthAddr
  yiaddr : IpAddr
  options : Option DhcpOptions
  deriving DecidableEq, Repr

/-! ## The state -/

/-- The states that a client on an interface comes to. -/
inductive State
  | off | requesting | rebooting | rebinding | renewing | selecting | checking | bound | backingOff
  deriving DecidableEq, Repr

/-- A `struct dhcp`. -/
structure Dhcp where
  xid : BitVec 32
  state : State
  tries : BitVec 8
  subnetMaskGiven : Bool
  requestTimeout : BitVec 16
  t1Timeout : BitVec 16
  t2Timeout : BitVec 16
  serverIpAddr : IpAddr
  offeredIpAddr : IpAddr
  offeredSnMask : IpAddr
  offeredGwAddr : IpAddr
  offeredT0Lease : BitVec 32
  offeredT1Renew : BitVec 32
  offeredT2Rebind : BitVec 32
  deriving DecidableEq, Repr

/-- What a field was last written from; an ACK goes by its place in `received`. -/
inductive Source
  | none | offer | ack (n : Nat)
  deriving DecidableEq, Repr

structure History where
  received : List DhcpMsg
  /-- Of `offered_ip_addr`. -/
  offeredIpFrom : Source
  /-- Of `offered_sn_mask`, `subnet_mask_given` and `offered_gw_addr`. -/
  offeredOptionsFrom : Source
  /-- Both, as the interface was bound with them. -/
  boundFrom : Source × Source
  /-- How many messages had been received with the last NAK that was handled. -/
  lastNak : Nat
  deriving DecidableEq, Repr

structure System where
  netif : Netif
  dhcp : Dhcp
  /-- The `xid` of `dhcp_create_msg`, which all the interfaces share. -/
  xid : BitVec 32
  -- No function reads it.
  hist : History
  deriving DecidableEq, Repr

def System.receive (s : System) (m : DhcpMsg) : System :=
  { s with hist := { s.hist with received := s.hist.received ++ [m] } }

def History.current (h : History) : Source := .ack (h.received.length - 1)

/-! ## Sending -/

def dhcpSetState (s : System) (newState : State) : System :=
  if newState ≠ s.dhcp.state then
    { s with dhcp := { s.dhcp with state := newState, tries := 0, requestTimeout := 0 } }
  else
    s

/-- `pbuf` says whether there is one for the message. -/
def dhcpCreateMsg (s : System) (pbuf : Bool) : Err × System :=
  if pbuf then
    let xid := if s.dhcp.tries = 0 then s.xid + 1 else s.xid
    (.ok, { s with xid := xid, dhcp := { s.dhcp with xid := xid } })
  else
    (.mem, s)

/-- The period in ticks of the fine timer; `msecs` is a `u16_t`. -/
def setRequestTimeout (s : System) (msecs : Nat) : System :=
  let ticks := (msecs % 2 ^ 16 + dhcpFineTimerMsecs - 1) / dhcpFineTimerMsecs
  { s with dhcp := { s.dhcp with requestTimeout := BitVec.ofNat 16 ticks } }

/-- What all the functions that send end with: the message, one more try, and the period for
the answer, which goes by the tries. -/
def sendMsg (s : System) (msecs : Nat → Nat) (pbuf : Bool) : Err × System :=
  let r := dhcpCreateMsg s pbuf
  let t := { r.2 with dhcp := { r.2.dhcp with tries := r.2.dhcp.tries + 1 } }
  (r.1, setRequestTimeout t (msecs t.dhcp.tries.toNat))

def dhcpSelect (s : System) (pbuf : Bool) : Err × System :=
  sendMsg (dhcpSetState s .requesting)
    (fun tries => (if tries < 6 then 1 <<< tries else 60) * 1000) pbuf

def dhcpDiscover (s : System) (pbuf : Bool) : Err × System :=
  let s := { s with
    dhcp := { s.dhcp with offeredIpAddr := ipAddrAny }
    hist := { s.hist with offeredIpFrom := .none } }
  sendMsg (dhcpSetState s .selecting)
    (fun tries => (if tries < 6 then 1 <<< tries else 60) * 1000) pbuf

def dhcpRenew (s : System) (pbuf : Bool) : Err × System :=
  sendMsg (dhcpSetState s .renewing)
    (fun tries => if tries < 10 then tries * 2000 else 20 * 1000) pbuf

def dhcpRebind (s : System) (pbuf : Bool) : Err × System :=
  sendMsg (dhcpSetState s .rebinding)
    (fun tries => if tries < 10 then tries * 1000 else 10 * 1000) pbuf

def dhcpReboot (s : System) (pbuf : Bool) : Err × System :=
  sendMsg (dhcpSetState s .rebooting)
    (fun tries => if tries < 10 then tries * 1000 else 10 * 1000) pbuf

def dhcpDecline (s : System) (pbuf : Bool) : Err × System :=
  sendMsg (dhcpSetState s .backingOff) (fun _ => 10 * 1000) pbuf

/-- The query of the address is not a DHCP message; its result is only logged. -/
def dhcpCheck (s : System) : System :=
  let s := dhcpSetState s .checking
  setRequestTimeout { s with dhcp := { s.dhcp with tries := s.dhcp.tries + 1 } } 500

/-! ## Leases -/

def dhcpClearAssignment (s : System) : System :=
  let netif := netifSetIpaddr (netifSetDown s.netif) ipAddrAny
  { s with
    netif := netifSetNetmask (netifSetGw netif ipAddrAny) ipAddrAny
    hist := { s.hist with boundFrom := (.none, .none) } }

def dhcpRelease (s : System) (pbuf : Bool) : Err × System :=
  let s := dhcpSetState s .off
  let s := { s with
    dhcp := { s.dhcp with
      serverIpAddr := ipAddrAny
      offeredIpAddr := ipAddrAny
      offeredSnMask := ipAddrAny
      offeredGwAddr := ipAddrAny
      offeredT0Lease := 0
      offeredT1Renew := 0
      offeredT2Rebind := 0 }
    hist := { s.hist with offeredIpFrom := .none, offeredOptionsFrom := .none } }
  let r := sendMsg s (fun tries => if tries < 10 then tries * 1000 else 10 * 1000) pbuf
  (r.1, dhcpClearAssignment r.2)

/-- A period of the offer in ticks of the coarse timer; an infinite one leaves the timer. -/
def bindTimeout (offered : BitVec 32) (old : BitVec 16) : BitVec 16 :=
  if offered ≠ 0xffffffff then
    let timeout := (offered + dhcpCoarseTimerSecs / 2) / dhcpCoarseTimerSecs
    let timeout := (if timeout > 0xffff then 0xffff else timeout).setWidth 16
    if timeout = 0 then 1 else timeout
  else
    old

/-- The mask of the address's class. -/
def classMask (addr : IpAddr) : IpAddr :=
  let firstOctet := addr &&& 0xff
  if firstOctet ≤ 127 then
    ppHtonl 0xff000000
  else if firstOctet ≥ 192 then
    ppHtonl 0xffffff00
  else
    ppHtonl 0xffff0000

/-- The first host address of the network. -/
def firstHost (addr snMask : IpAddr) : IpAddr := (addr &&& snMask) ||| ppHtonl 0x00000001

def Dhcp.snMask (d : Dhcp) : IpAddr :=
  if d.subnetMaskGiven then d.offeredSnMask else classMask d.offeredIpAddr

def Dhcp.gwAddr (d : Dhcp) : IpAddr :=
  if ipAddrIsany d.offeredGwAddr then firstHost d.offeredIpAddr d.snMask else d.offeredGwAddr

def dhcpBind (s : System) : System :=
  let d := s.dhcp
  let t1 := bindTimeout d.offeredT1Renew d.t1Timeout
  let t2 := bindTimeout d.offeredT2Rebind d.t2Timeout
  let netif := netifSetNetmask (netifSetIpaddr s.netif d.offeredIpAddr) d.snMask
  dhcpSetState
    { s with
      netif := netifSetUp (netifSetGw netif d.gwAddr)
      dhcp := { d with t1Timeout := if t1 ≥ t2 ∧ t2 > 0 then 0 else t1, t2Timeout := t2 }
      hist := { s.hist with boundFrom := (s.hist.offeredIpFrom, s.hist.offeredOptionsFrom) } }
    .bound

/-! ## Replies -/

def dhcpHandleNak (s : System) (pbuf : Bool) : System :=
  let s := dhcpSetState (dhcpClearAssignment s) .backingOff
  let s := { s with hist := { s.hist with lastNak := s.hist.received.length } }
  (dhcpDiscover s pbuf).2

def dhcpHandleOffer (s : System) (m : DhcpMsg) (o : DhcpOptions) (pbuf : Bool) : System :=
  match o.serverId with
  | some serverId =>
    let s := { s with
      dhcp := { s.dhcp with serverIpAddr := htonl serverId, offeredIpAddr := m.yiaddr }
      hist := { s.hist with offeredIpFrom := .offer } }
    (dhcpSelect s pbuf).2
  | none => s

def dhcpHandleAck (s : System) (m : DhcpMsg) (o : DhcpOptions) : System :=
  let t0 := o.leaseTime.getD s.dhcp.offeredT0Lease
  { s with
    dhcp := { s.dhcp with
      offeredT0Lease := t0
      offeredT1Renew := o.t1.getD (t0 / 2)
      offeredT2Rebind := o.t2.getD t0
      offeredIpAddr := m.yiaddr
      offeredSnMask := (o.subnetMask.map htonl).getD ipAddrAny
      subnetMaskGiven := o.subnetMask.isSome
      offeredGwAddr := (o.router.map htonl).getD ipAddrAny }
    hist := { s.hist with
      offeredIpFrom := s.hist.current
      offeredOptionsFrom := s.hist.current } }

/-- What `dhcp_recv` asks of a message before it looks at the options. -/
def accepts (s : System) (m : DhcpMsg) : Bool :=
  !(m.len < dhcpMinReplyLen) && m.op == dhcpBootreply && m.chaddr == s.netif.hwaddr &&
    m.xid == s.dhcp.xid

/-- The type of a message that parses, cut to a `u8_t`. -/
def DhcpMsg.type (m : DhcpMsg) : Option (BitVec 8) :=
  m.options.bind fun o => o.msgType.map (·.setWidth 8)

def dhcpRecv (s : System) (m : DhcpMsg) (pbuf : Bool) : System :=
  if accepts s m then
    match m.options, m.type with
    | some o, some msgType =>
      let state := s.dhcp.state
      if msgType = dhcpAck then
        if state = .requesting then
          dhcpCheck (dhcpHandleAck s m o)
        else if state = .rebooting ∨ state = .rebinding ∨ state = .renewing then
          dhcpBind s
        else
          s
      else if msgType = dhcpNak ∧ (state = .rebooting ∨ state = .requesting ∨
          state = .rebinding ∨ state = .renewing) then
        dhcpHandleNak s pbuf
      else if msgType = dhcpOffer ∧ state = .selecting then
        dhcpHandleOffer { s with dhcp := { s.dhcp with requestTimeout := 0 } } m o pbuf
      else
        s
    | _, _ => s
  else
    s

/-! ## Timers -/

/-- `relPbuf` is for the message of `dhcp_release`, `pbuf` for the one after it. -/
def dhcpTimeout (s : System) (relPbuf pbuf : Bool) : System :=
  match s.dhcp.state with
  | .backingOff | .selecting => (dhcpDiscover s pbuf).2
  | .requesting =>
    if s.dhcp.tries ≤ 5 then
      (dhcpSelect s pbuf).2
    else
      (dhcpDiscover (dhcpRelease s relPbuf).2 pbuf).2
  | .checking => if s.dhcp.tries ≤ 1 then dhcpCheck s else dhcpBind s
  | .renewing => (dhcpRenew s pbuf).2
  | .rebinding =>
    if s.dhcp.tries ≤ 8 then
      (dhcpRebind s pbuf).2
    else
      (dhcpDiscover (dhcpRelease s relPbuf).2 pbuf).2
  | .rebooting =>
    if s.dhcp.tries.toNat < rebootTries then (dhcpReboot s pbuf).2 else (dhcpDiscover s pbuf).2
  | .off | .bound => s

def dhcpT1Timeout (s : System) (pbuf : Bool) : System :=
  if s.dhcp.state = .requesting ∨ s.dhcp.state = .bound ∨ s.dhcp.state = .renewing then
    (dhcpRenew s pbuf).2
  else
    s

def dhcpT2Timeout (s : System) (pbuf : Bool) : System :=
  if s.dhcp.state = .requesting ∨ s.dhcp.state = .bound ∨ s.dhcp.state = .renewing then
    (dhcpRebind s pbuf).2
  else
    s

/-- What `dhcp_coarse_tmr` does for the interface. Each decrement is part of its test, so that
zero goes to 0xffff, and `t1_timeout` stays where `t2_timeout` fires. -/
def dhcpCoarseTmr (s : System) (pbuf : Bool) : System :=
  let t := { s with dhcp := { s.dhcp with t2Timeout := s.dhcp.t2Timeout - 1 } }
  if s.dhcp.t2Timeout = 1 then
    dhcpT2Timeout t pbuf
  else
    let u := { t with dhcp := { t.dhcp with t1Timeout := s.dhcp.t1Timeout - 1 } }
    if s.dhcp.t1Timeout = 1 then dhcpT1Timeout u pbuf else u

def dhcpFineTmr (s : System) (relPbuf pbuf : Bool) : System :=
  let t := { s with dhcp := { s.dhcp with requestTimeout := s.dhcp.requestTimeout - 1 } }
  if s.dhcp.requestTimeout > 1 then
    t
  else if s.dhcp.requestTimeout = 1 then
    dhcpTimeout t relPbuf pbuf
  else
    s

/-! ## The link and ARP -/

def dhcpNetworkChanged (s : System) (pbuf : Bool) : System :=
  match s.dhcp.state with
  | .rebinding | .renewing | .bound | .rebooting =>
    let s := { s with netif := netifSetDown s.netif, dhcp := { s.dhcp with tries := 0 } }
    (dhcpReboot s pbuf).2
  | .off => s
  | .requesting | .selecting | .checking | .backingOff =>
    (dhcpDiscover { s with dhcp := { s.dhcp with tries := 0 } } pbuf).2

def netifSetLinkUp (s : System) (pbuf : Bool) : System :=
  if s.netif.flags &&& netifFlagLinkUp = 0 then
    let flags := s.netif.flags ||| netifFlagLinkUp
    dhcpNetworkChanged { s with netif := { s.netif with flags := flags } } pbuf
  else
    s

def netifSetLinkDown (s : System) : System :=
  if s.netif.flags &&& netifFlagLinkUp ≠ 0 then
    { s with netif := { s.netif with flags := s.netif.flags &&& ~~~netifFlagLinkUp } }
  else
    s

def dhcpArpReply (s : System) (addr : IpAddr) (pbuf : Bool) : System :=
  if s.dhcp.state = .checking then
    if ipAddrCmp addr s.dhcp.offeredIpAddr then (dhcpDecline s pbuf).2 else s
  else
    s

/-! ## Starting -/

/-- `attached` says whether the netif already has a `struct dhcp`; `malloc` and `pcb` whether
there is memory for a new one, and a pcb. -/
def dhcpStart (netif : Netif) (xid : BitVec 32) (attached malloc pcb pbuf : Bool) :
    Except Err System :=
  let netif := { netif with flags := netif.flags &&& ~~~netifFlagDhcp }
  if netif.flags &&& netifFlagEtharp = 0 then
    .error .arg
  else if netif.mtu < dhcpMaxMsgLenMinRequired then
    .error .mem
  else if !attached && !malloc then
    .error .mem
  else
    let s := dhcpClearAssignment
      { netif := netif
        dhcp := ⟨0, .off, 0, false, 0, 0, 0, 0, 0, 0, 0, 0, 0, 0⟩
        xid := xid
        hist := ⟨[], .none, .none, (.none, .none), 0⟩ }
    if !pcb then
      .error .mem
    else
      let r := dhcpDiscover s pbuf
      if r.1 ≠ .ok then
        .error .mem
      else
        let flags := r.2.netif.flags ||| netifFlagDhcp
        .ok { r.2 with netif := { r.2.netif with flags := flags } }

/-! ## Runs -/

inductive Event
  | recv (m : DhcpMsg) (pbuf : Bool)
  | coarseTmr (pbuf : Bool)
  | fineTmr (relPbuf pbuf : Bool)
  | linkUp (pbuf : Bool)
  | linkDown
  | arpReply (addr : IpAddr) (pbuf : Bool)
  /-- The client of another interface has sent. -/
  | others (xid : BitVec 32)
  deriving DecidableEq, Repr

def step (s : System) : Event → Option System
  | .recv m pbuf => some (dhcpRecv (s.receive m) m pbuf)
  | .coarseTmr pbuf => some (dhcpCoarseTmr s pbuf)
  | .fineTmr relPbuf pbuf => some (dhcpFineTmr s relPbuf pbuf)
  | .linkUp pbuf => some (netifSetLinkUp s pbuf)
  | .linkDown => some (netifSetLinkDown s)
  | .arpReply addr pbuf => some (dhcpArpReply s addr pbuf)
  | .others xid => some { s with xid := xid }

end FreeLwip.Ip.DhcpClient
