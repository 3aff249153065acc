import FreeLwip.Ip.Dhcp
import FreeLwip.Lib.Run

/-!
# Where the addresses of a DHCP interface come from

Of a client, the addresses of its interface need the state, what `dhcp_bind` would take, and the
history. Each event is one of a few moves of these.
-/

namespace FreeLwip.Ip.DhcpClient

open Run

structure Addrs where
  ipAddr : IpAddr
  netmask : IpAddr
  gw : IpAddr
  deriving DecidableEq, Repr

def netifAddrs (netif : Netif) : Addrs := ⟨netif.ipAddr, netif.netmask, netif.gw⟩

/-- What an ACK leases, with the defaults for what it leaves out. -/
def leased (yiaddr : IpAddr) (o : DhcpOptions) : Addrs :=
  let netmask := (o.subnetMask.map htonl).getD (classMask yiaddr)
  let gw := (o.router.map htonl).getD ipAddrAny
  ⟨yiaddr, netmask, if gw = ipAddrAny then firstHost yiaddr netmask else gw⟩

/-- The states without a lease in use. -/
def State.unleased : State → Bool
  | .selecting | .requesting | .checking | .backingOff | .rebooting => true
  | .off | .bound | .renewing | .rebinding => false

/-- The states from which the client may be bound to an address, or is. -/
def State.hasLease : State → Bool
  | .checking | .bound | .renewing | .rebinding | .rebooting => true
  | .off | .selecting | .requesting | .backingOff => false

/-- The message number `n` is an ACK. -/
def History.IsAck (h : History) (n : Nat) (m : DhcpMsg) (o : DhcpOptions) : Prop :=
  h.received[n]? = some m ∧ m.options = some o ∧ m.type = some dhcpAck

/-- The address and the options come from one ACK, which no NAK came after, and the addresses
are those it leases. -/
def FromAck (h : History) (src : Source × Source) (addrs : Addrs) : Prop :=
  ∃ n m o, h.IsAck n m o ∧ h.lastNak ≤ n ∧ src = (.ack n, .ack n) ∧ addrs = leased m.yiaddr o

structure Hygienic (s : System) : Prop where
  down : s.dhcp.state.unleased = true → netifIsUp s.netif = false
  leased : netifIsUp s.netif = true → FromAck s.hist s.hist.boundFrom (netifAddrs s.netif)

/-- Neither renewal timer runs out in REQUESTING, where no lease is in use. -/
def NoStaleTimer (s : System) (e : Event) (_t : System) : Prop :=
  match e with
  | .coarseTmr _ => s.dhcp.state = .requesting → s.dhcp.t2Timeout ≠ 1 ∧ s.dhcp.t1Timeout ≠ 1
  | _ => True

instance (s : System) (e : Event) (t : System) : Decidable (NoStaleTimer s e t) :=
  match e with
  | .coarseTmr _ => inferInstanceAs (Decidable (_ → _ ∧ _))
  | .recv .. | .fineTmr .. | .linkUp _ | .linkDown | .arpReply .. | .others _ =>
    inferInstanceAs (Decidable True)

/-! ## The view -/

structure View where
  state : State
  up : Bool
  addrs : Addrs
  /-- What `dhcp_bind` would give the interface. -/
  offered : Addrs
  hist : History

def Dhcp.addrs (d : Dhcp) : Addrs := ⟨d.offeredIpAddr, d.snMask, d.gwAddr⟩

def System.view (s : System) : View :=
  ⟨s.dhcp.state, netifIsUp s.netif, netifAddrs s.netif, s.dhcp.addrs, s.hist⟩

/-- What the events make of the view; `stale` says whether a timer may run out in REQUESTING.
What would be offered is left open where no function binds it. -/
inductive Move (stale : Prop) : View → View → Prop
  | stay (v : View) : Move stale v v
  | receive (v : View) (m : DhcpMsg) :
    Move stale v { v with hist := { v.hist with received := v.hist.received ++ [m] } }
  | discover {v : View} (offered : Addrs) (h : v.state.unleased = true) :
    Move stale v { v with
      state := .selecting, offered := offered, hist := { v.hist with offeredIpFrom := .none } }
  | offer {v : View} (offered : Addrs) (h : v.state = .selecting) :
    Move stale v { v with
      state := .requesting, offered := offered, hist := { v.hist with offeredIpFrom := .offer } }
  | ack {v : View} {m : DhcpMsg} {o : DhcpOptions} (h : v.state = .requesting)
    (ho : m.options = some o) (htype : m.type = some dhcpAck) :
    Move stale v { v with
      state := .checking
      offered := leased m.yiaddr o
      hist := { v.hist with
        received := v.hist.received ++ [m]
        offeredIpFrom := .ack v.hist.received.length
        offeredOptionsFrom := .ack v.hist.received.length } }
  | decline {v : View} (h : v.state = .checking) : Move stale v { v with state := .backingOff }
  | bind {v : View} (h : v.state.hasLease = true) :
    Move stale v { v with
      state := .bound
      up := true
      addrs := v.offered
      hist := { v.hist with boundFrom := (v.hist.offeredIpFrom, v.hist.offeredOptionsFrom) } }
  | extend {v : View} {newState : State} (h : v.state = .bound ∨ v.state = .renewing)
    (hnew : newState = .renewing ∨ newState = .rebinding) :
    Move stale v { v with state := newState }
  | stale {v : View} {newState : State} (hstale : stale) (h : v.state = .requesting)
    (hnew : newState = .renewing ∨ newState = .rebinding) :
    Move stale v { v with state := newState }
  | reboot {v : View} (h : v.state.hasLease = true) :
    Move stale v { v with state := .rebooting, up := false }
  | nak (v : View) (addrs offered : Addrs) :
    Move stale v { v with
      state := .selecting
      up := false
      addrs := addrs
      offered := offered
      hist := { v.hist with
        offeredIpFrom := .none, boundFrom := (.none, .none), lastNak := v.hist.received.length } }
  | release (v : View) (addrs offered : Addrs) :
    Move stale v { v with
      state := .selecting
      up := false
      addrs := addrs
      offered := offered
      hist := { v.hist with
        offeredIpFrom := .none, offeredOptionsFrom := .none, boundFrom := (.none, .none) } }

/-! ## The functions on the view -/

section View

variable (s : System) (pbuf : Bool)

theorem netifIsUp_setUp (netif : Netif) : netifIsUp (netifSetUp netif) = true := by
  unfold netifSetUp
  split
  · have h : ∀ f : BitVec 8, (f ||| netifFlagUp) &&& netifFlagUp ≠ 0 := by decide
    simpa [netifIsUp] using h netif.flags
  · next h => simpa [netifIsUp] using h

theorem netifIsUp_setDown (netif : Netif) : netifIsUp (netifSetDown netif) = false := by
  unfold netifSetDown
  split
  · have h : ∀ f : BitVec 8, f &&& ~~~netifFlagUp &&& netifFlagUp = 0 := by decide
    simpa [netifIsUp] using h netif.flags
  · next h => simpa [netifIsUp] using h

theorem setUp_eq (netif : Netif) :
    netifSetUp netif = { netif with flags := (netifSetUp netif).flags } := by
  unfold netifSetUp
  split <;> rfl

theorem setDown_eq (netif : Netif) :
    netifSetDown netif = { netif with flags := (netifSetDown netif).flags } := by
  unfold netifSetDown
  split <;> rfl

@[simp] theorem view_setRequestTimeout (msecs : Nat) : (setRequestTimeout s msecs).view = s.view :=
  rfl

@[simp] theorem view_sendMsg (msecs : Nat → Nat) : (sendMsg s msecs pbuf).2.view = s.view := by
  cases pbuf <;> rfl

@[simp] theorem view_setState (newState : State) :
    (dhcpSetState s newState).view = { s.view with state := newState } := by
  unfold dhcpSetState
  split
  · rfl
  · next h => rw [not_not.mp h]; rfl

theorem view_discover :
    ∃ offered, (dhcpDiscover s pbuf).2.view =
      { s.view with
        state := .selecting
        offered := offered
        hist := { s.view.hist with offeredIpFrom := .none } } := by
  refine ⟨Dhcp.addrs { s.dhcp with offeredIpAddr := ipAddrAny }, ?_⟩
  unfold dhcpDiscover
  simp only [view_sendMsg, view_setState]
  rfl

theorem view_renew : (dhcpRenew s pbuf).2.view = { s.view with state := .renewing } := by
  rw [dhcpRenew, view_sendMsg, view_setState]

theorem view_rebind : (dhcpRebind s pbuf).2.view = { s.view with state := .rebinding } := by
  rw [dhcpRebind, view_sendMsg, view_setState]

theorem view_reboot : (dhcpReboot s pbuf).2.view = { s.view with state := .rebooting } := by
  rw [dhcpReboot, view_sendMsg, view_setState]

theorem view_check : (dhcpCheck s).view = { s.view with state := .checking } := by
  unfold dhcpCheck
  rw [view_setRequestTimeout, ← view_setState]
  rfl

theorem view_clearAssignment :
    (dhcpClearAssignment s).view =
      { s.view with
        up := false
        addrs := ⟨ipAddrAny, ipAddrAny, ipAddrAny⟩
        hist := { s.view.hist with boundFrom := (.none, .none) } } := by
  have hdown : netifIsUp (dhcpClearAssignment s).netif = false := netifIsUp_setDown s.netif
  simp only [System.view, hdown]
  rfl

theorem view_bind :
    (dhcpBind s).view =
      { s.view with
        state := .bound
        up := true
        addrs := s.dhcp.addrs
        hist := { s.view.hist with
          boundFrom := (s.view.hist.offeredIpFrom, s.view.hist.offeredOptionsFrom) } } := by
  unfold dhcpBind
  simp only [view_setState]
  simp only [System.view, netifIsUp_setUp, netifAddrs]
  rw [setUp_eq]
  rfl

theorem handleAck_addrs (m : DhcpMsg) (o : DhcpOptions) :
    (dhcpHandleAck s m o).dhcp.addrs = leased m.yiaddr o := by
  cases hmask : o.subnetMask <;> cases hrouter : o.router <;>
    simp [dhcpHandleAck, Dhcp.addrs, Dhcp.snMask, Dhcp.gwAddr, leased, hmask, hrouter, ipAddrIsany]

theorem view_netifSetDown :
    System.view { s with netif := netifSetDown s.netif } = { s.view with up := false } := by
  simp only [System.view, netifAddrs, netifIsUp_setDown]
  rw [setDown_eq]

theorem view_handleAck (m : DhcpMsg) (o : DhcpOptions) :
    (dhcpHandleAck s m o).view =
      { s.view with
        offered := leased m.yiaddr o
        hist := { s.view.hist with
          offeredIpFrom := s.hist.current, offeredOptionsFrom := s.hist.current } } := by
  rw [← handleAck_addrs s m o]
  rfl

theorem view_handleOffer (m : DhcpMsg) (o : DhcpOptions) :
    (dhcpHandleOffer s m o pbuf).view = s.view ∨
      ∃ offered, (dhcpHandleOffer s m o pbuf).view =
        { s.view with
          state := .requesting
          offered := offered
          hist := { s.view.hist with offeredIpFrom := .offer } } := by
  unfold dhcpHandleOffer
  split
  · next serverId _ =>
    refine .inr ⟨Dhcp.addrs { s.dhcp with offeredIpAddr := m.yiaddr }, ?_⟩
    unfold dhcpSelect
    simp only [view_sendMsg, view_setState]
    rfl
  · exact .inl rfl

theorem view_handleNak :
    ∃ offered, (dhcpHandleNak s pbuf).view =
      { s.view with
        state := .selecting
        up := false
        addrs := ⟨ipAddrAny, ipAddrAny, ipAddrAny⟩
        offered := offered
        hist := { s.view.hist with
          offeredIpFrom := .none, boundFrom := (.none, .none)
          lastNak := s.view.hist.received.length } } := by
  have hset := view_setState (dhcpClearAssignment s) .backingOff
  rw [view_clearAssignment] at hset
  unfold dhcpHandleNak
  generalize dhcpSetState (dhcpClearAssignment s) .backingOff = t at hset ⊢
  obtain ⟨offered, hdiscover⟩ :=
    view_discover { t with hist := { t.hist with lastNak := t.hist.received.length } } pbuf
  refine ⟨offered, hdiscover.trans ?_⟩
  simp only [System.view, View.mk.injEq] at hset
  simp [System.view, hset]

theorem view_release_discover (relPbuf : Bool) :
    ∃ offered, (dhcpDiscover (dhcpRelease s relPbuf).2 pbuf).2.view =
      { s.view with
        state := .selecting
        up := false
        addrs := ⟨ipAddrAny, ipAddrAny, ipAddrAny⟩
        offered := offered
        hist := { s.view.hist with
          offeredIpFrom := .none, offeredOptionsFrom := .none, boundFrom := (.none, .none) } } := by
  have hset := view_setState s .off
  obtain ⟨offered, hdiscover⟩ := view_discover (dhcpRelease s relPbuf).2 pbuf
  refine ⟨offered, hdiscover.trans ?_⟩
  unfold dhcpRelease
  generalize dhcpSetState s .off = t at hset ⊢
  simp only [view_clearAssignment, view_sendMsg]
  simp only [System.view, View.mk.injEq] at hset
  simp [System.view, hset]

end View

/-! ## The events on the view -/

section Moves

variable {s : System} {stale : Prop}

theorem unleased_of_state {state : State} (h : s.dhcp.state = state) :
    s.view.state.unleased = state.unleased :=
  congrArg State.unleased h

theorem hasLease_of_state {state : State} (h : s.dhcp.state = state) :
    s.view.state.hasLease = state.hasLease :=
  congrArg State.hasLease h

theorem hasLease_of_reply (h : s.dhcp.state = .rebooting ∨ s.dhcp.state = .rebinding ∨
    s.dhcp.state = .renewing) : s.view.state.hasLease = true := by
  rcases h with h | h | h <;> exact hasLease_of_state h

theorem recv_moves (s : System) (m : DhcpMsg) (pbuf : Bool) :
    ∃ v, Move stale s.view v ∧ Move stale v (dhcpRecv (s.receive m) m pbuf).view := by
  generalize ht : s.receive m = t
  have hview : t.view =
      { s.view with hist := { s.view.hist with received := s.view.hist.received ++ [m] } } := by
    rw [← ht]
    rfl
  have hreceive : Move stale s.view t.view := hview ▸ .receive _ m
  have hstate : t.dhcp.state = s.dhcp.state := congrArg View.state hview
  have hcurrent : t.hist.current = .ack s.view.hist.received.length := by
    rw [← ht]
    simp [System.receive, History.current, System.view]
  unfold dhcpRecv
  split
  · split
    · next o msgType ho htype =>
      simp only []
      split
      · next hack =>
        split
        · next hrequesting =>
          refine ⟨_, .stay _, ?_⟩
          rw [view_check, view_handleAck, hview, hcurrent]
          exact .ack (hstate.symm.trans hrequesting) ho (by rw [htype, hack])
        · split
          · next hbind =>
            refine ⟨_, hreceive, ?_⟩
            rw [view_bind]
            exact .bind (hasLease_of_reply hbind)
          · exact ⟨_, hreceive, .stay _⟩
      · split
        · obtain ⟨offered, hnak⟩ := view_handleNak t pbuf
          rw [hnak]
          exact ⟨_, hreceive, .nak _ _ _⟩
        · split
          · next hoffer =>
            refine ⟨_, hreceive, ?_⟩
            rcases view_handleOffer { t with dhcp := { t.dhcp with requestTimeout := 0 } } pbuf m o
              with hsame | ⟨offered, hselect⟩
            · rw [hsame]
              exact .stay _
            · rw [hselect]
              exact .offer offered hoffer.2
          · exact ⟨_, hreceive, .stay _⟩
    · exact ⟨_, hreceive, .stay _⟩
  · exact ⟨_, hreceive, .stay _⟩

theorem Move.retry {newState : State} (h : s.dhcp.state = newState) :
    Move stale s.view { s.view with state := newState } := by
  rw [← h]
  exact .stay _

theorem discover_moves (s : System) (pbuf : Bool) (h : s.view.state.unleased = true) :
    Move stale s.view (dhcpDiscover s pbuf).2.view := by
  obtain ⟨offered, hview⟩ := view_discover s pbuf
  rw [hview]
  exact .discover offered h

theorem timeout_moves (s : System) (relPbuf pbuf : Bool) :
    Move stale s.view (dhcpTimeout s relPbuf pbuf).view := by
  have hrelease : Move stale s.view (dhcpDiscover (dhcpRelease s relPbuf).2 pbuf).2.view := by
    obtain ⟨offered, hview⟩ := view_release_discover s pbuf relPbuf
    rw [hview]
    exact .release _ _ _
  unfold dhcpTimeout
  split
  · next h => exact discover_moves s pbuf (unleased_of_state h)
  · next h => exact discover_moves s pbuf (unleased_of_state h)
  · next h =>
    split
    · rw [dhcpSelect, view_sendMsg, view_setState]
      exact .retry h
    · exact hrelease
  · next h =>
    split
    · rw [view_check]
      exact .retry h
    · rw [view_bind]
      exact .bind (hasLease_of_state h)
  · next h =>
    rw [view_renew]
    exact .retry h
  · next h =>
    split
    · rw [view_rebind]
      exact .retry h
    · exact hrelease
  · next h =>
    split
    · rw [view_reboot]
      exact .retry h
    · exact discover_moves s pbuf (unleased_of_state h)
  · exact .stay _
  · exact .stay _

theorem coarse_moves (s : System) (pbuf : Bool) :
    Move (¬ NoStaleTimer s (.coarseTmr pbuf) s) s.view (dhcpCoarseTmr s pbuf).view := by
  have hextend {newState : State} (hfires : s.dhcp.t2Timeout = 1 ∨ s.dhcp.t1Timeout = 1)
      (hstate : s.dhcp.state = .requesting ∨ s.dhcp.state = .bound ∨ s.dhcp.state = .renewing)
      (hnew : newState = .renewing ∨ newState = .rebinding) :
      Move (¬ NoStaleTimer s (.coarseTmr pbuf) s) s.view { s.view with state := newState } := by
    rcases hstate with h | h
    · -- the only timer that may run out in REQUESTING is a stale one
      refine .stale ?_ h hnew
      simp only [NoStaleTimer, h, forall_const]
      tauto
    · exact .extend h hnew
  unfold dhcpCoarseTmr
  simp only []
  split
  · next ht2 =>
    unfold dhcpT2Timeout
    split
    · next h =>
      rw [view_rebind]
      exact hextend (.inl ht2) h (.inr rfl)
    · exact .stay _
  · split
    · next ht1 =>
      unfold dhcpT1Timeout
      split
      · next h =>
        rw [view_renew]
        exact hextend (.inr ht1) h (.inl rfl)
      · exact .stay _
    · exact .stay _

theorem fine_moves (s : System) (relPbuf pbuf : Bool) :
    Move stale s.view (dhcpFineTmr s relPbuf pbuf).view := by
  unfold dhcpFineTmr
  simp only []
  split
  · exact .stay _
  · split
    · exact timeout_moves { s with
        dhcp := { s.dhcp with requestTimeout := s.dhcp.requestTimeout - 1 } } relPbuf pbuf
    · exact .stay _

theorem networkChanged_moves (s : System) (pbuf : Bool) :
    Move stale s.view (dhcpNetworkChanged s pbuf).view := by
  have hreboot (h : s.view.state.hasLease = true) : Move stale s.view
      (dhcpReboot { s with
        netif := netifSetDown s.netif, dhcp := { s.dhcp with tries := 0 } } pbuf).2.view := by
    rw [view_reboot]
    have hdown := view_netifSetDown { s with dhcp := { s.dhcp with tries := 0 } }
    simp only at hdown
    rw [hdown]
    exact .reboot h
  have hdiscover (h : s.view.state.unleased = true) : Move stale s.view
      (dhcpDiscover { s with dhcp := { s.dhcp with tries := 0 } } pbuf).2.view :=
    discover_moves { s with dhcp := { s.dhcp with tries := 0 } } pbuf h
  unfold dhcpNetworkChanged
  split
  · next h => exact hreboot (hasLease_of_state h)
  · next h => exact hreboot (hasLease_of_state h)
  · next h => exact hreboot (hasLease_of_state h)
  · next h => exact hreboot (hasLease_of_state h)
  · exact .stay _
  · next h => exact hdiscover (unleased_of_state h)
  · next h => exact hdiscover (unleased_of_state h)
  · next h => exact hdiscover (unleased_of_state h)
  · next h => exact hdiscover (unleased_of_state h)

theorem linkUp_moves (s : System) (pbuf : Bool) :
    Move stale s.view (netifSetLinkUp s pbuf).view := by
  unfold netifSetLinkUp
  split
  · have hview : System.view { s with
        netif := { s.netif with flags := s.netif.flags ||| netifFlagLinkUp } } = s.view := by
      have h : ∀ f : BitVec 8, (f ||| netifFlagLinkUp) &&& netifFlagUp = f &&& netifFlagUp := by
        decide
      simp only [System.view, netifAddrs, netifIsUp, h]
    rw [← hview]
    exact networkChanged_moves _ pbuf
  · exact .stay _

theorem linkDown_view (s : System) : (netifSetLinkDown s).view = s.view := by
  unfold netifSetLinkDown
  split
  · have h : ∀ f : BitVec 8, f &&& ~~~netifFlagLinkUp &&& netifFlagUp = f &&& netifFlagUp := by
      decide
    simp only [System.view, netifAddrs, netifIsUp, h]
  · rfl

theorem arpReply_moves (s : System) (addr : IpAddr) (pbuf : Bool) :
    Move stale s.view (dhcpArpReply s addr pbuf).view := by
  unfold dhcpArpReply
  split
  · next h =>
    split
    · rw [dhcpDecline, view_sendMsg, view_setState]
      exact .decline h
    · exact .stay _
  · exact .stay _

end Moves

theorem step_moves {s t : System} {e : Event} (h : step s e = some t) :
    ∃ v, Move (¬ NoStaleTimer s e t) s.view v ∧ Move (¬ NoStaleTimer s e t) v t.view := by
  cases e with
  | recv m pbuf =>
    cases h
    exact recv_moves s m pbuf
  | coarseTmr pbuf =>
    cases h
    exact ⟨_, .stay _, coarse_moves s pbuf⟩
  | fineTmr relPbuf pbuf =>
    cases h
    exact ⟨_, .stay _, fine_moves s relPbuf pbuf⟩
  | linkUp pbuf =>
    cases h
    exact ⟨_, .stay _, linkUp_moves s pbuf⟩
  | linkDown =>
    cases h
    rw [linkDown_view]
    exact ⟨_, .stay _, .stay _⟩
  | arpReply addr pbuf =>
    cases h
    exact ⟨_, .stay _, arpReply_moves s addr pbuf⟩
  | others xid =>
    cases h
    exact ⟨_, .stay _, .stay _⟩

/-! ## Invariants -/

/-- What holds with stale timers too. -/
structure Grounded (v : View) : Prop where
  down : v.state.unleased = true → v.up = false
  offer : v.state = .requesting → v.hist.offeredIpFrom = .offer
  nak : v.hist.lastNak ≤ v.hist.received.length

/-- What holds without. -/
structure LeaseInv (v : View) : Prop where
  bound : v.up = true → FromAck v.hist v.hist.boundFrom v.addrs
  offered : v.state.hasLease = true →
    FromAck v.hist (v.hist.offeredIpFrom, v.hist.offeredOptionsFrom) v.offered

section Invariants

variable {v w : View} {stale : Prop}

theorem FromAck.receive {h : History} {src : Source × Source} {addrs : Addrs} (m : DhcpMsg)
    (hack : FromAck h src addrs) : FromAck { h with received := h.received ++ [m] } src addrs := by
  obtain ⟨n, m', o, ⟨hm, hopt, htype⟩, hnak, hsrc, haddrs⟩ := hack
  have hn : n < h.received.length := (List.getElem?_eq_some_iff.mp hm).1
  exact ⟨n, m', o, ⟨by rw [List.getElem?_append_left hn, hm], hopt, htype⟩, hnak, hsrc, haddrs⟩

theorem Grounded.move (h : Grounded v) (hmove : Move stale v w) : Grounded w := by
  cases hmove with
  | stay => exact h
  | receive m =>
    refine ⟨h.down, h.offer, ?_⟩
    have := h.nak
    simp only [List.length_append]
    omega
  | discover offered hstate => exact ⟨fun _ => h.down hstate, nofun, h.nak⟩
  | offer offered hstate =>
    exact ⟨fun _ => h.down (by simp [hstate, State.unleased]), fun _ => rfl, h.nak⟩
  | ack hstate ho htype =>
    refine ⟨fun _ => h.down (by simp [hstate, State.unleased]), nofun, ?_⟩
    have := h.nak
    simp only [List.length_append]
    omega
  | decline hstate => exact ⟨fun _ => h.down (by simp [hstate, State.unleased]), nofun, h.nak⟩
  | bind hstate => exact ⟨nofun, nofun, h.nak⟩
  | extend hstate hnew | stale _ hstate hnew =>
    rcases hnew with rfl | rfl <;> exact ⟨nofun, nofun, h.nak⟩
  | reboot hstate => exact ⟨fun _ => rfl, nofun, h.nak⟩
  | nak => exact ⟨fun _ => rfl, nofun, le_refl _⟩
  | release => exact ⟨fun _ => rfl, nofun, h.nak⟩

theorem LeaseInv.move (h : LeaseInv v) (hg : Grounded v) (hmove : Move False v w) :
    LeaseInv w := by
  cases hmove with
  | stay => exact h
  | receive m => exact ⟨fun hup => (h.bound hup).receive m, fun hst => (h.offered hst).receive m⟩
  | discover offered hstate => exact ⟨fun hup => by simp [hg.down hstate] at hup, nofun⟩
  | offer offered hstate => exact ⟨h.bound, nofun⟩
  | @ack m o hstate ho htype =>
    have hdown := hg.down (by simp [hstate, State.unleased])
    refine ⟨fun hup => by simp [hdown] at hup, fun _ => ?_⟩
    exact ⟨v.hist.received.length, m, o, ⟨by simp, ho, htype⟩, hg.nak, rfl, rfl⟩
  | decline hstate => exact ⟨h.bound, nofun⟩
  | bind hstate => exact ⟨fun _ => h.offered hstate, fun _ => h.offered hstate⟩
  | extend hstate hnew =>
    refine ⟨h.bound, fun _ => h.offered ?_⟩
    rcases hstate with hstate | hstate <;> simp [hstate, State.hasLease]
  | stale hstale => exact hstale.elim
  | reboot hstate => exact ⟨nofun, fun _ => h.offered hstate⟩
  | nak => exact ⟨nofun, nofun⟩
  | release => exact ⟨nofun, nofun⟩

end Invariants

section Runs

variable {s t u : System} {e : Event} {es : List Event}

theorem hygienic_of_inv (hg : Grounded s.view) (hl : LeaseInv s.view) : Hygienic s :=
  ⟨hg.down, hl.bound⟩

theorem Grounded.step (h : Grounded s.view) (hstep : step s e = some t) : Grounded t.view := by
  obtain ⟨v, hfirst, hsecond⟩ := step_moves hstep
  exact (h.move hfirst).move hsecond

theorem LeaseInv.step (h : LeaseInv s.view) (hg : Grounded s.view) (hstep : step s e = some t)
    (hok : NoStaleTimer s e t) : LeaseInv t.view := by
  obtain ⟨v, hfirst, hsecond⟩ := step_moves hstep
  simp only [hok, not_true_eq_false] at hfirst hsecond
  exact (h.move hg hfirst).move (hg.move hfirst) hsecond

theorem grounded_always (hs : Grounded s.view) (h : run step s es = some t) : Grounded t.view :=
  run_invariant (fun _ _ _ hg hstep => Grounded.step hg hstep) hs h

theorem start_view {netif : Netif} {xid : BitVec 32} {attached malloc pcb pbuf : Bool}
    (h : dhcpStart netif xid attached malloc pcb pbuf = .ok s) :
    s.view.state = .selecting ∧ s.view.up = false ∧
      s.view.hist = ⟨[], .none, .none, (.none, .none), 0⟩ := by
  unfold dhcpStart at h
  simp only [] at h
  split_ifs at h
  cases h
  generalize hinit : System.mk _ _ xid _ = init
  obtain ⟨offered, hview⟩ := view_discover (dhcpClearAssignment init) pbuf
  have hflag : ∀ f : BitVec 8, (f ||| netifFlagDhcp) &&& netifFlagUp = f &&& netifFlagUp := by
    decide
  rw [view_clearAssignment] at hview
  refine ⟨congrArg View.state hview, ?_, ?_⟩
  · have hup := congrArg View.up hview
    simpa only [System.view, netifIsUp, hflag] using hup
  · refine (congrArg View.hist hview).trans ?_
    rw [← hinit]
    rfl

theorem start_inv {netif : Netif} {xid : BitVec 32} {attached malloc pcb pbuf : Bool}
    (h : dhcpStart netif xid attached malloc pcb pbuf = .ok s) :
    Grounded s.view ∧ LeaseInv s.view := by
  obtain ⟨hstate, hup, hhist⟩ := start_view h
  refine ⟨⟨fun _ => hup, ?_, ?_⟩, ⟨?_, ?_⟩⟩
  · simp [hstate]
  · simp [hhist]
  · simp [hup]
  · simp [hstate, State.hasLease]

/-- An ACK that the client takes for its own, without any option but its type. -/
def ackTo (s : System) : DhcpMsg where
  len := dhcpMinReplyLen
  op := dhcpBootreply
  xid := s.dhcp.xid
  chaddr := s.netif.hwaddr
  yiaddr := ipAddrAny
  options := some ⟨some 5, none, none, none, none, none, none⟩

theorem ackTo_binds (h : s.dhcp.state = .rebooting ∨ s.dhcp.state = .rebinding ∨
    s.dhcp.state = .renewing) (pbuf : Bool) : dhcpRecv s (ackTo s) pbuf = dhcpBind s := by
  have haccepts : accepts s (ackTo s) = true := by simp [accepts, ackTo]
  have hstate : s.dhcp.state ≠ .requesting := by
    rcases h with h | h | h <;> simp [h]
  unfold dhcpRecv
  rw [if_pos haccepts]
  simp [ackTo, DhcpMsg.type, dhcpAck, h, hstate]

/-- A stale timer leaves REQUESTING for a state in which an ACK binds at once. -/
theorem coarse_stale {pbuf : Bool} (h : ¬ NoStaleTimer s (.coarseTmr pbuf) t) :
    s.dhcp.state = .requesting ∧ ∃ newState, (newState = .rebinding ∨ newState = .renewing) ∧
      (dhcpCoarseTmr s pbuf).view = { s.view with state := newState } := by
  have hstate : s.dhcp.state = .requesting := by
    by_contra hstate
    exact h fun hreq => absurd hreq hstate
  refine ⟨hstate, ?_⟩
  simp only [NoStaleTimer, hstate, forall_const, not_and_or, not_not] at h
  unfold dhcpCoarseTmr
  simp only []
  split
  · refine ⟨.rebinding, .inl rfl, ?_⟩
    rw [dhcpT2Timeout, if_pos (.inl hstate), view_rebind]
    rfl
  · next ht2 =>
    have ht1 := h.resolve_left ht2
    refine ⟨.renewing, .inr rfl, ?_⟩
    rw [if_pos ht1, dhcpT1Timeout, if_pos (.inl hstate), view_renew]
    rfl

/-- One ACK after the timer binds the interface to an offer. -/
theorem stale_binds_offer (hg : Grounded s.view) (hstep : step s e = some t)
    (hstale : ¬ NoStaleTimer s e t) :
    ∃ u, step t (.recv (ackTo t) true) = some u ∧ netifIsUp u.netif = true ∧
      u.hist.boundFrom.1 = .offer := by
  cases e with
  | coarseTmr pbuf =>
    cases hstep
    obtain ⟨hstate, newState, hnew, hview⟩ := coarse_stale hstale
    generalize dhcpCoarseTmr s pbuf = t at hview
    have hreply : t.dhcp.state = .rebooting ∨ t.dhcp.state = .rebinding ∨
        t.dhcp.state = .renewing := by
      rw [show t.dhcp.state = newState from congrArg View.state hview]
      exact .inr hnew
    have hu : step t (.recv (ackTo t) true) = some (dhcpBind (t.receive (ackTo t))) :=
      congrArg some (ackTo_binds (s := t.receive (ackTo t)) hreply true)
    have hbind := view_bind (t.receive (ackTo t))
    refine ⟨_, hu, congrArg View.up hbind, ?_⟩
    calc (dhcpBind (t.receive (ackTo t))).hist.boundFrom.1
      _ = t.hist.offeredIpFrom := congrArg (fun v => v.hist.boundFrom.1) hbind
      _ = s.hist.offeredIpFrom := congrArg (fun v => v.hist.offeredIpFrom) hview
      _ = .offer := hg.offer hstate
  | recv m pbuf | fineTmr relPbuf pbuf | linkUp pbuf | linkDown | arpReply addr pbuf | others xid =>
    exact absurd trivial hstale

theorem not_hygienic_of_offer (hup : netifIsUp s.netif = true)
    (hoffer : s.hist.boundFrom.1 = .offer) : ¬ Hygienic s := by
  intro h
  obtain ⟨n, m, o, -, -, hsrc, -⟩ := h.leased hup
  simp [hsrc] at hoffer

end Runs

/-- From `dhcp_start` on, the interface of a client without a lease is down. It has the addresses
of one ACK as long as no timer of an earlier lease runs out in REQUESTING; and after any that
does, the next ACK may bind it to an offer. -/
theorem hygienic_without_stale_timer {netif : Netif} {xid : BitVec 32}
    {attached malloc pcb pbuf : Bool} {s : System}
    (hstart : dhcpStart netif xid attached malloc pcb pbuf = .ok s) :
    (∀ es t, run step s es = some t → t.dhcp.state.unleased = true →
      netifIsUp t.netif = false) ∧
    (∀ es t, EveryStep step NoStaleTimer s es → run step s es = some t → Hygienic t) ∧
    (∀ es t e u, run step s es = some t → step t e = some u → ¬ NoStaleTimer t e u →
      ∃ m v, m.type = some dhcpAck ∧ step u (.recv m true) = some v ∧ ¬ Hygienic v) := by
  obtain ⟨hg, hl⟩ := start_inv hstart
  refine ⟨fun es t hrun => (grounded_always hg hrun).down, fun es t hok hrun => ?_,
    fun es t e u hrun hstep hstale => ?_⟩
  · have hinv : Grounded t.view ∧ LeaseInv t.view :=
      run_invariant_under (I := fun s => Grounded s.view ∧ LeaseInv s.view)
        (fun _ _ _ hs hstep hok => ⟨hs.1.step hstep, hs.2.step hs.1 hstep hok⟩) ⟨hg, hl⟩ hok hrun
    exact hygienic_of_inv hinv.1 hinv.2
  · obtain ⟨v, hv, hup, hoffer⟩ := stale_binds_offer (grounded_always hg hrun) hstep hstale
    exact ⟨ackTo u, v, rfl, hv, not_hygienic_of_offer hup hoffer⟩

/-! ## A lease that is refused -/

def benchNetif : Netif := ⟨0, 0, 0, 0x0007ed123456, 1500, netifFlagEtharp ||| netifFlagLinkUp⟩

def benchStart : Except Err System := dhcpStart benchNetif 0xabcd0000 false true true true

/-- A reply of the server 192.168.1.1, whose leases are to be renewed after a minute. -/
def benchReply (xid msgType : BitVec 32) (yiaddr : IpAddr) (mask : BitVec 32) : DhcpMsg where
  len := 300
  op := dhcpBootreply
  xid := xid
  chaddr := benchNetif.hwaddr
  yiaddr := yiaddr
  options := some ⟨some msgType, some 0xc0a80101, some 7200, some 60, some 6000, some mask,
    some 0xc0a80101⟩

/-- 192.168.1.10 is offered, acknowledged and bound. -/
def benchLease : List Event :=
  [.recv (benchReply 0xabcd0001 2 (htonl 0xc0a8010a) 0xffff0000) true,
    .recv (benchReply 0xabcd0002 5 (htonl 0xc0a8010a) 0xffff0000) true,
    .fineTmr true true, .fineTmr true true]

/-- The link goes down and up again, and the server refuses the address and offers another one, in
a smaller network. The minute is over before the ACK for it comes. -/
def benchRefused : List Event :=
  benchLease ++ [.linkDown, .linkUp true,
    .recv (benchReply 0xabcd0003 6 ipAddrAny 0) true,
    .recv (benchReply 0xabcd0004 2 (htonl 0xc0a80114) 0xffffff00) true,
    .coarseTmr true,
    .recv (benchReply 0xabcd0006 5 (htonl 0xc0a80114) 0xffffff00) true]

def benchRun (es : List Event) : Option System :=
  benchStart.toOption.bind fun s => run step s es

theorem benchRun_some {es : List Event} {t : System} (h : benchRun es = some t) :
    ∃ s, benchStart = .ok s ∧ run step s es = some t := by
  unfold benchRun at h
  cases hstart : benchStart with
  | error err =>
    rw [hstart] at h
    cases h
  | ok s =>
    rw [hstart] at h
    exact ⟨s, rfl, h⟩

theorem hygienic_without_stale_timer_lease :
    ∃ s t, benchStart = .ok s ∧ EveryStep step NoStaleTimer s benchLease ∧
      run step s benchLease = some t ∧ netifIsUp t.netif = true ∧ Hygienic t := by
  have hrun : (benchRun benchLease).map (fun t => netifIsUp t.netif) = some true := by
    decide +kernel
  have hall : ∀ s ∈ benchStart.toOption, EveryStep step NoStaleTimer s benchLease := by
    decide +kernel
  obtain ⟨t, ht, hup⟩ := Option.map_eq_some_iff.mp hrun
  obtain ⟨s, hstart, hs⟩ := benchRun_some ht
  have hok := hall s (by rw [hstart]; rfl)
  exact ⟨s, t, hstart, hok, hs, hup,
    (hygienic_without_stale_timer hstart).2.1 benchLease t hok hs⟩

/-- The address is from the offer, and the rest from the lease that was refused. -/
theorem refused_lease_is_used :
    ¬ ∀ (netif : Netif) (xid : BitVec 32) (attached malloc pcb pbuf : Bool) (s : System),
      dhcpStart netif xid attached malloc pcb pbuf = .ok s →
        ∀ es t, run step s es = some t → Hygienic t := by
  intro h
  have hrun : (benchRun benchRefused).map (fun t => (netifIsUp t.netif, t.hist.boundFrom)) =
      some (true, .offer, .ack 1) := by decide +kernel
  obtain ⟨t, ht, hprops⟩ := Option.map_eq_some_iff.mp hrun
  obtain ⟨s, hstart, hs⟩ := benchRun_some ht
  rw [Prod.mk.injEq] at hprops
  exact not_hygienic_of_offer hprops.1 (by rw [hprops.2]) (h _ _ _ _ _ _ s hstart _ t hs)

end FreeLwip.Ip.DhcpClient
