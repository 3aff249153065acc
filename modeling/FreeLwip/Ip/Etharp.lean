import Mathlib.Logic.Function.Basic
import FreeLwip.Err
import FreeLwip.Ip.Route

/-!
# The ARP table and the way out of the stack (`etharp.c`)

Every allocation and every header space check takes its outcome from `mem`, so a result
for all states is a result for every way the memory can run out.
-/

namespace FreeLwip.Ip

/-! ## Packets and frames -/

/-- An IP packet: the header fields that the sender sets, and the data after the header. -/
structure Packet where
  src : IpAddr
  dest : IpAddr
  ttl : BitVec 8
  tos : BitVec 8
  proto : BitVec 8
  id : BitVec 16
  offset : BitVec 16
  data : List (BitVec 8)
  deriving DecidableEq, Repr

def arpRequest : BitVec 16 := 1
def arpReply : BitVec 16 := 2

structure EtharpHdr where
  opcode : BitVec 16
  shwaddr : EthAddr
  sipaddr : IpAddr
  dhwaddr : EthAddr
  dipaddr : IpAddr
  deriving DecidableEq, Repr

inductive Frame
  | ip (dest src : EthAddr) (p : Packet)
  | arp (dest src : EthAddr) (hdr : EtharpHdr)
  deriving DecidableEq, Repr

def Frame.packet : Frame → Option Packet
  | .ip _ _ p => some p
  | .arp _ _ _ => none

def ethbroadcast : EthAddr := 0xffffffffffff
def ethzero : EthAddr := 0

/-! ## The state -/

inductive EtharpState
  | empty | pending | stable | stableRerequesting
  deriving DecidableEq, Repr

def EtharpState.isStable : EtharpState → Bool
  | .stable | .stableRerequesting => true
  | .empty | .pending => false

structure EtharpEntry where
  q : List Packet
  ipaddr : IpAddr
  netif : Option NetifId
  ethaddr : EthAddr
  state : EtharpState
  ctime : Nat
  deriving DecidableEq, Repr

def arpTableSize : Nat := 25
def arpMaxage : Nat := 240
def arpAgeRerequestUsed : Nat := arpMaxage - 12
def arpMaxpending : Nat := 2

abbrev ArpIndex := Fin arpTableSize

/-- A frame that an interface's `linkoutput` got. -/
structure Sent where
  netif : NetifId
  frame : Frame
  deriving DecidableEq, Repr

structure Stack where
  ifs : Interfaces
  arpTable : ArpIndex → EtharpEntry
  ipId : BitVec 16
  /-- The `addr_hint` of each pcb. -/
  hints : Nat → Nat
  /-- Each interface's `addr_hint`: the pcb whose hint is in use. -/
  addrHint : NetifId → Option Nat
  /-- The outcomes of the requests to come; after them there is no memory. -/
  mem : List Bool
  sent : List Sent

namespace Stack

def request (s : Stack) : Bool × Stack :=
  match s.mem with
  | [] => (false, s)
  | b :: mem => (b, { s with mem := mem })

def setEntry (s : Stack) (i : ArpIndex) (e : EtharpEntry) : Stack :=
  { s with arpTable := Function.update s.arpTable i e }

/-- `netif->linkoutput` is `tse_mac_raw_send`, which returns ERR_OK whatever happens. -/
def linkoutput (s : Stack) (netif : NetifId) (frame : Frame) : Err × Stack :=
  (.ok, { s with sent := s.sent ++ [⟨netif, frame⟩] })

def netifSetHwaddrhint (s : Stack) (netif : NetifId) (hint : Option Nat) : Stack :=
  { s with addrHint := Function.update s.addrHint netif hint }

def etharpSetHint (s : Stack) (netif : NetifId) (i : ArpIndex) : Stack :=
  match s.addrHint netif with
  | some pcb => { s with hints := Function.update s.hints pcb i }
  | none => s

/-! ## The table -/

def etharpFreeEntry (s : Stack) (i : ArpIndex) : Stack :=
  s.setEntry i { s.arpTable i with q := [], state := .empty }

/-- What the sweep of `etharp_find_entry` remembers. -/
structure Candidates where
  oldPending : Option ArpIndex
  oldStable : Option ArpIndex
  empty : Option ArpIndex
  oldQueue : Option ArpIndex
  agePending : Nat
  ageStable : Nat
  ageQueue : Nat

/-- The sweep: it ends at an entry that has the address, or with the candidates. -/
def sweep (s : Stack) (ipaddr : IpAddr) : List ArpIndex → Candidates → ArpIndex ⊕ Candidates
  | [], c => .inr c
  | i :: rest, c =>
    let e := s.arpTable i
    if c.empty = none ∧ e.state = .empty then
      sweep s ipaddr rest { c with empty := some i }
    else if e.state ≠ .empty then
      if ipAddrCmp ipaddr e.ipaddr then
        .inl i
      else if e.state = .pending then
        if e.q ≠ [] then
          if e.ctime ≥ c.ageQueue then
            sweep s ipaddr rest { c with oldQueue := some i, ageQueue := e.ctime }
          else
            sweep s ipaddr rest c
        else if e.ctime ≥ c.agePending then
          sweep s ipaddr rest { c with oldPending := some i, agePending := e.ctime }
        else
          sweep s ipaddr rest c
      else if e.ctime ≥ c.ageStable then
        sweep s ipaddr rest { c with oldStable := some i, ageStable := e.ctime }
      else
        sweep s ipaddr rest c
    else
      sweep s ipaddr rest c

def etharpFlagTryHard : BitVec 8 := 1
def etharpFlagFindOnly : BitVec 8 := 2

/-- The new entry at `i`, with the address set and still in state EMPTY. -/
def newEntry (s : Stack) (ipaddr : IpAddr) (i : ArpIndex) : Stack :=
  s.setEntry i { s.arpTable i with ipaddr := ipaddr, ctime := 0 }

/-- No index stands for ERR_MEM. -/
def etharpFindEntry (s : Stack) (ipaddr : IpAddr) (flags : BitVec 8) : Option ArpIndex × Stack :=
  match s.sweep ipaddr (List.finRange arpTableSize) ⟨none, none, none, none, 0, 0, 0⟩ with
  | .inl i => (some i, s)
  | .inr c =>
    if flags &&& etharpFlagFindOnly ≠ 0 ∨ (c.empty = none ∧ flags &&& etharpFlagTryHard = 0) then
      (none, s)
    else
      match c.empty with
      | some i => (some i, s.newEntry ipaddr i)
      | none =>
        match c.oldStable.or (c.oldPending.or c.oldQueue) with
        | some i => (some i, (s.etharpFreeEntry i).newEntry ipaddr i)
        | none => (none, s)

/-! ## Sending -/

def etharpSendIp (s : Stack) (netif : NetifId) (p : Packet) (src dst : EthAddr) : Err × Stack :=
  s.linkoutput netif (.ip dst src p)

def etharpRaw (s : Stack) (netif : NetifId) (ethsrc ethdst : EthAddr) (hdr : EtharpHdr) :
    Err × Stack :=
  match s.request with
  | (false, s) => (.mem, s)
  | (true, s) => s.linkoutput netif (.arp ethdst ethsrc hdr)

def etharpRequest (s : Stack) (netif : NetifId) (ipaddr : IpAddr) : Err × Stack :=
  let hwaddr := (s.ifs.netif netif).hwaddr
  s.etharpRaw netif hwaddr ethbroadcast
    { opcode := arpRequest, shwaddr := hwaddr, sipaddr := (s.ifs.netif netif).ipAddr,
      dhwaddr := ethzero, dipaddr := ipaddr }

def etharpOutputToArpIndex (s : Stack) (netif : NetifId) (q : Packet) (i : ArpIndex) :
    Err × Stack :=
  let e := s.arpTable i
  let s :=
    if e.state = .stable ∧ e.ctime ≥ arpAgeRerequestUsed then
      match s.etharpRequest netif e.ipaddr with
      | (.ok, s) => s.setEntry i { s.arpTable i with state := .stableRerequesting }
      | (_, s) => s
    else
      s
  s.etharpSendIp netif q (s.ifs.netif netif).hwaddr (s.arpTable i).ethaddr

/-- The last part of `etharp_query`: the packet joins the queue of the pending entry `i`. The
first request is for the copy of the packet, the second for the queue entry. -/
def queuePacket (s : Stack) (i : ArpIndex) (q : Packet) : Err × Stack :=
  match s.request with
  | (false, s) => (.mem, s)
  | (true, s) =>
    match s.request with
    | (false, s) => (.mem, s)
    | (true, s) => (.ok, s.setEntry i { s.arpTable i with q := (s.arpTable i).q ++ [q] })

def etharpQuery (s : Stack) (netif : NetifId) (ipaddr : IpAddr) (q : Option Packet) :
    Err × Stack :=
  if ipAddrIsbroadcast ipaddr (s.ifs.netif netif) || ipAddrIsmulticast ipaddr ||
      ipAddrIsany ipaddr then
    (.arg, s)
  else
    match s.etharpFindEntry ipaddr etharpFlagTryHard with
    | (none, s) => (.mem, s)
    | (some i, s) =>
      let s :=
        if (s.arpTable i).state = .empty then
          s.setEntry i { s.arpTable i with state := .pending }
        else
          s
      let (result, s) :=
        if (s.arpTable i).state = .pending ∨ q = none then s.etharpRequest netif ipaddr
        else (.mem, s)
      match q with
      | none => (result, s)
      | some q =>
        if (s.arpTable i).state.isStable then
          let s := s.etharpSetHint netif i
          s.etharpSendIp netif q (s.ifs.netif netif).hwaddr (s.arpTable i).ethaddr
        else if (s.arpTable i).state = .pending then
          s.queuePacket i q
        else
          (result, s)

def llMulticastAddr (ipaddr : IpAddr) : EthAddr :=
  0x01005e000000 ||| ((ppHtonl ipaddr &&& 0x007fffff).setWidth 48)

/-- The pcb's cached index, if it is a stable entry of the address. -/
def hinted (s : Stack) (netif : NetifId) (dstAddr : IpAddr) : Option ArpIndex :=
  match s.addrHint netif with
  | none => none
  | some pcb =>
    if h : s.hints pcb < arpTableSize then
      let i : ArpIndex := ⟨s.hints pcb, h⟩
      if (s.arpTable i).state.isStable && ipAddrCmp dstAddr (s.arpTable i).ipaddr then some i
      else none
    else
      none

/-- The unicast part of `etharp_output`, for the next hop. -/
def outputUnicast (s : Stack) (netif : NetifId) (q : Packet) (dstAddr : IpAddr) : Err × Stack :=
  match s.hinted netif dstAddr with
  | some i => s.etharpOutputToArpIndex netif q i
  | none =>
    let stable := (List.finRange arpTableSize).find? fun i =>
      (s.arpTable i).state.isStable && ipAddrCmp dstAddr (s.arpTable i).ipaddr
    match stable with
    | some i => (s.etharpSetHint netif i).etharpOutputToArpIndex netif q i
    | none => s.etharpQuery netif dstAddr (some q)

def etharpOutput (s : Stack) (netif : NetifId) (q : Packet) (ipaddr : IpAddr) : Err × Stack :=
  match s.request with
  | (false, s) => (.buf, s)
  | (true, s) =>
    let nif := s.ifs.netif netif
    if ipAddrIsbroadcast ipaddr nif then
      s.etharpSendIp netif q nif.hwaddr ethbroadcast
    else if ipAddrIsmulticast ipaddr then
      s.etharpSendIp netif q nif.hwaddr (llMulticastAddr ipaddr)
    else if !ipAddrNetcmp ipaddr nif.ipAddr nif.netmask && !ipAddrIslinklocal ipaddr then
      if !ipAddrIsany nif.gw then s.outputUnicast netif q nif.gw else (.rte, s)
    else
      s.outputUnicast netif q ipaddr

/-! ## What arrives -/

/-- The loop of `etharp_update_arp_entry` that sends the queued packets. -/
def sendQueue (s : Stack) (i : ArpIndex) (netif : NetifId) (ethaddr : EthAddr) :
    List Packet → Stack
  | [] => s
  | p :: rest =>
    let s := s.setEntry i { s.arpTable i with q := rest }
    sendQueue (s.etharpSendIp netif p (s.ifs.netif netif).hwaddr ethaddr).2 i netif ethaddr rest

def etharpUpdateArpEntry (s : Stack) (netif : NetifId) (ipaddr : IpAddr) (ethaddr : EthAddr)
    (flags : BitVec 8) : Err × Stack :=
  if ipAddrIsany ipaddr || ipAddrIsbroadcast ipaddr (s.ifs.netif netif) ||
      ipAddrIsmulticast ipaddr then
    (.arg, s)
  else
    match s.etharpFindEntry ipaddr flags with
    | (none, s) => (.mem, s)
    | (some i, s) =>
      let s := s.setEntry i { s.arpTable i with
        state := .stable, netif := some netif, ethaddr := ethaddr, ctime := 0 }
      (.ok, s.sendQueue i netif ethaddr (s.arpTable i).q)

/-- A trusted IP packet: its sender is entered if it is on the local network. -/
def etharpIpInput (s : Stack) (netif : NetifId) (iphdrSrc : IpAddr) (ethhdrSrc : EthAddr) : Stack :=
  let nif := s.ifs.netif netif
  if ipAddrNetcmp iphdrSrc nif.ipAddr nif.netmask then
    (s.etharpUpdateArpEntry netif iphdrSrc ethhdrSrc etharpFlagFindOnly).2
  else
    s

/-- An ARP packet with a well-formed header. -/
def etharpArpInput (s : Stack) (netif : NetifId) (hdr : EtharpHdr) : Stack :=
  let nif := s.ifs.netif netif
  let forUs := !ipAddrIsany nif.ipAddr && ipAddrCmp hdr.dipaddr nif.ipAddr
  let s := (s.etharpUpdateArpEntry netif hdr.sipaddr hdr.shwaddr
    (if forUs then etharpFlagTryHard else etharpFlagFindOnly)).2
  if hdr.opcode = arpRequest ∧ forUs then
    (s.linkoutput netif (.arp hdr.shwaddr nif.hwaddr
      { opcode := arpReply, shwaddr := nif.hwaddr, sipaddr := nif.ipAddr,
        dhwaddr := hdr.shwaddr, dipaddr := hdr.sipaddr })).2
  else
    s

/-! ## Ageing -/

def ageEntry (s : Stack) (i : ArpIndex) : Stack :=
  let e := s.arpTable i
  if e.state ≠ .empty then
    let s := s.setEntry i { e with ctime := e.ctime + 1 }
    if e.ctime + 1 ≥ arpMaxage ∨ (e.state = .pending ∧ e.ctime + 1 ≥ arpMaxpending) then
      s.etharpFreeEntry i
    else if e.state = .stableRerequesting then
      s.setEntry i { s.arpTable i with state := .stable }
    else
      s
  else
    s

def etharpTmr (s : Stack) : Stack :=
  (List.finRange arpTableSize).foldl ageEntry s

def etharpCleanupNetif (s : Stack) (netif : NetifId) : Stack :=
  (List.finRange arpTableSize).foldl (fun s i =>
    if (s.arpTable i).state ≠ .empty ∧ (s.arpTable i).netif = some netif then s.etharpFreeEntry i
    else s) s

end Stack

/-! ## What each function may do -/

/-- An EMPTY entry has no queue. -/
def TableOk (s : Stack) : Prop :=
  ∀ i, (s.arpTable i).state = .empty → (s.arpTable i).q = []

/-- From `s` to `s'` only frames with `Q` were handed to an interface and only packets with
`P` were parked. -/
structure Effect (Q : Sent → Prop) (P : Packet → Prop) (s s' : Stack) : Prop where
  ifs : s'.ifs = s.ifs
  sent : ∃ new, s'.sent = s.sent ++ new ∧ ∀ f ∈ new, Q f
  parked : ∀ i, ∀ p ∈ (s'.arpTable i).q, p ∈ (s.arpTable i).q ∨ P p
  tableOk : TableOk s → TableOk s'

/-- Frames for the interface `netif`; those with an IP packet have one with `P`. -/
def On (netif : NetifId) (P : Packet → Prop) (f : Sent) : Prop :=
  f.netif = netif ∧ ∀ p, f.frame.packet = some p → P p

abbrev Quiet : Stack → Stack → Prop :=
  Effect (fun _ => False) (fun _ => False)

namespace Effect

variable {Q : Sent → Prop} {P : Packet → Prop} {s t u : Stack}

theorem refl (s : Stack) : Effect Q P s s :=
  ⟨rfl, ⟨[], by simp, by simp⟩, fun _ _ h => .inl h, id⟩

theorem trans (h : Effect Q P s t) (h' : Effect Q P t u) : Effect Q P s u := by
  obtain ⟨new, hnew, hQ⟩ := h.sent
  obtain ⟨new', hnew', hQ'⟩ := h'.sent
  refine ⟨h'.ifs.trans h.ifs, ⟨new ++ new', ?_, ?_⟩, fun i p hp => ?_, h'.tableOk ∘ h.tableOk⟩
  · rw [hnew', hnew, List.append_assoc]
  · intro f hf
    rcases List.mem_append.mp hf with hf | hf
    · exact hQ f hf
    · exact hQ' f hf
  · rcases h'.parked i p hp with hp | hp
    · exact h.parked i p hp
    · exact .inr hp

theorem mono {Q' : Sent → Prop} {P' : Packet → Prop} (h : Effect Q P s t)
    (hQ : ∀ f, Q f → Q' f) (hP : ∀ p, P p → P' p) : Effect Q' P' s t := by
  obtain ⟨new, hnew, hall⟩ := h.sent
  refine ⟨h.ifs, ⟨new, hnew, fun f hf => hQ f (hall f hf)⟩, fun i p hp => ?_, h.tableOk⟩
  exact (h.parked i p hp).imp_right (hP p)

theorem ofQuiet (h : Quiet s t) : Effect Q P s t :=
  h.mono (fun _ => False.elim) (fun _ => False.elim)

end Effect

namespace Stack

variable (s : Stack)

theorem request_quiet {b : Bool} {s' : Stack} (h : s.request = (b, s')) : Quiet s s' := by
  unfold request at h
  split at h
  · obtain ⟨-, rfl⟩ := Prod.mk.inj h
    exact .refl s
  · obtain ⟨-, rfl⟩ := Prod.mk.inj h
    exact ⟨rfl, ⟨[], by simp, by simp⟩, fun _ _ h => .inl h, id⟩

theorem request_arpTable {b : Bool} {s' : Stack} (h : s.request = (b, s')) :
    s'.arpTable = s.arpTable := by
  unfold request at h
  split at h
  · obtain ⟨-, rfl⟩ := Prod.mk.inj h
    rfl
  · obtain ⟨-, rfl⟩ := Prod.mk.inj h
    rfl

theorem setEntry_effect {Q : Sent → Prop} {P : Packet → Prop} (i : ArpIndex) (e : EtharpEntry)
    (hq : ∀ p ∈ e.q, p ∈ (s.arpTable i).q ∨ P p)
    (hok : TableOk s → e.state = .empty → e.q = []) : Effect Q P s (s.setEntry i e) := by
  refine ⟨rfl, ⟨[], by simp [setEntry], by simp⟩, fun j p hp => ?_, fun h j hj => ?_⟩
  · by_cases hji : j = i
    · subst hji
      simp only [setEntry, Function.update_self] at hp
      exact hq p hp
    · simp only [setEntry, Function.update_of_ne hji] at hp
      exact .inl hp
  · by_cases hji : j = i
    · subst hji
      simp only [setEntry, Function.update_self] at hj ⊢
      exact hok h hj
    · simp only [setEntry, Function.update_of_ne hji] at hj ⊢
      exact h j hj

theorem etharpSetHint_quiet (netif : NetifId) (i : ArpIndex) :
    Quiet s (s.etharpSetHint netif i) := by
  unfold etharpSetHint
  split
  · exact ⟨rfl, ⟨[], by simp, by simp⟩, fun _ _ h => .inl h, id⟩
  · exact .refl s

theorem linkoutput_effect {P P' : Packet → Prop} (netif : NetifId) (frame : Frame)
    (h : ∀ p, frame.packet = some p → P p) :
    Effect (On netif P) P' s (s.linkoutput netif frame).2 :=
  ⟨rfl, ⟨[⟨netif, frame⟩], rfl, by simpa [On] using h⟩, fun _ _ h => .inl h, id⟩

theorem etharpFreeEntry_quiet (i : ArpIndex) : Quiet s (s.etharpFreeEntry i) :=
  s.setEntry_effect i _ (by simp) fun _ _ => rfl

theorem newEntry_quiet (ipaddr : IpAddr) (i : ArpIndex) : Quiet s (s.newEntry ipaddr i) :=
  s.setEntry_effect i _ (fun _ h => .inl h) fun h => h i

/-! ## The table -/

theorem sweep_spec (ipaddr : IpAddr) (l : List ArpIndex) (c : Candidates)
    (hc : ∀ i, c.empty = some i → (s.arpTable i).state = .empty) :
    (∀ i, s.sweep ipaddr l c = .inl i → (s.arpTable i).ipaddr = ipaddr) ∧
    (∀ c', s.sweep ipaddr l c = .inr c' →
      ∀ i, c'.empty = some i → (s.arpTable i).state = .empty) := by
  induction l generalizing c with
  | nil =>
    refine ⟨by simp [sweep], fun c' h => ?_⟩
    obtain rfl := Sum.inr.inj h
    exact hc
  | cons j rest ih =>
    unfold sweep
    simp only
    split
    · next h =>
      refine ih _ fun i hi => ?_
      obtain rfl := Option.some.inj hi
      exact h.2
    · split
      · split
        · next hcmp =>
          refine ⟨fun i hi => ?_, by simp⟩
          obtain rfl := Sum.inl.inj hi
          rw [ipAddrCmp, beq_iff_eq] at hcmp
          exact hcmp.symm
        · split
          · split
            · split <;> exact ih _ hc
            · split <;> exact ih _ hc
          · split <;> exact ih _ hc
      · exact ih _ hc

theorem etharpFindEntry_spec {ipaddr : IpAddr} {flags : BitVec 8} {found : Option ArpIndex}
    {s' : Stack} (h : s.etharpFindEntry ipaddr flags = (found, s')) :
    Quiet s s' ∧ ∀ i, found = some i →
      (s' = s ∧ (s.arpTable i).ipaddr = ipaddr) ∨ (TableOk s → (s'.arpTable i).q = []) := by
  obtain ⟨hmatch, hempty⟩ := s.sweep_spec ipaddr (List.finRange arpTableSize)
    ⟨none, none, none, none, 0, 0, 0⟩ (by simp)
  unfold etharpFindEntry at h
  split at h
  · next j hj =>
    obtain ⟨rfl, rfl⟩ := Prod.mk.inj h
    exact ⟨.refl s, fun i hi => .inl ⟨rfl, Option.some.inj hi ▸ hmatch j hj⟩⟩
  · next c hc =>
    split at h
    · obtain ⟨rfl, rfl⟩ := Prod.mk.inj h
      exact ⟨.refl s, by simp⟩
    · split at h
      · next j hj =>
        obtain ⟨rfl, rfl⟩ := Prod.mk.inj h
        refine ⟨s.newEntry_quiet ipaddr j, fun i hi => .inr fun hok => ?_⟩
        obtain rfl := Option.some.inj hi
        simpa [newEntry, setEntry] using hok j (hempty c hc j hj)
      · split at h
        · next j _ =>
          obtain ⟨rfl, rfl⟩ := Prod.mk.inj h
          refine ⟨(s.etharpFreeEntry_quiet j).trans (newEntry_quiet _ ipaddr j),
            fun i hi => .inr fun _ => ?_⟩
          obtain rfl := Option.some.inj hi
          simp [newEntry, etharpFreeEntry, setEntry]
        · obtain ⟨rfl, rfl⟩ := Prod.mk.inj h
          exact ⟨.refl s, by simp⟩

/-! ## Sending -/

theorem etharpSendIp_effect (P' : Packet → Prop) (netif : NetifId) (p : Packet)
    (src dst : EthAddr) :
    Effect (On netif (· = p)) P' s (s.etharpSendIp netif p src dst).2 :=
  s.linkoutput_effect netif _ fun _ h => (Option.some.inj h).symm

theorem etharpRequest_effect (P P' : Packet → Prop) (netif : NetifId) (ipaddr : IpAddr) :
    Effect (On netif P) P' s (s.etharpRequest netif ipaddr).2 := by
  unfold etharpRequest etharpRaw
  simp only
  split
  · next s' h => exact .ofQuiet (s.request_quiet h)
  · next s' h =>
    exact (Effect.ofQuiet (s.request_quiet h)).trans
      (s'.linkoutput_effect netif _ (by simp [Frame.packet]))

theorem etharpOutputToArpIndex_effect {P' : Packet → Prop} (netif : NetifId) (q : Packet)
    (i : ArpIndex) :
    Effect (On netif (· = q)) P' s (s.etharpOutputToArpIndex netif q i).2 := by
  unfold etharpOutputToArpIndex
  simp only
  refine Effect.trans ?_ (etharpSendIp_effect _ _ netif q _ _)
  split
  · have hreq := s.etharpRequest_effect (· = q) P' netif (s.arpTable i).ipaddr
    split
    · next s' h =>
      rw [h] at hreq
      exact hreq.trans (s'.setEntry_effect i _ (fun _ hp => .inl hp) fun _ he => by cases he)
    · next h =>
      rw [h] at hreq
      exact hreq
  · exact .refl s

theorem queuePacket_effect {Q : Sent → Prop} (i : ArpIndex) (q : Packet)
    (hi : (s.arpTable i).state = .pending) : Effect Q (· = q) s (s.queuePacket i q).2 := by
  unfold queuePacket
  split
  · next s' h => exact .ofQuiet (s.request_quiet h)
  · next s' h =>
    split
    · next s'' h' => exact .ofQuiet ((s.request_quiet h).trans (s'.request_quiet h'))
    · next s'' h' =>
      refine (Effect.ofQuiet ((s.request_quiet h).trans (s'.request_quiet h'))).trans
        (s''.setEntry_effect i _ (fun p hp => by simpa using hp) fun _ he => ?_)
      have hstate : (s''.arpTable i).state = .pending := by
        rw [s'.request_arpTable h', s.request_arpTable h, hi]
      exact absurd (hstate.symm.trans he) (by decide)

theorem etharpQuery_effect (netif : NetifId) (ipaddr : IpAddr) (q : Packet) :
    Effect (On netif (· = q)) (· = q) s (s.etharpQuery netif ipaddr (some q)).2 := by
  unfold etharpQuery
  split
  · exact .refl s
  · split
    · next s' h => exact .ofQuiet (s.etharpFindEntry_spec h).1
    · next i s' h =>
      refine (Effect.ofQuiet (s.etharpFindEntry_spec h).1).trans ?_
      simp only
      -- A fresh entry becomes PENDING, with the queue it has.
      generalize hs₁ : (if (s'.arpTable i).state = .empty then
        s'.setEntry i { s'.arpTable i with state := .pending } else s') = s₁
      have h₁ : Effect (On netif (· = q)) (· = q) s' s₁ := by
        subst hs₁
        split
        · exact s'.setEntry_effect i _ (fun _ hp => .inl hp) fun _ he => by cases he
        · exact .refl s'
      refine h₁.trans ?_
      generalize hr : (if (s₁.arpTable i).state = .pending ∨ some q = none then
        s₁.etharpRequest netif ipaddr else (Err.mem, s₁)) = r
      have h₂ : Effect (On netif (· = q)) (· = q) s₁ r.2 := by
        subst hr
        split
        · exact s₁.etharpRequest_effect _ _ netif ipaddr
        · exact .refl s₁
      refine h₂.trans ?_
      split
      · exact (Effect.ofQuiet (r.2.etharpSetHint_quiet netif i)).trans
          (etharpSendIp_effect _ _ netif q _ _)
      · split
        · next hp => exact r.2.queuePacket_effect i q hp
        · exact .refl r.2

theorem outputUnicast_effect (netif : NetifId) (q : Packet) (dstAddr : IpAddr) :
    Effect (On netif (· = q)) (· = q) s (s.outputUnicast netif q dstAddr).2 := by
  unfold outputUnicast
  split
  · next i _ => exact s.etharpOutputToArpIndex_effect netif q i
  · simp only
    split
    · next i _ =>
      exact (Effect.ofQuiet (s.etharpSetHint_quiet netif i)).trans
        (etharpOutputToArpIndex_effect _ netif q i)
    · exact s.etharpQuery_effect netif dstAddr q

/-- A packet given to an interface is sent there or parked; nothing else moves. -/
theorem etharpOutput_effect (netif : NetifId) (q : Packet) (ipaddr : IpAddr) :
    Effect (On netif (· = q)) (· = q) s (s.etharpOutput netif q ipaddr).2 := by
  unfold etharpOutput
  split
  · next s' h => exact .ofQuiet (s.request_quiet h)
  · next s' h =>
    refine (Effect.ofQuiet (s.request_quiet h)).trans ?_
    simp only
    split
    · exact s'.etharpSendIp_effect _ netif q _ _
    · split
      · exact s'.etharpSendIp_effect _ netif q _ _
      · split
        · split
          · exact s'.outputUnicast_effect netif q _
          · exact .refl s'
        · exact s'.outputUnicast_effect netif q ipaddr

/-! ## What arrives -/

theorem sendQueue_effect {P' : Packet → Prop} (i : ArpIndex) (netif : NetifId)
    (ethaddr : EthAddr) (ps : List Packet) (hps : ∀ p ∈ ps, p ∈ (s.arpTable i).q)
    (hi : (s.arpTable i).state = .stable) :
    Effect (On netif (· ∈ ps)) P' s (s.sendQueue i netif ethaddr ps) := by
  induction ps generalizing s with
  | nil => exact .refl s
  | cons p rest ih =>
    unfold sendQueue
    simp only
    generalize hs₁ : s.setEntry i { s.arpTable i with q := rest } = s₁
    have h₁ : Effect (On netif (· ∈ p :: rest)) P' s s₁ := by
      subst hs₁
      refine s.setEntry_effect i _ (fun p' hp' => .inl (hps p' (by simp [hp']))) fun _ he => ?_
      exact absurd (hi.symm.trans he) (by decide)
    have h₂ := s₁.etharpSendIp_effect P' netif p (s₁.ifs.netif netif).hwaddr ethaddr
    refine (h₁.trans (h₂.mono (fun f hf => ?_) fun _ h => h)).trans
      ((ih _ ?_ ?_).mono ?_ fun _ h => h)
    · exact ⟨hf.1, fun p' hp' => by simp [hf.2 p' hp']⟩
    · subst hs₁
      simp [etharpSendIp, linkoutput, setEntry]
    · subst hs₁
      simp [etharpSendIp, linkoutput, setEntry, hi]
    · exact fun f hf => ⟨hf.1, fun p' hp' => by simp [hf.2 p' hp']⟩

/-- The packets parked for the next hop `ipaddr`. -/
def ParkedFor (ipaddr : IpAddr) (p : Packet) : Prop :=
  ∃ i, (s.arpTable i).ipaddr = ipaddr ∧ p ∈ (s.arpTable i).q

/-- An update sends packets that were parked for the address, all on the interface that the
update came from, and parks none. -/
theorem etharpUpdateArpEntry_effect (hok : TableOk s) (netif : NetifId) (ipaddr : IpAddr)
    (ethaddr : EthAddr) (flags : BitVec 8) :
    Effect (On netif (s.ParkedFor ipaddr)) (fun _ => False) s
      (s.etharpUpdateArpEntry netif ipaddr ethaddr flags).2 := by
  unfold etharpUpdateArpEntry
  split
  · exact .refl s
  · split
    · next s' h => exact .ofQuiet (s.etharpFindEntry_spec h).1
    · next i s' h =>
      obtain ⟨hfind, hentry⟩ := s.etharpFindEntry_spec h
      refine (Effect.ofQuiet hfind).trans ?_
      simp only
      generalize hs₁ : s'.setEntry i { s'.arpTable i with
        state := .stable, netif := some netif, ethaddr := ethaddr, ctime := 0 } = s₁
      have hq : (s₁.arpTable i).q = (s'.arpTable i).q := by subst hs₁; simp [setEntry]
      have h₁ : Effect (On netif (s.ParkedFor ipaddr)) (fun _ => False) s' s₁ := by
        subst hs₁
        exact s'.setEntry_effect i _ (fun _ hp => .inl hp) fun _ he => by cases he
      refine h₁.trans ((s₁.sendQueue_effect i netif ethaddr _ (fun _ hp => hp) ?_).mono ?_
        fun _ h => h)
      · subst hs₁
        simp [setEntry]
      · intro f hf
        refine ⟨hf.1, fun p hp => ?_⟩
        have hmem := hf.2 p hp
        rw [hq] at hmem
        rcases hentry i rfl with ⟨rfl, hip⟩ | hfresh
        · exact ⟨i, hip, hmem⟩
        · rw [hfresh hok] at hmem
          cases hmem

theorem etharpIpInput_effect (hok : TableOk s) (netif : NetifId) (iphdrSrc : IpAddr)
    (ethhdrSrc : EthAddr) :
    Effect (On netif (s.ParkedFor iphdrSrc)) (fun _ => False) s
      (s.etharpIpInput netif iphdrSrc ethhdrSrc) := by
  unfold etharpIpInput
  simp only
  split
  · exact s.etharpUpdateArpEntry_effect hok netif iphdrSrc ethhdrSrc _
  · exact .refl s

theorem etharpArpInput_effect (hok : TableOk s) (netif : NetifId) (hdr : EtharpHdr) :
    Effect (On netif (s.ParkedFor hdr.sipaddr)) (fun _ => False) s
      (s.etharpArpInput netif hdr) := by
  unfold etharpArpInput
  simp only
  have hupd := s.etharpUpdateArpEntry_effect hok netif hdr.sipaddr hdr.shwaddr
  split
  · exact (hupd _).trans (linkoutput_effect _ netif _ (by simp [Frame.packet]))
  · exact hupd _

/-! ## Ageing -/

theorem ageEntry_quiet (i : ArpIndex) : Quiet s (s.ageEntry i) := by
  unfold ageEntry
  simp only
  split
  · next hne =>
    have h₁ : Quiet s (s.setEntry i { s.arpTable i with ctime := (s.arpTable i).ctime + 1 }) :=
      s.setEntry_effect i _ (fun _ hp => .inl hp) fun _ he => absurd he hne
    split
    · exact h₁.trans (etharpFreeEntry_quiet _ i)
    · split
      · exact h₁.trans (setEntry_effect _ i _ (fun _ hp => .inl hp) fun _ he => by cases he)
      · exact h₁
  · exact .refl s

theorem foldl_quiet (f : Stack → ArpIndex → Stack) (hf : ∀ s i, Quiet s (f s i))
    (l : List ArpIndex) : Quiet s (l.foldl f s) := by
  induction l generalizing s with
  | nil => exact .refl s
  | cons i rest ih => exact (hf s i).trans (ih (f s i))

theorem etharpTmr_quiet : Quiet s s.etharpTmr :=
  s.foldl_quiet ageEntry ageEntry_quiet _

theorem etharpCleanupNetif_quiet (netif : NetifId) : Quiet s (s.etharpCleanupNetif netif) := by
  refine s.foldl_quiet _ (fun t i => ?_) _
  split
  · exact t.etharpFreeEntry_quiet i
  · exact .refl t

end Stack

end FreeLwip.Ip
