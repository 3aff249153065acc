import FreeLwip.Ip.Source

/-!
# The interface that owns the source address

A packet leaves on an interface with its source address as long as the route of its send
has that address, and the next hop of a parked packet is heard on the interface that has it.
-/

namespace FreeLwip.Ip

open Run

/-- An IP packet with a source is on an interface that has this address. -/
def Owned (ifs : Interfaces) (f : Sent) : Prop :=
  ∀ p, f.frame.packet = some p → p.src ≠ ipAddrAny → (ifs.netif f.netif).ipAddr = p.src

/-- The packets of the step leave on the interfaces that own their sources. -/
def LeavesOnOwner (s : System) (_ : Action) (s' : System) : Prop :=
  ∀ f ∈ s'.stack.sent.drop s.stack.sent.length, Owned s'.stack.ifs f

/-- A send with a source moves packets only of an interface that has the source address, or
else it returns an error and moves none. -/
def SendsOnOwner (udpChksum : IpAddr → IpAddr → List (BitVec 8) → BitVec 16) (s : System) :
    Action → System → Prop
  | .ipOutput data src dest ttl tos proto, s' => src ≠ ipAddrAny →
    SendsFromOwner src dest s.stack (s.stack.ipOutput data src dest ttl tos proto).1 s'.stack
  | .ipOutputHinted data src dest ttl tos proto addrHint, s' => src ≠ ipAddrAny →
    SendsFromOwner src dest s.stack
      (s.stack.ipOutputHinted data src dest ttl tos proto addrHint).1 s'.stack
  | .rawSendto pcb data ipaddr, s' => pcb.localIp ≠ ipAddrAny →
    SendsFromOwner pcb.localIp ipaddr s.stack (s.stack.rawSendto pcb data ipaddr).1 s'.stack
  | .udpSendto pcb data dstIp dstPort, s' => (s.udp.udpPcb pcb).localIp ≠ ipAddrAny →
    SendsFromOwner (s.udp.udpPcb pcb).localIp dstIp s.stack
      (Ip.udpSendto udpChksum s.stack s.udp pcb data dstIp dstPort).1 s'.stack
  | _, _ => True

/-! ## When they do -/

/-- The source has an interface of its own for the destination, or the default interface is the
source's own, or there is no default interface that is up. -/
def RoutesToOwner (ifs : Interfaces) (src dest : IpAddr) : Prop :=
  src ≠ ipAddrAny → (∃ n ∈ ifs.netifList, Owns ifs src dest n) ∨
    ∀ n, ifs.defaultRoute = some n → (ifs.netif n).ipAddr = src

/-- IP and RAW do not check the source after the route; UDP does. -/
def RoutedToOwner (s : System) : Action → Prop
  | .ipOutput _ src dest _ _ _ => RoutesToOwner s.stack.ifs src dest
  | .ipOutputHinted _ src dest _ _ _ _ => RoutesToOwner s.stack.ifs src dest
  | .rawSendto pcb _ ipaddr => RoutesToOwner s.stack.ifs pcb.localIp ipaddr
  | _ => True

namespace Stack

/-- The packets that wait for the address: those of the first entry that has it. -/
def parkedAt (s : Stack) (ipaddr : IpAddr) : List Packet :=
  match (List.finRange arpTableSize).find? fun i =>
    (s.arpTable i).state != .empty && ipAddrCmp ipaddr (s.arpTable i).ipaddr with
  | some i => (s.arpTable i).q
  | none => []

/-- An address that `etharp_update_arp_entry` refuses. -/
def refused (s : Stack) (netif : NetifId) (ipaddr : IpAddr) : Bool :=
  ipAddrIsany ipaddr || ipAddrIsbroadcast ipaddr (s.ifs.netif netif) || ipAddrIsmulticast ipaddr

/-- The interface has the source addresses of the packets that wait for the address. -/
def OwnsParked (s : Stack) (netif : NetifId) (ipaddr : IpAddr) : Prop :=
  s.refused netif ipaddr = false → ∀ p ∈ s.parkedAt ipaddr, p.src ≠ ipAddrAny →
    (s.ifs.netif netif).ipAddr = p.src

end Stack

/-- A next hop is heard on the interface that owns the sources of the packets parked for it. -/
def HeardOnOwner (s : System) : Action → Prop
  | .etharpArpInput netif hdr => s.stack.OwnsParked netif hdr.sipaddr
  | .etharpIpInput netif iphdrSrc _ =>
    ipAddrNetcmp iphdrSrc (s.stack.ifs.netif netif).ipAddr (s.stack.ifs.netif netif).netmask =
        true → s.stack.OwnsParked netif iphdrSrc
  | _ => True

/-! ## The sends -/

section Sends

variable {s s' : Stack} {src dest : IpAddr} {err : Err}

theorem routesToOwner_iff (hs : src ≠ ipAddrAny) :
    RoutesToOwner s.ifs src dest ↔
      ∀ n, ipRoute s.ifs (some src) dest = some n → (s.ifs.netif n).ipAddr = src := by
  unfold RoutesToOwner
  have hsource : IsSourceRoute s.ifs src dest (ipRoute s.ifs (some src) dest) :=
    ipRoute_isSourceRoute hs
  rcases hsource with ⟨m, hm, howns, hroute⟩ | ⟨hnone, hroute⟩
  · rw [hroute]
    constructor
    · rintro - n hn
      obtain rfl := Option.some.inj hn
      exact howns.2.1
    · exact fun _ _ => .inl ⟨m, hm, howns⟩
  · rw [hroute]
    constructor
    · intro h n hn
      rcases h hs with ⟨m, hm, howns⟩ | hdefault
      · exact absurd howns (hnone m hm)
      · exact hdefault n hn
    · exact fun h _ => .inr h

theorem SendsByRoute.fromOwner (hs : src ≠ ipAddrAny) (hroutes : RoutesToOwner s.ifs src dest)
    (h : SendsByRoute src dest s err s') : SendsFromOwner src dest s err s' := by
  unfold SendsByRoute at h
  cases hroute : ipRoute s.ifs (some src) dest with
  | none =>
    rw [hroute] at h
    exact .inr h
  | some n =>
    rw [hroute] at h
    exact .inl ⟨n, hroute ▸ ipRoute_isSourceRoute hs, ipRoute_up hroute,
      (routesToOwner_iff hs).mp hroutes n hroute, h⟩

theorem sendsOnOwner_step (udpChksum : IpAddr → IpAddr → List (BitVec 8) → BitVec 16)
    {t t' : System} {a : Action} (h : step udpChksum t a = some t') (hrouted : RoutedToOwner t a) :
    SendsOnOwner udpChksum t a t' := by
  cases a with
  | ipOutput data src dest ttl tos proto =>
    obtain rfl := Option.some.inj h
    exact fun hs => (ipOutput_byRoute hs data ttl tos proto).fromOwner hs hrouted
  | ipOutputHinted data src dest ttl tos proto addrHint =>
    obtain rfl := Option.some.inj h
    exact fun hs => (ipOutputHinted_byRoute hs data ttl tos proto addrHint).fromOwner hs hrouted
  | rawSendto pcb data ipaddr =>
    obtain rfl := Option.some.inj h
    exact fun hs => (rawSendto_byRoute pcb hs data).fromOwner hs hrouted
  | udpSendto pcb data dstIp dstPort =>
    obtain rfl := Option.some.inj h
    exact fun hs => udpSendto_fromOwner udpChksum hs data dstPort
  | etharpArpInput | etharpIpInput | etharpTmr | etharpCleanupNetif | configure | setUdp | memory =>
    trivial

theorem RoutesToOwner.owner {n : NetifId} (h : RoutesToOwner s.ifs src dest)
    (hroute : ipRoute s.ifs (some src) dest = some n) (hs : src ≠ ipAddrAny) :
    (s.ifs.netif n).ipAddr = src :=
  (routesToOwner_iff hs).mp h n hroute

/-- Only packets on the interfaces that own their sources are handed over. -/
abbrev Owning (s s' : Stack) : Prop :=
  Effect (Owned s.ifs) (fun _ => True) s s'

theorem Sends.owning {n : NetifId} (h : Sends n src dest s s')
    (howns : src ≠ ipAddrAny → (s.ifs.netif n).ipAddr = src) : Owning s s' := by
  refine h.mono (fun f hf p hp hs => ?_) fun _ _ => trivial
  have hsrc : p.src = src := (hf.2 p hp).1
  rw [hf.1, hsrc]
  exact howns (hsrc ▸ hs)

theorem Owning.trans {u : Stack} (h : Owning s s') (h' : Owning s' u) : Owning s u :=
  Effect.trans h (h.ifs ▸ h')

theorem eq_sourceOr {ip : IpAddr} (howns : src ≠ ipAddrAny → ip = src) :
    ip = if ipAddrIsany src then ip else src := by
  split
  · rfl
  · next hany => exact howns fun hs => hany (by simp [ipAddrIsany, hs])

namespace Stack

variable (data : List (BitVec 8)) (ttl tos proto : BitVec 8) {n : NetifId}

theorem ipOutputIf_owning (howns : src ≠ ipAddrAny → (s.ifs.netif n).ipAddr = src) :
    Owning s (s.ipOutputIf data src dest ttl tos proto n).2 :=
  (s.ipOutputIf_sends data src dest ttl tos proto n).owning fun _ => eq_sourceOr howns

theorem ipOutputIfHinted_owning (addrHint : Nat)
    (howns : src ≠ ipAddrAny → (s.ifs.netif n).ipAddr = src) :
    Owning s (s.ipOutputIfHinted data src dest ttl tos proto n addrHint).2 :=
  (s.ipOutputIfHinted_sends data src dest ttl tos proto n addrHint).owning fun _ =>
    eq_sourceOr howns

theorem ipOutput_owning (h : RoutesToOwner s.ifs src dest) :
    Owning s (s.ipOutput data src dest ttl tos proto).2 := by
  unfold ipOutput
  split
  · exact .refl s
  · next n hn => exact ipOutputIf_owning data ttl tos proto (h.owner hn)

theorem ipOutputHinted_owning (addrHint : Nat) (h : RoutesToOwner s.ifs src dest) :
    Owning s (s.ipOutputHinted data src dest ttl tos proto addrHint).2 := by
  unfold ipOutputHinted
  split
  · exact .refl s
  · next n hn => exact ipOutputIfHinted_owning data ttl tos proto addrHint (h.owner hn)

theorem rawSendto_owning (pcb : RawPcb) (h : RoutesToOwner s.ifs pcb.localIp dest) :
    Owning s (s.rawSendto pcb data dest).2 := by
  unfold rawSendto
  split
  · next t hroom => exact .ofQuiet (s.headerRoom_quiet hroom)
  · next t hroom =>
    have hquiet := s.headerRoom_quiet hroom
    rw [← hquiet.ifs] at h
    refine Owning.trans (.ofQuiet hquiet) ?_
    split
    · exact .refl t
    · next n hn =>
      exact ipOutputIfHinted_owning data _ _ _ _ fun _ => eq_sourceOr (h.owner hn)

end Stack

theorem udpSendto_owning (udpChksum : IpAddr → IpAddr → List (BitVec 8) → BitVec 16)
    (u : UdpState) (pcb : Nat) (data : List (BitVec 8)) (port : BitVec 16) :
    Owning s (udpSendto udpChksum s u pcb data dest port).2.1 := by
  unfold udpSendto
  split
  · exact .refl s
  · next n _ =>
    unfold udpSendtoIf
    split
    · next u' _ =>
      split
      · next t hroom => exact .ofQuiet (s.headerRoom_quiet hroom)
      · next t hroom =>
        refine Owning.trans (.ofQuiet (s.headerRoom_quiet hroom)) ?_
        simp only
        split
        · exact .refl t
        · next hcheck =>
          refine Stack.ipOutputIfHinted_owning _ _ _ _ _ fun _ => eq_sourceOr fun hs => ?_
          have hsame : (u'.udpPcb pcb).localIp = (t.ifs.netif n).ipAddr := by
            simpa [hs, ipAddrIsany, ipAddrCmp] using hcheck
          exact hsame.symm
    · exact .refl s

theorem leavesOnOwner_of_owning {t t' : System} {a : Action} (h : Owning t.stack t'.stack) :
    LeavesOnOwner t a t' := by
  obtain ⟨new, hnew, howned⟩ := h.sent
  unfold LeavesOnOwner
  rw [hnew, List.drop_left, h.ifs]
  exact howned

theorem leavesOnOwner_of_sent_eq {t t' : System} {a : Action} (h : t'.stack.sent = t.stack.sent) :
    LeavesOnOwner t a t' := by
  unfold LeavesOnOwner
  rw [h, List.drop_length]
  exact List.forall_mem_nil _

end Sends

/-! ## What arrives -/

section Arrivals

namespace Stack

variable {s s' : Stack} {ipaddr : IpAddr}

theorem sweep_find (l : List ArpIndex) (c : Candidates) (i : ArpIndex) :
    s.sweep ipaddr l c = .inl i ↔
      (l.find? fun i => (s.arpTable i).state != .empty && ipAddrCmp ipaddr (s.arpTable i).ipaddr) =
        some i := by
  induction l generalizing c with
  | nil => simp [sweep]
  | cons j rest ih =>
    unfold sweep
    simp only
    by_cases hempty : (s.arpTable j).state = .empty
    · rw [List.find?_cons_of_neg (by simp [hempty])]
      split
      · exact ih _
      · rw [if_neg (not_not.mpr hempty)]
        exact ih _
    · rw [if_neg fun h => hempty h.2, if_pos hempty]
      split
      · next hcmp =>
        rw [List.find?_cons_of_pos (by simp [hempty, hcmp])]
        simp
      · next hcmp =>
        rw [List.find?_cons_of_neg (by simp [hcmp])]
        split
        · split
          · split <;> exact ih _
          · split <;> exact ih _
        · split <;> exact ih _

theorem etharpFindEntry_parkedAt (hok : TableOk s) {flags : BitVec 8} {found : Option ArpIndex}
    (h : s.etharpFindEntry ipaddr flags = (found, s')) :
    (found.elim [] fun i => (s'.arpTable i).q) = s.parkedAt ipaddr := by
  have hspec := (s.etharpFindEntry_spec h).2
  unfold parkedAt
  unfold etharpFindEntry at h
  split at h
  · next j hj =>
    obtain ⟨rfl, rfl⟩ := Prod.mk.inj h
    rw [(sweep_find _ _ j).mp hj]
    rfl
  · next c hc =>
    have hnone : ((List.finRange arpTableSize).find? fun i =>
        (s.arpTable i).state != .empty && ipAddrCmp ipaddr (s.arpTable i).ipaddr) = none := by
      rw [Option.eq_none_iff_forall_ne_some]
      intro i hi
      have hinl := (sweep_find _ ⟨none, none, none, none, 0, 0, 0⟩ i).mpr hi
      rw [hc] at hinl
      cases hinl
    rw [hnone]
    cases found with
    | none => rfl
    | some i =>
      rcases hspec i rfl with ⟨rfl, hip⟩ | hfresh
      · have hnot := List.find?_eq_none.mp hnone i (List.mem_finRange i)
        exact hok i (by simpa [hip, ipAddrCmp] using hnot)
      · exact hfresh hok

theorem sendQueue_sent (i : ArpIndex) (netif : NetifId) (ethaddr : EthAddr) (ps : List Packet) :
    (s.sendQueue i netif ethaddr ps).sent =
      s.sent ++ ps.map fun p => ⟨netif, .ip ethaddr (s.ifs.netif netif).hwaddr p⟩ := by
  induction ps generalizing s with
  | nil => simp [sendQueue]
  | cons p rest ih =>
    unfold sendQueue
    simp only
    rw [ih]
    simp [etharpSendIp, linkoutput, setEntry]

/-- What an update takes out of the queue. -/
def released (s : Stack) (netif : NetifId) (ipaddr : IpAddr) : List Packet :=
  if s.refused netif ipaddr then [] else s.parkedAt ipaddr

theorem etharpUpdateArpEntry_sent (hok : TableOk s) (netif : NetifId) (ethaddr : EthAddr)
    (flags : BitVec 8) :
    (s.etharpUpdateArpEntry netif ipaddr ethaddr flags).2.sent = s.sent ++
      (s.released netif ipaddr).map fun p => ⟨netif, .ip ethaddr (s.ifs.netif netif).hwaddr p⟩ := by
  unfold etharpUpdateArpEntry released refused
  split
  · rw [List.map_nil, List.append_nil]
  · cases hfind : s.etharpFindEntry ipaddr flags with
    | mk found s' =>
      have hparked := etharpFindEntry_parkedAt hok hfind
      obtain ⟨hifs, ⟨new, hnew, hnone⟩, -, -⟩ := (s.etharpFindEntry_spec hfind).1
      obtain rfl : new = [] := List.eq_nil_iff_forall_not_mem.mpr hnone
      rw [List.append_nil] at hnew
      rw [← hparked]
      cases found with
      | none => rw [hnew, Option.elim_none, List.map_nil, List.append_nil]
      | some i =>
        simp only [Option.elim_some]
        rw [sendQueue_sent]
        simp [setEntry, hnew, hifs]

theorem ownsParked_iff (s : Stack) (netif : NetifId) (ipaddr : IpAddr) (dest src : EthAddr) :
    (∀ f ∈ (s.released netif ipaddr).map fun p => ⟨netif, .ip dest src p⟩, Owned s.ifs f) ↔
      s.OwnsParked netif ipaddr := by
  unfold OwnsParked released
  cases s.refused netif ipaddr with
  | true => simp
  | false => simp [Owned, Frame.packet]

end Stack

theorem leavesOnOwner_etharpIpInput {t t' : System} (hok : TableOk t.stack) {netif : NetifId}
    {iphdrSrc : IpAddr} {ethhdrSrc : EthAddr} {a : Action}
    (h : t'.stack = t.stack.etharpIpInput netif iphdrSrc ethhdrSrc) :
    LeavesOnOwner t a t' ↔ HeardOnOwner t (.etharpIpInput netif iphdrSrc ethhdrSrc) := by
  have hifs := (t.stack.etharpIpInput_effect hok netif iphdrSrc ethhdrSrc).ifs
  rw [← h] at hifs
  unfold LeavesOnOwner HeardOnOwner
  rw [hifs, h, Stack.etharpIpInput]
  by_cases hlocal : ipAddrNetcmp iphdrSrc (t.stack.ifs.netif netif).ipAddr
      (t.stack.ifs.netif netif).netmask = true
  · simp only [hlocal, if_true, forall_const]
    rw [Stack.etharpUpdateArpEntry_sent hok, List.drop_left]
    exact t.stack.ownsParked_iff netif iphdrSrc _ _
  · simp only [hlocal, Bool.false_eq_true, if_false, false_implies, iff_true]
    rw [List.drop_length]
    exact List.forall_mem_nil _

theorem leavesOnOwner_etharpArpInput {t t' : System} (hok : TableOk t.stack) {netif : NetifId}
    {hdr : EtharpHdr} {a : Action} (h : t'.stack = t.stack.etharpArpInput netif hdr) :
    LeavesOnOwner t a t' ↔ HeardOnOwner t (.etharpArpInput netif hdr) := by
  have hifs := (t.stack.etharpArpInput_effect hok netif hdr).ifs
  rw [← h] at hifs
  simp only [LeavesOnOwner, HeardOnOwner]
  rw [hifs, h, ← t.stack.ownsParked_iff netif hdr.sipaddr hdr.shwaddr
    (t.stack.ifs.netif netif).hwaddr, Stack.etharpArpInput]
  split
  · simp only [Stack.linkoutput]
    rw [Stack.etharpUpdateArpEntry_sent hok, List.append_assoc, List.drop_left]
    simp only [List.forall_mem_append, List.forall_mem_singleton, and_iff_left_iff_imp]
    exact fun _ p hp => by cases hp
  · rw [Stack.etharpUpdateArpEntry_sent hok, List.drop_left]

end Arrivals

/-! ## Every run -/

section Runs

variable (udpChksum : IpAddr → IpAddr → List (BitVec 8) → BitVec 16)

theorem leavesOnOwner_iff {t t' : System} {a : Action} (hok : TableOk t.stack)
    (h : step udpChksum t a = some t') (hrouted : RoutedToOwner t a) :
    LeavesOnOwner t a t' ↔ HeardOnOwner t a := by
  cases a with
  | ipOutput data src dest ttl tos proto =>
    obtain rfl := Option.some.inj h
    exact iff_of_true (leavesOnOwner_of_owning (Stack.ipOutput_owning data ttl tos proto hrouted))
      trivial
  | ipOutputHinted data src dest ttl tos proto addrHint =>
    obtain rfl := Option.some.inj h
    exact iff_of_true (leavesOnOwner_of_owning
      (Stack.ipOutputHinted_owning data ttl tos proto addrHint hrouted)) trivial
  | udpSendto pcb data dstIp dstPort =>
    obtain rfl := Option.some.inj h
    exact iff_of_true (leavesOnOwner_of_owning
      (udpSendto_owning udpChksum t.udp pcb data dstPort)) trivial
  | rawSendto pcb data ipaddr =>
    obtain rfl := Option.some.inj h
    exact iff_of_true (leavesOnOwner_of_owning (Stack.rawSendto_owning data pcb hrouted)) trivial
  | etharpArpInput netif hdr =>
    obtain rfl := Option.some.inj h
    exact leavesOnOwner_etharpArpInput hok rfl
  | etharpIpInput netif iphdrSrc ethhdrSrc =>
    obtain rfl := Option.some.inj h
    exact leavesOnOwner_etharpIpInput hok rfl
  | etharpTmr =>
    have hsent := (leavesByRoute_step udpChksum t .etharpTmr t' hok h).1
    exact iff_of_true (leavesOnOwner_of_sent_eq hsent) trivial
  | etharpCleanupNetif netif =>
    have hsent := (leavesByRoute_step udpChksum t (.etharpCleanupNetif netif) t' hok h).1
    exact iff_of_true (leavesOnOwner_of_sent_eq hsent) trivial
  | configure ifs | setUdp udp | memory mem =>
    obtain rfl := Option.some.inj h
    exact iff_of_true (leavesOnOwner_of_sent_eq rfl) trivial

/-- In every run whose routes have the source addresses of their sends, the sends move packets
only of the owner's interface, and all packets leave on their owner's interface exactly when
each next hop is heard on the interface that owns the packets parked for it. -/
theorem packets_leave_on_owner (ifs : Interfaces) (udp : UdpState) (as : List Action)
    (hrouted : EveryStep (step udpChksum) (fun s a _ => RoutedToOwner s a)
      (System.start ifs udp) as) :
    EveryStep (step udpChksum) (SendsOnOwner udpChksum) (System.start ifs udp) as ∧
      (EveryStep (step udpChksum) LeavesOnOwner (System.start ifs udp) as ↔
        EveryStep (step udpChksum) (fun s a _ => HeardOnOwner s a) (System.start ifs udp) as) := by
  have hok : TableOk (System.start ifs udp).stack := fun _ _ => rfl
  constructor
  · refine everyStep_of_invariant_under (I := fun s => TableOk s.stack) ?_ as hok hrouted
    intro s a t hok h hrouted
    exact ⟨sendsOnOwner_step udpChksum h hrouted, (leavesByRoute_step udpChksum s a t hok h).2⟩
  · refine everyStep_congr_under (I := fun s => TableOk s.stack) ?_ ?_ as hok hrouted
    · exact fun s a t hok h hrouted => leavesOnOwner_iff udpChksum hok h hrouted
    · exact fun s a t hok h _ => (leavesByRoute_step udpChksum s a t hok h).2

end Runs

/-- 10.0.0.1 and 10.0.0.2, in one subnet. -/
def sharedSubnet : Interfaces where
  netif n := if n = 0 then exampleNetif (ppHtonl 0x0a000001) 0xa0 else
    exampleNetif (ppHtonl 0x0a000002) 0xb0
  netifList := [0, 1]
  netifDefault := some 0

def noPcbs : UdpState :=
  { udpPcb := fun _ => ⟨0, 0, 0, 0, 0, 0, 0⟩, udpPcbs := [], udpPort := udpLocalPortRangeStart }

/-- An ARP packet of the host with the address `host`, directed to `target`. -/
def arpFrom (host target : IpAddr) : EtharpHdr :=
  { opcode := arpRequest, shwaddr := 0xc0, sipaddr := host, dhwaddr := 0, dipaddr := target }

/-- A packet from 10.0.0.1 is parked, and its next hop is heard where it belongs. -/
theorem packets_leave_on_owner_sharedSubnet :
    EveryStep (step fun _ _ _ => 0) LeavesOnOwner (System.start sharedSubnet noPcbs)
      [.memory (List.replicate 9 true),
        .ipOutput [] (ppHtonl 0x0a000001) (ppHtonl 0x0a000009) 255 0 6,
        .etharpArpInput 0 (arpFrom (ppHtonl 0x0a000009) (ppHtonl 0x0a000001))] := by
  refine (packets_leave_on_owner (fun _ _ _ => 0) sharedSubnet noPcbs _ ?_).2.mpr ?_
  · rintro _ ⟨⟩
    refine ⟨trivial, ?_⟩
    rintro _ ⟨⟩
    refine ⟨fun _ => .inl ⟨0, by decide, by decide, by decide, by decide⟩, ?_⟩
    rintro _ ⟨⟩
    exact ⟨trivial, trivial⟩
  · rintro _ ⟨⟩
    refine ⟨trivial, ?_⟩
    rintro _ ⟨⟩
    refine ⟨trivial, ?_⟩
    rintro _ ⟨⟩
    refine ⟨fun _ => ?_, trivial⟩
    decide +kernel

/-- The address 10.0.0.1 leaves on the default interface 10.0.1.1 when the destination is
not in its own subnet; and a packet parked by 10.0.0.1 leaves on 10.0.0.2 when that is where
the next hop is heard first. -/
theorem packets_leave_on_other_interfaces :
    ¬ EveryStep (step fun _ _ _ => 0) LeavesOnOwner (System.start exampleInterfaces noPcbs)
      [.memory (List.replicate 9 true),
        .etharpArpInput 1 (arpFrom (ppHtonl 0x0a000109) (ppHtonl 0x0a000101)),
        .ipOutput [] (ppHtonl 0x0a000001) (ppHtonl 0x0a000109) 255 0 6] ∧
    ¬ EveryStep (step fun _ _ _ => 0) LeavesOnOwner (System.start sharedSubnet noPcbs)
      [.memory (List.replicate 9 true),
        .ipOutput [] (ppHtonl 0x0a000001) (ppHtonl 0x0a000009) 255 0 6,
        .etharpArpInput 1 (arpFrom (ppHtonl 0x0a000009) (ppHtonl 0x0a000002))] := by
  constructor
  · intro h
    obtain ⟨-, h⟩ := h _ rfl
    obtain ⟨-, h⟩ := h _ rfl
    obtain ⟨hleaves, -⟩ := h _ rfl
    have hsent := hleaves ⟨1, .ip 0xc0 0xb0
      ⟨ppHtonl 0x0a000001, ppHtonl 0x0a000109, 255, 0, 6, 0, 0, []⟩⟩ (by decide +kernel) _ rfl
      (by decide)
    exact absurd hsent (by decide +kernel)
  · intro h
    obtain ⟨-, h⟩ := h _ rfl
    obtain ⟨-, h⟩ := h _ rfl
    obtain ⟨hleaves, -⟩ := h _ rfl
    have hsent := hleaves ⟨1, .ip 0xc0 0xb0
      ⟨ppHtonl 0x0a000001, ppHtonl 0x0a000009, 255, 0, 6, 0, 0, []⟩⟩ (by decide +kernel) _ rfl
      (by decide)
    exact absurd hsent (by decide +kernel)

end FreeLwip.Ip
