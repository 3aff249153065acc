import FreeLwip.Lib.Run
import FreeLwip.Driver.Ethernetif

/-!
# The transmit path (`lwip_tse_mac.c`)

`tse_mac_raw_send` writes the segments of a chain to the MAC one after the other. The first one
starts the packet, the last one ends it.
-/

namespace FreeLwip.Driver.Transmit

open Run

/-- A segment of a chain: where its payload is, and the bytes there. The buffer for unaligned
ones has room for 1560. -/
structure Segment where
  payload : BitVec 32
  bytes : List Byte
  len_lt : bytes.length < 2 ^ 16
  fits : payload &&& 0x03 ≠ 0 → bytes.length ≤ 1560

/-- What the MAC is given with one write. -/
structure Descriptor where
  sop : Bool
  eop : Bool
  bytes : List Byte
  deriving DecidableEq

/-- `tse_mac_sTxWrite` passes the descriptor, or it passes nothing and returns `ret`. -/
inductive Outcome
  | passes
  | fails (ret : BitVec 32)
  deriving DecidableEq

/-- A call of `tse_mac_raw_send`: the chain `pkt` is not empty, and what is on the stack where
`buf2` will be, and the outcomes of the writes, are whatever they are. -/
structure Call where
  first : Segment
  next : List Segment
  buf2 : List Byte
  outcomes : Nat → Outcome

def Call.pkt (c : Call) : List Segment := c.first :: c.next

/-- `bytes_sent`, and what the MAC has received. -/
structure Link where
  bytesSent : BitVec 32
  mac : List Descriptor

def memcpy (dst src : List Byte) : List Byte := src ++ dst.drop src.length

def tseMacSTxWrite (mac : List Descriptor) (desc : Descriptor) :
    Outcome → List Descriptor × BitVec 32
  | .passes => (mac ++ [desc], BitVec.ofNat 32 desc.bytes.length)
  | .fails ret => (mac, ret)

/-- One turn of the `for` loop, for the segment at position `i` of the chain. -/
def sendSegment (outcome : Outcome) (i : Nat) (last : Bool) (p : Segment)
    (s : Link × List Byte) : Link × List Byte :=
  let (link, buf2) := s
  let buf2 := if p.payload &&& 0x03 ≠ 0 then memcpy buf2 p.bytes else buf2
  let data := if p.payload &&& 0x03 ≠ 0 then buf2 else p.bytes
  let desc := { sop := i == 0, eop := last, bytes := data.take p.bytes.length }
  let (mac, txLength) := tseMacSTxWrite link.mac desc outcome
  ({ bytesSent := link.bytesSent + txLength, mac := mac }, buf2)

def sendLoop (outcomes : Nat → Outcome) : Nat → List Segment → Link × List Byte → Link × List Byte
  | _, [], s => s
  | i, p :: next, s =>
    sendLoop outcomes (i + 1) next (sendSegment (outcomes i) i next.isEmpty p s)

def tseMacRawSend (link : Link) (c : Call) : Link × Err :=
  ((sendLoop c.outcomes 0 c.pkt (link, c.buf2)).1, .ok)

def step (link : Link) (c : Call) : Option Link := some (tseMacRawSend link c).1

/-! ## What the MAC is to receive -/

/-- The start of the packet is exactly on the first descriptor, its end exactly on the last
one. -/
structure IsFrame (bytes : List Byte) (descs : List Descriptor) : Prop where
  nonempty : descs ≠ []
  sop : ∀ i (h : i < descs.length), descs[i].sop = true ↔ i = 0
  eop : ∀ i (h : i < descs.length), descs[i].eop = true ↔ i + 1 = descs.length
  bytes : (descs.map Descriptor.bytes).flatten = bytes

def Call.bytes (c : Call) : List Byte := (c.pkt.map Segment.bytes).flatten

/-- The descriptors that `c` has passed, between `s` and `t`. -/
def passedBy (s t : Link) : List Descriptor := t.mac.drop s.mac.length

/-- `ERR_OK` is for a frame that was passed in whole: one write for each segment. -/
structure Reported (s : Link) (c : Call) (t : Link) : Prop where
  appended : ∃ descs, t.mac = s.mac ++ descs
  result : (tseMacRawSend s c).2 = .ok ↔
    IsFrame c.bytes (passedBy s t) ∧ (passedBy s t).length = c.pkt.length
  bytesSent : t.bytesSent =
    s.bytesSent + BitVec.ofNat 32 ((passedBy s t).map Descriptor.bytes).flatten.length

structure FramesRight (s : Link) (calls : List Call) : Prop where
  frames : ∀ t, run step s calls = some t → ∃ sent frames, List.Sublist sent calls ∧
    List.Forall₂ (fun c => IsFrame c.bytes) sent frames ∧ t.mac = s.mac ++ frames.flatten
  reported : EveryStep step Reported s calls

/-! ## One chain -/

variable {outcomes : Nat → Outcome} {outcome : Outcome} {i : Nat} {segments : List Segment}

def describe (i : Nat) (last : Bool) (p : Segment) : Descriptor where
  sop := i == 0
  eop := last
  bytes := p.bytes

/-- The descriptors of the segments of a chain from position `i` on. -/
def describeAll : Nat → List Segment → List Descriptor
  | _, [] => []
  | i, p :: next => describe i next.isEmpty p :: describeAll (i + 1) next

theorem sendSegment_link (last : Bool) (p : Segment) (s : Link × List Byte) :
    (sendSegment outcome i last p s).1 =
      { bytesSent := s.1.bytesSent +
          (tseMacSTxWrite s.1.mac (describe i last p) outcome).2
        mac := (tseMacSTxWrite s.1.mac (describe i last p) outcome).1 } := by
  have hdata : (if p.payload &&& 0x03 ≠ 0 then
      (if p.payload &&& 0x03 ≠ 0 then memcpy s.2 p.bytes else s.2) else p.bytes).take
        p.bytes.length = p.bytes := by
    split
    · exact List.take_left
    · exact List.take_length
  unfold sendSegment
  simp only [hdata]
  rfl

theorem describeAll_length (i : Nat) (segments : List Segment) :
    (describeAll i segments).length = segments.length := by
  induction segments generalizing i with
  | nil => rfl
  | cons p next ih => simp [describeAll, ih]

theorem describeAll_bytes (i : Nat) (segments : List Segment) :
    (describeAll i segments).map Descriptor.bytes = segments.map Segment.bytes := by
  induction segments generalizing i with
  | nil => rfl
  | cons p next ih => simp [describeAll, describe, ih]

theorem describeAll_sop {j : Nat} (h : j < (describeAll i segments).length) :
    (describeAll i segments)[j].sop = true ↔ i + j = 0 := by
  induction segments generalizing i j with
  | nil => simp [describeAll] at h
  | cons p next ih =>
    cases j with
    | zero => simp [describeAll, describe]
    | succ j =>
      have hj : j < (describeAll (i + 1) next).length := by simpa [describeAll] using h
      simp only [describeAll, List.getElem_cons_succ, ih hj]
      omega

theorem describeAll_eop {j : Nat} (h : j < (describeAll i segments).length) :
    (describeAll i segments)[j].eop = true ↔ j + 1 = segments.length := by
  induction segments generalizing i j with
  | nil => simp [describeAll] at h
  | cons p next ih =>
    cases j with
    | zero => cases next <;> simp [describeAll, describe]
    | succ j =>
      have hj : j < (describeAll (i + 1) next).length := by simpa [describeAll] using h
      simp [describeAll, ih hj]

theorem describeAll_isFrame (c : Call) : IsFrame c.bytes (describeAll 0 c.pkt) where
  nonempty := by simp [Call.pkt, describeAll]
  sop j hj := by simpa using describeAll_sop hj
  eop j hj := by
    rw [describeAll_length]
    exact describeAll_eop hj
  bytes := by rw [describeAll_bytes, Call.bytes]

theorem sendLoop_appends (outcomes : Nat → Outcome) (i : Nat) (segments : List Segment)
    (s : Link × List Byte) :
    ∃ descs, (sendLoop outcomes i segments s).1.mac = s.1.mac ++ descs ∧
      descs.length ≤ segments.length ∧
      (descs.length = segments.length → ∀ j < segments.length, outcomes (i + j) = .passes) := by
  induction segments generalizing i s with
  | nil => exact ⟨[], by simp [sendLoop], le_rfl, by simp⟩
  | cons p next ih =>
    obtain ⟨descs, hmac, hle, hall⟩ :=
      ih (i + 1) (sendSegment (outcomes i) i next.isEmpty p s)
    rw [sendLoop, hmac, sendSegment_link]
    cases houtcome : outcomes i with
    | passes =>
      refine ⟨describe i next.isEmpty p :: descs, ?_, by simpa using hle, fun hlen j hj => ?_⟩
      · simp [tseMacSTxWrite]
      · cases j with
        | zero => exact houtcome
        | succ j =>
          have := hall (by simpa using hlen) j (by simpa using hj)
          rwa [show i + (j + 1) = i + 1 + j by omega]
    | fails ret =>
      refine ⟨descs, rfl, by simp; omega, fun hlen => ?_⟩
      rw [List.length_cons] at hlen
      omega

theorem sendLoop_passes (s : Link × List Byte)
    (h : ∀ j < segments.length, outcomes (i + j) = .passes) :
    (sendLoop outcomes i segments s).1.mac = s.1.mac ++ describeAll i segments ∧
      (sendLoop outcomes i segments s).1.bytesSent = s.1.bytesSent +
        BitVec.ofNat 32 ((segments.map Segment.bytes).flatten).length := by
  induction segments generalizing i s with
  | nil => simp [sendLoop, describeAll]
  | cons p next ih =>
    have hfirst : outcomes i = .passes := h 0 (by simp)
    have hnext : ∀ j < next.length, outcomes (i + 1 + j) = .passes := by
      intro j hj
      have := h (j + 1) (by simpa using hj)
      rwa [show i + 1 + j = i + (j + 1) by omega]
    obtain ⟨hmac, hbytes⟩ := ih (sendSegment (outcomes i) i next.isEmpty p s) hnext
    rw [sendLoop, hmac, hbytes, sendSegment_link, hfirst]
    refine ⟨by simp [tseMacSTxWrite, describeAll], ?_⟩
    simp only [tseMacSTxWrite, describe, List.map_cons, List.flatten_cons, List.length_append,
      BitVec.ofNat_add, BitVec.add_assoc]

/-! ## Runs -/

variable {s t : Link} {c : Call} {calls : List Call}

/-- The only condition: the MAC takes what it is given. -/
def Call.Passes (c : Call) : Prop := ∀ j < c.pkt.length, c.outcomes j = .passes

theorem rawSend_appends (s : Link) (c : Call) :
    ∃ descs, (tseMacRawSend s c).1.mac = s.mac ++ descs ∧
      (descs.length = c.pkt.length → c.Passes) := by
  obtain ⟨descs, hmac, -, hall⟩ :=
    sendLoop_appends c.outcomes 0 c.pkt (s, c.buf2)
  exact ⟨descs, hmac, fun hlen j hj => by simpa using hall hlen j hj⟩

theorem rawSend_passes (s : Link) (h : c.Passes) :
    (tseMacRawSend s c).1.mac = s.mac ++ describeAll 0 c.pkt ∧
      (tseMacRawSend s c).1.bytesSent = s.bytesSent + BitVec.ofNat 32 c.bytes.length := by
  have hall : ∀ j < c.pkt.length, c.outcomes (0 + j) = .passes := by simpa [Call.Passes] using h
  exact sendLoop_passes (s, c.buf2) hall

/-- `tse_mac_raw_send` returns `ERR_OK` whatever happens, so a write that fails is not
reported. -/
theorem reported_iff (hstep : step s c = some t) : Reported s c t ↔ c.Passes := by
  cases hstep
  obtain ⟨descs, hmac, hall⟩ := rawSend_appends s c
  constructor
  · intro h
    have hlen := (h.result.mp rfl).2
    rw [passedBy, hmac, List.drop_left] at hlen
    exact hall hlen
  · intro h
    obtain ⟨hmac, hbytes⟩ := rawSend_passes s h
    have hpassed : passedBy s (tseMacRawSend s c).1 = describeAll 0 c.pkt := by
      rw [passedBy, hmac, List.drop_left]
    refine ⟨⟨_, hmac⟩, ⟨fun _ => ?_, fun _ => rfl⟩, ?_⟩
    · rw [hpassed, describeAll_length]
      exact ⟨describeAll_isFrame c, rfl⟩
    · rw [hpassed, hbytes, (describeAll_isFrame c).bytes]

theorem everyStep_passes_iff (s : Link) (calls : List Call) :
    EveryStep step (fun _ c _ => c.Passes) s calls ↔ ∀ c ∈ calls, c.Passes := by
  induction calls generalizing s with
  | nil => simp [EveryStep]
  | cons c calls ih =>
    rw [List.forall_mem_cons]
    constructor
    · intro h
      obtain ⟨hc, hcalls⟩ := h _ rfl
      exact ⟨hc, (ih _).mp hcalls⟩
    · rintro ⟨hc, hcalls⟩ t ht
      exact ⟨hc, (ih t).mpr hcalls⟩

theorem run_passes (h : ∀ c ∈ calls, c.Passes) (hrun : run step s calls = some t) :
    t.mac = s.mac ++ (calls.map fun c => describeAll 0 c.pkt).flatten := by
  induction calls generalizing s with
  | nil =>
    cases hrun
    simp
  | cons c calls ih =>
    obtain ⟨u, hu, hrest⟩ := run_cons_some.mp hrun
    cases hu
    have hmac := (rawSend_passes s (h c List.mem_cons_self)).1
    rw [ih (fun d hd => h d (List.mem_cons_of_mem _ hd)) hrest, hmac]
    simp

/-- The frames are right if and only if no write of the run fails. -/
theorem framesRight_iff (s : Link) (calls : List Call) :
    FramesRight s calls ↔ ∀ c ∈ calls, c.Passes := by
  have hreported : EveryStep step Reported s calls ↔ ∀ c ∈ calls, c.Passes := by
    rw [← everyStep_passes_iff s]
    exact everyStep_congr (I := fun _ => True) (fun _ _ _ _ => reported_iff)
      (fun _ _ _ _ _ _ => trivial) calls trivial
  refine ⟨fun h => hreported.mp h.reported, fun h => ⟨fun t hrun => ?_, hreported.mpr h⟩⟩
  refine ⟨calls, calls.map fun c => describeAll 0 c.pkt, List.Sublist.refl _, ?_, run_passes h hrun⟩
  rw [List.forall₂_map_right_iff, List.forall₂_same]
  exact fun c _ => describeAll_isFrame c

/-! ### A segment that is lost -/

def oneByte (b : Byte) : Segment where
  payload := 0x1000
  bytes := [b]
  len_lt := by simp
  fits := fun h => absurd rfl h

/-- Two segments, the second of which is not passed, and then a segment on its own. -/
def lostSegment : List Call :=
  [{ first := oneByte 1, next := [oneByte 2], buf2 := [],
     outcomes := fun j => if j = 1 then .fails (-22) else .passes },
   { first := oneByte 3, next := [], buf2 := [], outcomes := fun _ => .passes }]

/-- The first packet has a start and no end, the next one starts in it, and both calls return
`ERR_OK`. -/
theorem lostSegment_not_framesRight :
    (run step ⟨0, []⟩ lostSegment).map Link.mac =
        some [⟨true, false, [1]⟩, ⟨true, true, [3]⟩] ∧
      ¬ FramesRight ⟨0, []⟩ lostSegment := by
  refine ⟨by decide, fun h => ?_⟩
  have hpasses := (reported_iff rfl).mp (h.reported _ rfl).1
  exact absurd (hpasses 1 (by decide)) (by decide)

end FreeLwip.Driver.Transmit
