import FreeLwip.Lib.Loop
import Mathlib.Data.BitVec

/-!
# Receiving an echo reply (`ping.c`, and `lwip_recvfrom` of `sockets.c`)

`ping_recv` takes the IP datagrams of its raw socket into a buffer of 64 bytes, and compares
the echo header that it finds behind the IP header.
-/

namespace FreeLwip.Ip.Ping

open Loop

abbrev Byte := BitVec 8

/-- The bytes from `buf` on; the buffer ends at 64. -/
abbrev Memory := Nat → Byte

def sizeofBuf : Nat := 64

/-- `sizeof(struct ip_hdr) + sizeof(struct icmp_echo_hdr)`. -/
def minLen : Nat := 20 + 8

/-- The echo identifier reads the same in both byte orders. -/
def pingId : BitVec 16 := 0xAFAF

def htons (s : BitVec 16) : BitVec 16 := ((s &&& 0xFF00) >>> 8) ||| ((s &&& 0xFF) <<< 8)

/-- A datagram that is received, and what is in memory behind the buffer by then. -/
structure Datagram where
  bytes : List Byte
  beyond : Memory

namespace Datagram

variable (d : Datagram)

/-- What `recvfrom` returns: the datagram is cut to the buffer. -/
def len : Nat := min sizeofBuf d.bytes.length

/-- The bytes of the datagram itself. -/
def content : Memory := fun a => d.bytes.getD a 0

end Datagram

/-- The memory after `recvfrom`: the rest of the buffer is as it was. -/
def recvfrom (mem : Memory) (d : Datagram) : Memory := fun a =>
  if a < d.len then d.content a else if a < sizeofBuf then mem a else d.beyond a

/-- A field of a header, as a little-endian processor loads it. -/
def load16 (mem : Memory) (a : Nat) : BitVec 16 := mem (a + 1) ++ mem a

/-- `IPH_HL`. -/
def iphHl (mem : Memory) : Nat := (mem 0 &&& 0x0f).toNat

/-- Where the ICMP header is: the header length counts words. -/
def iecho (mem : Memory) : Nat := iphHl mem * 4

/-- Does the echo header have the id and the sequence number? And the bytes that are read for
the answer: a sequence number only behind the right id. -/
def echoMatches (pingSeqNum : BitVec 16) (mem : Memory) : Bool × List Nat :=
  let iecho := iecho mem
  if load16 mem (iecho + 4) = pingId then
    (load16 mem (iecho + 6) == htons pingSeqNum, [iecho + 4, iecho + 5, iecho + 6, iecho + 7])
  else
    (false, [iecho + 4, iecho + 5])

/-- What the calls of `recvfrom` come to, one after the other: a datagram, or a timeout or an
error. -/
abbrev Arrivals := Nat → Option Datagram

def exitFailure : Int := 1

/-- One turn of the `while`, with the number of datagrams before and the memory. -/
def recvTurn (pingSeqNum : BitVec 16) (arrivals : Arrivals) :
    Nat × Memory → (Nat × Memory) ⊕ Int
  | (k, mem) =>
    match arrivals k with
    | none => .inr (-exitFailure)
    | some d =>
      let mem := recvfrom mem d
      if d.len > 0 then
        if d.len ≥ minLen then
          if (echoMatches pingSeqNum mem).1 then .inr 1 else .inl (k + 1, mem)
        else
          .inl (k + 1, mem)
      else
        .inr (-exitFailure)

/-- `ping_recv`; its buffer is not initialised. -/
def pingRecv (fuel : Nat) (pingSeqNum : BitVec 16) (arrivals : Arrivals) (mem : Memory) :
    Option Int :=
  run (recvTurn pingSeqNum arrivals) fuel (0, mem)

/-! ## What the datagrams say -/

section

variable (pingSeqNum : BitVec 16) (d : Datagram)

/-- The received bytes of the datagram hold the id and the sequence number. -/
def Carries : Prop :=
  minLen ≤ d.len ∧ iecho d.content + 8 ≤ d.len ∧ (echoMatches pingSeqNum d.content).1 = true

/-- The fields that are compared are among the received bytes. -/
def Legible : Prop :=
  minLen ≤ d.len → iecho d.content + 6 ≤ d.len ∧
    (load16 d.content (iecho d.content + 4) = pingId → iecho d.content + 8 ≤ d.len)

end

instance (pingSeqNum : BitVec 16) (d : Datagram) : Decidable (Carries pingSeqNum d) :=
  inferInstanceAs (Decidable (_ ∧ _ ∧ _))

instance (d : Datagram) : Decidable (Legible d) :=
  inferInstanceAs (Decidable (_ → _ ∧ (_ → _)))

/-- `ping_recv` is still looking when it comes to datagram `k`. -/
def LookingAt (pingSeqNum : BitVec 16) (arrivals : Arrivals) (k : Nat) : Prop :=
  ∀ j < k, ∃ d, arrivals j = some d ∧ 0 < d.len ∧ ¬ Carries pingSeqNum d

/-- The bytes compared are bytes of the datagram just received, so that a result of 1 is about
a datagram that carries what was looked for. -/
structure InterpretsReceived (pingSeqNum : BitVec 16) (arrivals : Arrivals) (mem : Memory) :
    Prop where
  reads : ∀ n k mem', after (recvTurn pingSeqNum arrivals) n (0, mem) = some (k, mem') →
    ∀ d, arrivals k = some d → minLen ≤ d.len →
      ∀ a ∈ (echoMatches pingSeqNum (recvfrom mem' d)).2, a < d.len
  strength : Ends (recvTurn pingSeqNum arrivals) (0, mem) 1 →
    ∃ k d, LookingAt pingSeqNum arrivals k ∧ arrivals k = some d ∧ Carries pingSeqNum d

/-! ## One datagram -/

variable {pingSeqNum : BitVec 16} {d : Datagram} {mem : Memory} {arrivals : Arrivals}

theorem recvfrom_of_lt {a : Nat} (h : a < d.len) : recvfrom mem d a = d.content a := if_pos h

theorem load16_recvfrom {a : Nat} (h : a + 2 ≤ d.len) :
    load16 (recvfrom mem d) a = load16 d.content a := by
  unfold load16
  rw [recvfrom_of_lt (by omega), recvfrom_of_lt (by omega)]

theorem iecho_recvfrom (h : minLen ≤ d.len) : iecho (recvfrom mem d) = iecho d.content := by
  unfold iecho iphHl
  rw [recvfrom_of_lt (by unfold minLen at h; omega)]

theorem reads_iff (h : minLen ≤ d.len) :
    (∀ a ∈ (echoMatches pingSeqNum (recvfrom mem d)).2, a < d.len) ↔ Legible d := by
  unfold echoMatches Legible
  simp only [iecho_recvfrom h, h, true_imp_iff]
  constructor
  · intro hreads
    have hid : iecho d.content + 6 ≤ d.len := by
      have := hreads (iecho d.content + 5) (by split <;> simp)
      omega
    rw [load16_recvfrom (by omega)] at hreads
    refine ⟨hid, fun hmatch => ?_⟩
    rw [if_pos hmatch] at hreads
    have := hreads (iecho d.content + 7) (by simp)
    omega
  · rintro ⟨hid, hseqno⟩ a ha
    rw [load16_recvfrom (by omega)] at ha
    split at ha
    · next hmatch =>
      have := hseqno hmatch
      simp only [List.mem_cons, List.not_mem_nil, or_false] at ha
      omega
    · simp only [List.mem_cons, List.not_mem_nil, or_false] at ha
      omega

theorem matches_iff (hlegible : Legible d) :
    (minLen ≤ d.len ∧ (echoMatches pingSeqNum (recvfrom mem d)).1 = true) ↔
      Carries pingSeqNum d := by
  unfold Carries
  constructor
  · rintro ⟨hlen, hmatch⟩
    obtain ⟨hid, hseqno⟩ := hlegible hlen
    unfold echoMatches at hmatch ⊢
    simp only [iecho_recvfrom hlen] at hmatch
    rw [load16_recvfrom (by omega)] at hmatch
    split at hmatch
    · next hidMatch =>
      have hlast := hseqno hidMatch
      rw [load16_recvfrom (by omega)] at hmatch
      refine ⟨hlen, hlast, ?_⟩
      simp only [if_pos hidMatch]
      exact hmatch
    · cases hmatch
  · rintro ⟨hlen, hlast, hmatch⟩
    refine ⟨hlen, ?_⟩
    unfold echoMatches at hmatch ⊢
    simp only [iecho_recvfrom hlen]
    rw [load16_recvfrom (by omega), load16_recvfrom (by omega)]
    exact hmatch

/-! ## The loop -/

/-- The memory before datagram `k`, if `ping_recv` comes that far. -/
def memAt (arrivals : Arrivals) (mem : Memory) : Nat → Memory
  | 0 => mem
  | k + 1 =>
    match arrivals k with
    | none => memAt arrivals mem k
    | some d => recvfrom (memAt arrivals mem k) d

/-- The `while` goes on with the next datagram. -/
def GoesOn (pingSeqNum : BitVec 16) (arrivals : Arrivals) (mem : Memory) (k : Nat) : Prop :=
  ∃ d, arrivals k = some d ∧ 0 < d.len ∧
    ¬ (minLen ≤ d.len ∧ (echoMatches pingSeqNum (recvfrom (memAt arrivals mem k) d)).1 = true)

/-- What `ping_recv` returns if it stops at datagram `k`. -/
def resultAt (arrivals : Arrivals) (k : Nat) : Int :=
  match arrivals k with
  | none => -exitFailure
  | some d => if d.len > 0 then 1 else -exitFailure

theorem recvTurn_goesOn {k : Nat} (h : GoesOn pingSeqNum arrivals mem k) :
    recvTurn pingSeqNum arrivals (k, memAt arrivals mem k) =
      .inl (k + 1, memAt arrivals mem (k + 1)) := by
  obtain ⟨d, hd, hpos, hnot⟩ := h
  simp only [recvTurn, memAt, hd, gt_iff_lt, hpos, if_true]
  split
  · next hlen => rw [if_neg fun hmatch => hnot ⟨hlen, hmatch⟩]
  · rfl

theorem recvTurn_stops {k : Nat} (h : ¬ GoesOn pingSeqNum arrivals mem k) :
    recvTurn pingSeqNum arrivals (k, memAt arrivals mem k) = .inr (resultAt arrivals k) := by
  cases hd : arrivals k with
  | none => simp only [recvTurn, resultAt, hd]
  | some d =>
    by_cases hpos : 0 < d.len
    · have hmatch : minLen ≤ d.len ∧
          (echoMatches pingSeqNum (recvfrom (memAt arrivals mem k) d)).1 = true :=
        not_not.mp fun hnot => h ⟨d, hd, hpos, hnot⟩
      simp only [recvTurn, resultAt, hd, gt_iff_lt, hpos, ge_iff_le, hmatch.1, hmatch.2, if_true]
    · simp only [recvTurn, resultAt, hd, gt_iff_lt, hpos, if_false]

theorem recv_ends_iff {r : Int} : Ends (recvTurn pingSeqNum arrivals) (0, mem) r ↔
    ∃ n, ¬ GoesOn pingSeqNum arrivals mem n ∧ (∀ k < n, GoesOn pingSeqNum arrivals mem k) ∧
      r = resultAt arrivals n :=
  ends_trace (f := fun k => (k, memAt arrivals mem k)) (fun _ => recvTurn_goesOn)
    fun _ => recvTurn_stops

theorem recv_after_iff {n k : Nat} {mem' : Memory} :
    after (recvTurn pingSeqNum arrivals) n (0, mem) = some (k, mem') ↔
      (∀ j < n, GoesOn pingSeqNum arrivals mem j) ∧ k = n ∧ mem' = memAt arrivals mem n := by
  have htrace : after (recvTurn pingSeqNum arrivals) n (0, mem) = some (k, mem') ↔
      (∀ j < n, GoesOn pingSeqNum arrivals mem j) ∧ (k, mem') = (n, memAt arrivals mem n) :=
    after_trace (f := fun k => (k, memAt arrivals mem k)) (fun _ => recvTurn_goesOn)
      fun _ => recvTurn_stops
  rw [Prod.mk.injEq] at htrace
  exact htrace

/-- Each datagram that `ping_recv` comes to is legible. -/
def AllLegible (pingSeqNum : BitVec 16) (arrivals : Arrivals) : Prop :=
  ∀ k, LookingAt pingSeqNum arrivals k → ∀ d, arrivals k = some d → Legible d

theorem goesOn_iff {k : Nat} (h : ∀ d, arrivals k = some d → Legible d) :
    GoesOn pingSeqNum arrivals mem k ↔
      ∃ d, arrivals k = some d ∧ 0 < d.len ∧ ¬ Carries pingSeqNum d := by
  unfold GoesOn
  refine exists_congr fun d => and_congr_right fun hd => and_congr_right fun _ => ?_
  rw [matches_iff (h d hd)]

theorem lookingAt_of_goesOn
    (h : ∀ k, (∀ j < k, GoesOn pingSeqNum arrivals mem j) → ∀ d, arrivals k = some d → Legible d)
    {k : Nat} (hgo : ∀ j < k, GoesOn pingSeqNum arrivals mem j) :
    LookingAt pingSeqNum arrivals k :=
  fun j hj => (goesOn_iff (h j fun i hi => hgo i (by omega))).mp (hgo j hj)

theorem allLegible_iff (mem : Memory) :
    (∀ k, (∀ j < k, GoesOn pingSeqNum arrivals mem j) → ∀ d, arrivals k = some d → Legible d) ↔
      AllLegible pingSeqNum arrivals := by
  constructor
  · intro h k
    induction k using Nat.strong_induction_on with
    | _ k ih =>
      intro hlooking
      refine h k fun j hj => ?_
      have hbefore : LookingAt pingSeqNum arrivals j := fun i hi => hlooking i (by omega)
      exact (goesOn_iff (ih j hj hbefore)).mpr (hlooking j hj)
  · intro h k
    induction k using Nat.strong_induction_on with
    | _ k ih =>
      intro hgo
      refine h k fun j hj => ?_
      have hbefore : ∀ i < j, GoesOn pingSeqNum arrivals mem i := fun i hi => hgo i (by omega)
      exact (goesOn_iff (ih j hj hbefore)).mp (hgo j hj)

theorem InterpretsReceived.allLegible (h : InterpretsReceived pingSeqNum arrivals mem) :
    AllLegible pingSeqNum arrivals := by
  refine (allLegible_iff mem).mp fun k hgo d hd hlen => ?_
  have hafter := recv_after_iff.mpr ⟨hgo, rfl, rfl⟩
  exact (reads_iff hlen).mp (h.reads k k _ hafter d hd hlen) hlen

theorem carries_of_ends_one (h : AllLegible pingSeqNum arrivals)
    (hends : Ends (recvTurn pingSeqNum arrivals) (0, mem) 1) :
    ∃ k d, LookingAt pingSeqNum arrivals k ∧ arrivals k = some d ∧ Carries pingSeqNum d := by
  obtain ⟨n, hstop, hgo, hone⟩ := recv_ends_iff.mp hends
  have hlooking := lookingAt_of_goesOn ((allLegible_iff mem).mpr h) hgo
  unfold resultAt at hone
  split at hone
  · cases hone
  · next d hd =>
    split at hone
    · next hpos =>
      refine ⟨n, d, hlooking, hd, not_not.mp fun hnot => hstop ?_⟩
      exact (goesOn_iff (h n hlooking)).mpr ⟨d, hd, hpos, hnot⟩
    · cases hone

/-- `ping_recv` only interprets received bytes if and only if all the datagrams that it comes to
are legible. -/
theorem interpretsReceived_iff (pingSeqNum : BitVec 16) (arrivals : Arrivals) (mem : Memory) :
    InterpretsReceived pingSeqNum arrivals mem ↔ AllLegible pingSeqNum arrivals := by
  refine ⟨fun h => h.allLegible, fun h => ⟨fun n k mem' hafter d hd hlen => ?_,
    carries_of_ends_one h⟩⟩
  obtain ⟨hgo, rfl, rfl⟩ := recv_after_iff.mp hafter
  exact (reads_iff hlen).mpr ((allLegible_iff mem).mpr h k hgo d hd)

/-! ### Stale bytes -/

/-- A datagram of 32 bytes with some data behind its echo header, and one of 28 bytes that has an
option in its IP header. Neither has the id. -/
def staleBytes : Arrivals
  | 0 => some
    { bytes := 0x45 :: List.replicate 27 0 ++ [0xAF, 0xAF, 0x00, 0x01], beyond := fun _ => 0 }
  | 1 => some { bytes := 0x46 :: List.replicate 27 0, beyond := fun _ => 0 }
  | _ => none

/-- The data of the first datagram is taken for the id and the sequence number of the second
one, which ends before them. -/
theorem staleBytes_not_interpretsReceived :
    pingRecv 2 1 staleBytes (fun _ => 0) = some 1 ∧
      ¬ InterpretsReceived 1 staleBytes fun _ => 0 := by
  refine ⟨by decide, fun h => ?_⟩
  have hlooking : LookingAt 1 staleBytes 1 := by
    intro j hj
    obtain rfl : j = 0 := by omega
    exact ⟨_, rfl, by decide, by decide⟩
  exact absurd (h.allLegible 1 hlooking _ rfl) (by decide)

end FreeLwip.Ip.Ping
