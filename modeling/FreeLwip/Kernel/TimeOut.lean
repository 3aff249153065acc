import Mathlib.Data.BitVec
import Mathlib.Data.Nat.ModEq

/-!
# The tick count and block times (`tasks.c`)

The number `now` of the ticks that have passed is what the code has in `xTickCount` and
`xNumOfOverflows`, both of 32 bits.
-/

namespace FreeLwip.Kernel

abbrev PortTickType := BitVec 32

def portMaxDelay : PortTickType := 0xffffffff

def xTickCount (now : Nat) : PortTickType := BitVec.ofNat 32 now

def xNumOfOverflows (now : Nat) : BitVec 32 := BitVec.ofNat 32 (now / 2 ^ 32)

structure TimeOut where
  xOverflowCount : BitVec 32
  xTimeOnEntering : PortTickType
  deriving DecidableEq, Repr

def vTaskSetTimeOutState (now : Nat) : TimeOut where
  xOverflowCount := xNumOfOverflows now
  xTimeOnEntering := xTickCount now

/-- Whether the block time has expired, and what is left of it. -/
def xTaskCheckForTimeOut (now : Nat) (xTimeOut : TimeOut) (xTicksToWait : PortTickType) :
    Bool × TimeOut × PortTickType :=
  if xTicksToWait = portMaxDelay then
    (false, xTimeOut, xTicksToWait)
  else if xNumOfOverflows now ≠ xTimeOut.xOverflowCount ∧
      xTimeOut.xTimeOnEntering ≤ xTickCount now then
    (true, xTimeOut, xTicksToWait)
  else if xTickCount now - xTimeOut.xTimeOnEntering < xTicksToWait then
    (false, vTaskSetTimeOutState now, xTicksToWait - (xTickCount now - xTimeOut.xTimeOnEntering))
  else
    (true, xTimeOut, xTicksToWait)

theorem xTickCount_sub {start now : Nat} (h : start ≤ now) :
    (xTickCount now - xTickCount start).toNat = (now - start) % 2 ^ 32 := by
  obtain ⟨e, rfl⟩ := Nat.exists_eq_add_of_le h
  unfold xTickCount
  rw [BitVec.toNat_sub, BitVec.toNat_ofNat, BitVec.toNat_ofNat]
  omega

theorem xTickCount_sub_le {start now : Nat} (h : start ≤ now) :
    (xTickCount now - xTickCount start).toNat ≤ now - start := by
  rw [xTickCount_sub h]
  exact Nat.mod_le _ _

/-- A count that has overflowed and caught up again has gone all the way around. -/
theorem wrapped {start now : Nat} (h : start ≤ now)
    (hover : xNumOfOverflows now ≠ xNumOfOverflows start)
    (hcount : xTickCount start ≤ xTickCount now) : 2 ^ 32 ≤ now - start := by
  have hdiv : now / 2 ^ 32 ≠ start / 2 ^ 32 := by
    intro heq
    exact hover (by rw [xNumOfOverflows, xNumOfOverflows, heq])
  rw [xTickCount, xTickCount, BitVec.le_def, BitVec.toNat_ofNat, BitVec.toNat_ofNat] at hcount
  omega

/-- The block time `xTicksToWait` from `xTimeOut` on does not end before `deadline`. -/
def NotBefore (deadline now : Nat) (xTimeOut : TimeOut) (xTicksToWait : PortTickType) : Prop :=
  ∃ start ≤ now, xTimeOut = vTaskSetTimeOutState start ∧ deadline ≤ start + xTicksToWait.toNat

theorem NotBefore.start (now : Nat) (xTicksToWait : PortTickType) :
    NotBefore (now + xTicksToWait.toNat) now (vTaskSetTimeOutState now) xTicksToWait :=
  ⟨now, le_refl _, rfl, le_refl _⟩

theorem NotBefore.later {deadline now now' : Nat} {xTimeOut : TimeOut}
    {xTicksToWait : PortTickType} (h : NotBefore deadline now xTimeOut xTicksToWait)
    (hnow : now ≤ now') : NotBefore deadline now' xTimeOut xTicksToWait := by
  obtain ⟨start, hstart, heq, hdeadline⟩ := h
  exact ⟨start, le_trans hstart hnow, heq, hdeadline⟩

theorem NotBefore.expired {deadline now : Nat} {xTimeOut : TimeOut} {xTicksToWait : PortTickType}
    (h : NotBefore deadline now xTimeOut xTicksToWait)
    (hexpired : (xTaskCheckForTimeOut now xTimeOut xTicksToWait).1 = true) : deadline ≤ now := by
  obtain ⟨start, hstart, rfl, hdeadline⟩ := h
  have hticks := xTicksToWait.isLt
  unfold xTaskCheckForTimeOut vTaskSetTimeOutState at hexpired
  simp only at hexpired
  split at hexpired
  · cases hexpired
  · split at hexpired
    · next hwrap =>
      have := wrapped hstart hwrap.1 hwrap.2
      omega
    · split at hexpired
      · cases hexpired
      · next hlong =>
        rw [BitVec.lt_def] at hlong
        have := xTickCount_sub_le hstart
        omega

theorem NotBefore.left {deadline now : Nat} {xTimeOut : TimeOut} {xTicksToWait : PortTickType}
    (h : NotBefore deadline now xTimeOut xTicksToWait)
    (hleft : (xTaskCheckForTimeOut now xTimeOut xTicksToWait).1 = false) :
    NotBefore deadline now (xTaskCheckForTimeOut now xTimeOut xTicksToWait).2.1
      (xTaskCheckForTimeOut now xTimeOut xTicksToWait).2.2 := by
  have hkeep := h
  obtain ⟨start, hstart, rfl, hdeadline⟩ := h
  unfold xTaskCheckForTimeOut at hleft ⊢
  split
  · exact hkeep
  · next hmax =>
    rw [if_neg hmax] at hleft
    split
    · next hwrap =>
      rw [if_pos hwrap] at hleft
      cases hleft
    · next hwrap =>
      rw [if_neg hwrap] at hleft
      split
      · next hshort =>
        refine ⟨now, le_refl _, rfl, ?_⟩
        have hle := xTickCount_sub_le hstart
        simp only [vTaskSetTimeOutState] at hshort ⊢
        rw [BitVec.toNat_sub_of_le (BitVec.le_of_lt hshort)]
        rw [BitVec.lt_def] at hshort
        omega
      · next hlong =>
        rw [if_neg hlong] at hleft
        cases hleft

theorem checkForTimeOut_left_ne_zero {now : Nat} {xTimeOut xTimeOut' : TimeOut}
    {xTicksToWait left : PortTickType} (hne : xTicksToWait ≠ 0)
    (h : xTaskCheckForTimeOut now xTimeOut xTicksToWait = (false, xTimeOut', left)) :
    left ≠ 0 := by
  unfold xTaskCheckForTimeOut at h
  split at h
  · cases h
    exact hne
  · split at h
    · cases h
    · split at h
      · next hshort =>
        cases h
        intro h0
        have hsub := BitVec.toNat_sub_of_le (BitVec.le_of_lt hshort)
        have hzero : BitVec.toNat (0 : PortTickType) = 0 := rfl
        rw [h0, hzero] at hsub
        rw [BitVec.lt_def] at hshort
        omega
      · cases h

end FreeLwip.Kernel
