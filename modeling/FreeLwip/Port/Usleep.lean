import FreeLwip.Lib.Loop
import Mathlib.Data.BitVec
import Mathlib.Algebra.Order.Field.Rat
import Mathlib.Tactic.FieldSimp
import Mathlib.Tactic.Ring

/-!
# Sleeping (`alt_usleep.c`)

`ALT_USLEEP` delays the task by whole ticks, in portions that `vTaskDelay` can take, and sleeps
the rest of the microseconds in a busy loop.
-/

namespace FreeLwip.Port.Usleep

open Loop

/-- The number of microseconds in a second. -/
def altUs : BitVec 32 := 1000000

def taskSchedulerRunning : BitVec 32 := 1

/-- The arguments of the calls of `vTaskDelay`, and that of `alt_busy_sleep`. -/
structure Sleep where
  delays : List (BitVec 32)
  busy : BitVec 32
  deriving DecidableEq

/-- The compiler's division; no result by zero. -/
def divide (a b : BitVec 32) : Option (BitVec 32) := if b = 0 then none else some (a / b)

def remainder (a b : BitVec 32) : Option (BitVec 32) := if b = 0 then none else some (a % b)

/-- One turn of the `while`, and the call after it. -/
def delayTurn : BitVec 32 × List (BitVec 32) → (BitVec 32 × List (BitVec 32)) ⊕ List (BitVec 32)
  | (ticks, delays) =>
    if ticks > 0xffff then
      .inl (ticks - 0xffff, delays ++ [0xffff])
    else
      .inr (delays ++ [(ticks.setWidth 16).setWidth 32])

def altUsleep (fuel : Nat) (schedulerState tickRate us : BitVec 32) : Option Sleep :=
  if schedulerState = 0 then
    some { delays := [], busy := us }
  else do
    let ticks := (us / altUs) * tickRate + ((us % altUs) * tickRate) / altUs
    let delays ← run delayTurn fuel (ticks, [])
    let tick ← divide altUs tickRate
    let busy ← remainder us tick
    some { delays := delays, busy := busy }

/-! ## What is requested -/

def Sleep.ticks (r : Sleep) : Nat := (r.delays.map BitVec.toNat).sum

/-- The whole delay in microseconds. -/
def Sleep.micros (r : Sleep) (tickRate : BitVec 32) : ℚ :=
  r.ticks * 1000000 / tickRate.toNat + r.busy.toNat

structure IsFullDelay (tickRate us : BitVec 32) (r : Sleep) : Prop where
  delays : ∀ d ∈ r.delays, d ≤ 0xffff
  atLeast : us.toNat ≤ r.micros tickRate
  lessThanOneMore : r.micros tickRate < us.toNat + 1000000 / tickRate.toNat

/-- `ALT_USLEEP` comes to an end, without a division by zero, and has requested the delay. -/
def SleepsFully (tickRate us : BitVec 32) : Prop :=
  ∃ fuel r, altUsleep fuel taskSchedulerRunning tickRate us = some r ∧ IsFullDelay tickRate us r

/-! ## The delays -/

variable {ticks tickRate us : BitVec 32} {delays : List (BitVec 32)}

/-- What the portions so far and the ticks to go come to. -/
def Portions (ticks : Nat) (s : BitVec 32 × List (BitVec 32)) : Prop :=
  (s.2.map BitVec.toNat).sum + s.1.toNat = ticks ∧ ∀ d ∈ s.2, d ≤ 0xffff

theorem delayTurn_portions {n : Nat} {s t : BitVec 32 × List (BitVec 32)} (h : Portions n s)
    (hturn : delayTurn s = .inl t) : Portions n t ∧ t.1.toNat < s.1.toNat := by
  obtain ⟨ticks, delays⟩ := s
  simp only [delayTurn] at hturn
  split at hturn
  · next hmore =>
    cases hturn
    have hlt : 0xffff < ticks.toNat := BitVec.lt_def.mp hmore
    have hsub : (ticks - 0xffff).toNat = ticks.toNat - 0xffff :=
      BitVec.toNat_sub_of_le (BitVec.le_of_lt hmore)
    obtain ⟨hsum, hall⟩ := h
    refine ⟨⟨?_, fun d hd => ?_⟩, ?_⟩
    · simp only [List.map_append, List.sum_append, hsub] at hsum ⊢
      simp
      omega
    · rcases List.mem_append.mp hd with hd | hd
      · exact hall d hd
      · rw [List.mem_singleton.mp hd]
        exact BitVec.le_refl _
    · simp only [hsub]
      omega
  · cases hturn

theorem delayTurn_last {n : Nat} {s : BitVec 32 × List (BitVec 32)} {r : List (BitVec 32)}
    (h : Portions n s) (hturn : delayTurn s = .inr r) :
    (r.map BitVec.toNat).sum = n ∧ ∀ d ∈ r, d ≤ 0xffff := by
  obtain ⟨ticks, delays⟩ := s
  simp only [delayTurn] at hturn
  split at hturn
  · cases hturn
  · next hlast =>
    cases hturn
    have hle : ticks.toNat ≤ 0xffff := BitVec.le_def.mp (BitVec.not_lt.mp hlast)
    have hcast : (ticks.setWidth 16).setWidth 32 = ticks := by
      apply BitVec.eq_of_toNat_eq
      rw [BitVec.toNat_setWidth, BitVec.toNat_setWidth]
      omega
    obtain ⟨hsum, hall⟩ := h
    rw [hcast]
    refine ⟨by simpa using hsum, fun d hd => ?_⟩
    rcases List.mem_append.mp hd with hd | hd
    · exact hall d hd
    · rw [List.mem_singleton.mp hd]
      exact BitVec.not_lt.mp hlast

theorem delays_end (ticks : BitVec 32) :
    ∃ delays, Ends delayTurn (ticks, []) delays ∧ (delays.map BitVec.toNat).sum = ticks.toNat ∧
      ∀ d ∈ delays, d ≤ 0xffff := by
  have hstart : Portions ticks.toNat (ticks, []) := ⟨by simp, by simp⟩
  obtain ⟨delays, hends⟩ := ends_of_measure (I := Portions ticks.toNat) (fun s => s.1.toNat)
    (fun s t => delayTurn_portions) hstart
  exact ⟨delays, hends, hends.post (fun s t hs hturn => (delayTurn_portions hs hturn).1)
    (fun s r => delayTurn_last) hstart⟩

/-! ## The arithmetic -/

def ticksOf (tickRate us : BitVec 32) : BitVec 32 :=
  (us / altUs) * tickRate + ((us % altUs) * tickRate) / altUs

def busyOf (tickRate us : BitVec 32) : BitVec 32 := us % (altUs / tickRate)

theorem tick_toNat (tickRate : BitVec 32) :
    (altUs / tickRate).toNat = 1000000 / tickRate.toNat :=
  BitVec.toNat_udiv ..

theorem altUsleep_eq (hpos : 0 < tickRate) (hle : tickRate ≤ altUs) (fuel : Nat)
    (us : BitVec 32) :
    altUsleep fuel taskSchedulerRunning tickRate us =
      (run delayTurn fuel (ticksOf tickRate us, [])).map fun delays =>
        { delays := delays, busy := busyOf tickRate us } := by
  have hrate : tickRate ≠ 0 := by
    rintro rfl
    exact absurd hpos (by decide)
  have htick : altUs / tickRate ≠ 0 := by
    intro hzero
    have hlt : 0 < (altUs / tickRate).toNat := by
      rw [tick_toNat]
      exact Nat.div_pos (BitVec.le_def.mp hle) (BitVec.lt_def.mp hpos)
    rw [hzero] at hlt
    exact absurd hlt (by decide)
  have hdivide : divide altUs tickRate = some (altUs / tickRate) := if_neg hrate
  have hremainder : remainder us (altUs / tickRate) = some (busyOf tickRate us) := if_neg htick
  unfold altUsleep
  rw [if_neg (by decide)]
  simp only [hdivide, hremainder, Option.bind_eq_bind, Option.bind_some]
  change (run delayTurn fuel (ticksOf tickRate us, [])).bind _ = _
  cases run delayTurn fuel (ticksOf tickRate us, []) <;> rfl

theorem ticksOf_toNat (hle : tickRate ≤ altUs) (us : BitVec 32) :
    (ticksOf tickRate us).toNat =
      us.toNat / 1000000 * tickRate.toNat +
        us.toNat % 1000000 * tickRate.toNat % 2 ^ 32 / 1000000 := by
  have hus := us.isLt
  have hrate : tickRate.toNat ≤ 1000000 := BitVec.le_def.mp hle
  have hquot : us.toNat / 1000000 ≤ 4294 := by omega
  have hprod : us.toNat / 1000000 * tickRate.toNat ≤ 4294 * 1000000 :=
    Nat.mul_le_mul hquot hrate
  unfold ticksOf altUs
  rw [BitVec.toNat_add, BitVec.toNat_mul, BitVec.toNat_udiv, BitVec.toNat_udiv, BitVec.toNat_mul,
    BitVec.toNat_umod]
  change (us.toNat / 1000000 * tickRate.toNat % 2 ^ 32 +
    us.toNat % 1000000 * tickRate.toNat % 2 ^ 32 / 1000000) % 2 ^ 32 = _
  omega

theorem altUsleep_ends (hpos : 0 < tickRate) (hle : tickRate ≤ altUs) (us : BitVec 32) :
    ∃ r, (∃ fuel, altUsleep fuel taskSchedulerRunning tickRate us = some r) ∧
      (∀ fuel x, altUsleep fuel taskSchedulerRunning tickRate us = some x → x = r) ∧
      r.ticks = (ticksOf tickRate us).toNat ∧ r.busy = busyOf tickRate us ∧
      ∀ d ∈ r.delays, d ≤ 0xffff := by
  obtain ⟨delays, hends, hsum, hall⟩ := delays_end (ticksOf tickRate us)
  obtain ⟨fuel, hrun⟩ := hends
  refine ⟨{ delays := delays, busy := busyOf tickRate us }, ⟨fuel, ?_⟩, fun more x hx => ?_, hsum,
    rfl, hall⟩
  · rw [altUsleep_eq hpos hle, hrun]
    rfl
  · rw [altUsleep_eq hpos hle] at hx
    obtain ⟨others, hothers, rfl⟩ := Option.map_eq_some_iff.mp hx
    rw [Ends.unique ⟨more, hothers⟩ ⟨fuel, hrun⟩]

theorem isFullDelay_iff (hpos : 0 < tickRate) {r : Sleep} (hall : ∀ d ∈ r.delays, d ≤ 0xffff) :
    IsFullDelay tickRate us r ↔
      us.toNat * tickRate.toNat ≤ r.ticks * 1000000 + r.busy.toNat * tickRate.toNat ∧
        r.ticks * 1000000 + r.busy.toNat * tickRate.toNat <
          us.toNat * tickRate.toNat + 1000000 := by
  have hrate : (0 : ℚ) < tickRate.toNat := by exact_mod_cast BitVec.lt_def.mp hpos
  have hmicros : r.micros tickRate =
      ((r.ticks * 1000000 + r.busy.toNat * tickRate.toNat : Nat) : ℚ) / tickRate.toNat := by
    rw [Sleep.micros]
    push_cast
    field_simp
  have hnext : (us.toNat : ℚ) + 1000000 / tickRate.toNat =
      ((us.toNat * tickRate.toNat + 1000000 : Nat) : ℚ) / tickRate.toNat := by
    push_cast
    field_simp
  have hlow : (us.toNat : ℚ) ≤ r.micros tickRate ↔
      us.toNat * tickRate.toNat ≤ r.ticks * 1000000 + r.busy.toNat * tickRate.toNat := by
    rw [hmicros, le_div_iff₀ hrate]
    exact_mod_cast Iff.rfl
  have hhigh : r.micros tickRate < us.toNat + 1000000 / tickRate.toNat ↔
      r.ticks * 1000000 + r.busy.toNat * tickRate.toNat <
        us.toNat * tickRate.toNat + 1000000 := by
    rw [hmicros, hnext, div_lt_div_iff_of_pos_right hrate]
    exact_mod_cast Iff.rfl
  exact ⟨fun h => ⟨hlow.mp h.atLeast, hhigh.mp h.lessThanOneMore⟩,
    fun h => ⟨hall, hlow.mpr h.1, hhigh.mpr h.2⟩⟩

theorem busy_lt {u t : Nat} (ht : 0 < t) (hle : t ≤ 1000000) :
    u % (1000000 / t) * t < 1000000 := by
  have hlt : u % (1000000 / t) < 1000000 / t := Nat.mod_lt _ (Nat.div_pos hle ht)
  calc u % (1000000 / t) * t
      < 1000000 / t * t := Nat.mul_lt_mul_of_pos_right hlt ht
    _ ≤ 1000000 := Nat.div_mul_le_self 1000000 t

theorem bounds_iff {u t c : Nat} (hc : c < 1000000) :
    (u * t ≤ (u / 1000000 * t + u % 1000000 * t % 2 ^ 32 / 1000000) * 1000000 + c ∧
      (u / 1000000 * t + u % 1000000 * t % 2 ^ 32 / 1000000) * 1000000 + c < u * t + 1000000) ↔
      u % 1000000 * t < 2 ^ 32 ∧ u * t % 1000000 ≤ c := by
  have hsplit : u * t = u / 1000000 * t * 1000000 + u % 1000000 * t := by
    calc u * t = (1000000 * (u / 1000000) + u % 1000000) * t := by rw [Nat.div_add_mod]
      _ = u / 1000000 * t * 1000000 + u % 1000000 * t := by ring
  rw [hsplit]
  generalize u / 1000000 * t = k
  generalize u % 1000000 * t = p
  omega

theorem sleepsFully_iff_bounds (hpos : 0 < tickRate) (hle : tickRate ≤ altUs) (us : BitVec 32) :
    SleepsFully tickRate us ↔
      us.toNat * tickRate.toNat ≤
          (ticksOf tickRate us).toNat * 1000000 + (busyOf tickRate us).toNat * tickRate.toNat ∧
        (ticksOf tickRate us).toNat * 1000000 + (busyOf tickRate us).toNat * tickRate.toNat <
          us.toNat * tickRate.toNat + 1000000 := by
  obtain ⟨r, ⟨fuel, hrun⟩, hunique, hticks, hbusy, hall⟩ := altUsleep_ends hpos hle us
  have hfull : SleepsFully tickRate us ↔ IsFullDelay tickRate us r := by
    constructor
    · rintro ⟨more, x, hx, hfull⟩
      exact hunique more x hx ▸ hfull
    · exact fun hfull => ⟨fuel, r, hrun, hfull⟩
  rw [hfull, isFullDelay_iff hpos hall, hticks, hbusy]

/-- The product in the second summand of the ticks fits 32 bits, and the busy sleep makes up for
the part of a tick that the ticks leave. -/
def RestCovered (tickRate us : BitVec 32) : Prop :=
  us.toNat % 1000000 * tickRate.toNat < 2 ^ 32 ∧
    us.toNat * tickRate.toNat % 1000000 ≤
      us.toNat % (1000000 / tickRate.toNat) * tickRate.toNat

instance (tickRate us : BitVec 32) : Decidable (RestCovered tickRate us) :=
  inferInstanceAs (Decidable (_ ∧ _))

/-- A tick of whole microseconds is enough, when there are not too many of them. -/
theorem restCovered_of_dvd (hdvd : tickRate.toNat ∣ 1000000) (hle : tickRate.toNat ≤ 4294)
    (us : BitVec 32) : RestCovered tickRate us := by
  have hrest : us.toNat % 1000000 ≤ 999999 := by omega
  refine ⟨lt_of_le_of_lt (Nat.mul_le_mul hrest hle) (by decide), le_of_eq ?_⟩
  obtain ⟨n, hn⟩ := hdvd
  have hpos : 0 < tickRate.toNat := Nat.pos_of_ne_zero fun h0 => by
    rw [h0] at hn
    omega
  rw [hn, Nat.mul_div_cancel_left n hpos, Nat.mul_comm tickRate.toNat n, Nat.mul_mod_mul_right]

/-- `ALT_USLEEP` requests the full delay if and only if the rest is covered. -/
theorem sleepsFully_iff (hpos : 0 < tickRate) (hle : tickRate ≤ altUs) (us : BitVec 32) :
    SleepsFully tickRate us ↔ RestCovered tickRate us := by
  have hbusy : (busyOf tickRate us).toNat = us.toNat % (1000000 / tickRate.toNat) := by
    rw [busyOf, BitVec.toNat_umod, tick_toNat]
  rw [sleepsFully_iff_bounds hpos hle, ticksOf_toNat hle, hbusy]
  exact bounds_iff (busy_lt (BitVec.lt_def.mp hpos) (BitVec.le_def.mp hle))

/-- 2.5 seconds at 1000 ticks per second. -/
theorem sleepsFully_1000 : SleepsFully 1000 2500000 :=
  (sleepsFully_iff (by decide) (by decide) 2500000).mpr (by decide)

/-- At 10000 ticks per second the product wraps for half a second, which becomes 705 ticks. At
300 ticks per second 3333 microseconds are no tick, and no rest either. -/
theorem not_sleepsFully :
    altUsleep 1 taskSchedulerRunning 10000 500000 = some { delays := [705], busy := 0 } ∧
      ¬ SleepsFully 10000 500000 ∧
      altUsleep 1 taskSchedulerRunning 300 3333 = some { delays := [0], busy := 0 } ∧
      ¬ SleepsFully 300 3333 := by
  rw [sleepsFully_iff_bounds (by decide) (by decide),
    sleepsFully_iff_bounds (by decide) (by decide)]
  decide

end FreeLwip.Port.Usleep
