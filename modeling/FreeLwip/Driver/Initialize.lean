import FreeLwip.Lib.Loop
import Mathlib.Data.BitVec

/-!
# Waiting for the network (`lwip_main.c`)

`lwip_initialize` polls the interfaces and adds up how often it has found an active one up.
-/

namespace FreeLwip.Driver.Initialize

open Loop

/-- `PHY_COUNT` and `is_interface_active`. The interfaces are an array that an `int` indexes. -/
structure Board where
  phyCount : Nat
  active : Nat → Bool
  fits : phyCount < 2 ^ 31
  someActive : ∃ idx < phyCount, active idx = true

/-- What `netif_is_up` says of interface `idx` in poll `n` is `polls n idx`. -/
abbrev Polls := Nat → Nat → Bool

/-- Both `for` loops: `++count` for each `idx` that passes the test. -/
def countUp (test : Nat → Bool) (phyCount : Nat) (count : BitVec 32) : BitVec 32 :=
  (List.range phyCount).foldl (fun count idx => if test idx then count + 1 else count) count

def Board.activeCount (b : Board) : BitVec 32 := countUp b.active b.phyCount 0

def Board.foundUp (b : Board) (polls : Polls) (n idx : Nat) : Bool := b.active idx && polls n idx

/-- The condition of the `while`. -/
def keepsWaiting (waitForAll activeCount upCount : BitVec 32) : Bool :=
  (waitForAll != 0 && activeCount != upCount) || (waitForAll == 0 && upCount == 0)

/-- One turn of the `while`, with the number of polls made so far. -/
def poll (b : Board) (waitForAll : BitVec 32) (polls : Polls) :
    Nat × BitVec 32 → (Nat × BitVec 32) ⊕ Nat
  | (n, upCount) =>
    if keepsWaiting waitForAll b.activeCount upCount then
      .inl (n + 1, countUp (b.foundUp polls n) b.phyCount upCount)
    else
      .inr n

/-- `lwip_initialize` returns after `n` polls. -/
def Returns (b : Board) (waitForAll : BitVec 32) (polls : Polls) (n : Nat) : Prop :=
  Ends (poll b waitForAll polls) (0, 0) n

/-! ## What it is to wait for -/

variable (b : Board) (polls : Polls)

def AllUp (n : Nat) : Prop := ∀ idx < b.phyCount, b.active idx = true → polls n idx = true

def SomeUp (n : Nat) : Prop := ∃ idx < b.phyCount, b.active idx = true ∧ polls n idx = true

def Awaited (waitForAll : BitVec 32) (n : Nat) : Prop :=
  if waitForAll ≠ 0 then AllUp b polls n else SomeUp b polls n

def IsFirst (P : Nat → Prop) (n : Nat) : Prop := P n ∧ ∀ k < n, ¬ P k

structure WaitsRight (waitForAll : BitVec 32) : Prop where
  afterFirst : ∀ n, Returns b waitForAll polls n ↔
    ∃ k, n = k + 1 ∧ IsFirst (Awaited b polls waitForAll) k
  onceUp : (∃ k, ∀ n ≥ k, AllUp b polls n) → ∃ n, Returns b waitForAll polls n

theorem IsFirst.unique {P : Nat → Prop} {m n : Nat} (hm : IsFirst P m) (hn : IsFirst P n) :
    m = n := by
  have hmn : ¬ m < n := fun hlt => hn.2 m hlt hm.1
  have hnm : ¬ n < m := fun hlt => hm.2 n hlt hn.1
  omega

theorem exists_isFirst {P : Nat → Prop} {n : Nat} (h : P n) : ∃ k ≤ n, IsFirst P k := by
  classical
  have hex : ∃ k, P k := ⟨n, h⟩
  exact ⟨Nat.find hex, Nat.find_min' hex h, Nat.find_spec hex, fun k hk => Nat.find_min hex hk⟩

/-! ## The counters -/

/-- How many active interfaces there are. -/
def Board.actives : Nat := (List.range b.phyCount).countP b.active

/-- How many of them poll `n` finds up. -/
def ups (n : Nat) : Nat := (List.range b.phyCount).countP (b.foundUp polls n)

/-- How often the first `n` polls find an active interface up. -/
def sightings : Nat → Nat
  | 0 => 0
  | n + 1 => sightings n + ups b polls n

theorem countUp_eq (test : Nat → Bool) (phyCount : Nat) (count : Nat) :
    countUp test phyCount (BitVec.ofNat 32 count) =
      BitVec.ofNat 32 (count + (List.range phyCount).countP test) := by
  unfold countUp
  generalize List.range phyCount = idxs
  induction idxs generalizing count with
  | nil => rfl
  | cons idx idxs ih =>
    by_cases h : test idx = true
    · rw [List.foldl_cons, if_pos h, List.countP_cons_of_pos h]
      have := ih (count + 1)
      rw [show BitVec.ofNat 32 count + 1 = BitVec.ofNat 32 (count + 1) by
        rw [BitVec.ofNat_add]; rfl, this]
      congr 1
      omega
    · rw [List.foldl_cons, if_neg h, List.countP_cons_of_neg h]
      exact ih count

theorem activeCount_eq : b.activeCount = BitVec.ofNat 32 b.actives := by
  have h := countUp_eq b.active b.phyCount 0
  rwa [Nat.zero_add] at h

theorem actives_lt : b.actives < 2 ^ 31 := by
  have hle : b.actives ≤ _ := List.countP_le_length
  rw [List.length_range] at hle
  have := b.fits
  omega

theorem ups_le (n : Nat) : ups b polls n ≤ b.actives :=
  List.countP_mono_left fun _ _ h => (Bool.and_eq_true_iff.mp h).1

theorem ups_pos_iff (n : Nat) : 0 < ups b polls n ↔ SomeUp b polls n := by
  unfold ups SomeUp
  rw [List.countP_pos_iff]
  simp only [List.mem_range, Board.foundUp, Bool.and_eq_true]

theorem ups_eq_iff (n : Nat) : ups b polls n = b.actives ↔ AllUp b polls n := by
  have hups : ups b polls n = ((List.range b.phyCount).filter b.active).countP (polls n) := by
    rw [List.countP_filter]
    exact List.countP_congr fun idx _ => by simp [Board.foundUp, and_comm]
  rw [hups, Board.actives, List.countP_eq_length_filter (p := b.active), List.countP_eq_length]
  simp only [List.mem_filter, List.mem_range, and_imp]
  rfl

/-! ## The loop -/

/-- Has the `while` to go on after `n` polls? -/
def GoesOn (waitForAll : BitVec 32) (n : Nat) : Prop :=
  if waitForAll ≠ 0 then sightings b polls n % 2 ^ 32 ≠ b.actives
  else sightings b polls n % 2 ^ 32 = 0

theorem keepsWaiting_iff (waitForAll : BitVec 32) (n : Nat) :
    keepsWaiting waitForAll b.activeCount (BitVec.ofNat 32 (sightings b polls n)) = true ↔
      GoesOn b polls waitForAll n := by
  have hactives := actives_lt b
  have hzero : BitVec.ofNat 32 (sightings b polls n) = 0 ↔
      sightings b polls n % 2 ^ 32 = 0 := by
    rw [← BitVec.toNat_inj, BitVec.toNat_ofNat]
    rfl
  have hcount : BitVec.ofNat 32 b.actives = BitVec.ofNat 32 (sightings b polls n) ↔
      sightings b polls n % 2 ^ 32 = b.actives := by
    rw [← BitVec.toNat_inj, BitVec.toNat_ofNat, BitVec.toNat_ofNat,
      Nat.mod_eq_of_lt (show b.actives < 2 ^ 32 by omega)]
    exact eq_comm
  unfold keepsWaiting GoesOn
  rw [activeCount_eq]
  by_cases hw : waitForAll = 0#32
  · simpa [hw] using hzero
  · simpa [hw] using not_congr hcount

theorem returns_iff (waitForAll : BitVec 32) (n : Nat) :
    Returns b waitForAll polls n ↔ IsFirst (fun k => ¬ GoesOn b polls waitForAll k) n := by
  have hgo : ∀ k, GoesOn b polls waitForAll k →
      poll b waitForAll polls (k, BitVec.ofNat 32 (sightings b polls k)) =
        .inl (k + 1, BitVec.ofNat 32 (sightings b polls (k + 1))) := by
    intro k hk
    simp only [poll, (keepsWaiting_iff b polls waitForAll k).mpr hk, if_true, countUp_eq]
    rfl
  have hout : ∀ k, ¬ GoesOn b polls waitForAll k →
      poll b waitForAll polls (k, BitVec.ofNat 32 (sightings b polls k)) = .inr k := by
    intro k hk
    simp only [poll, mt (keepsWaiting_iff b polls waitForAll k).mp hk, if_false,
      Bool.false_eq_true]
  have htrace := ends_trace (f := fun k => (k, BitVec.ofNat 32 (sightings b polls k))) hgo hout
    (r := n)
  refine Iff.trans htrace ⟨?_, fun h => ⟨n, h.1, fun k hk => not_not.mp (h.2 k hk), rfl⟩⟩
  rintro ⟨k, hk, hbefore, rfl⟩
  exact ⟨hk, fun j hj => not_not.mpr (hbefore j hj)⟩

/-! ## Waiting for one interface -/

theorem sightings_eq_zero {n : Nat} (h : ∀ k < n, ¬ SomeUp b polls k) :
    sightings b polls n = 0 := by
  induction n with
  | zero => rfl
  | succ n ih =>
    have hups : ¬ 0 < ups b polls n := mt (ups_pos_iff b polls n).mp (h n (by omega))
    have hbefore := ih fun k hk => h k (by omega)
    rw [sightings]
    omega

theorem not_someUp_of_goesOn {n : Nat} (h : ∀ k ≤ n, sightings b polls k % 2 ^ 32 = 0)
    {k : Nat} (hk : k < n) : ¬ SomeUp b polls k := by
  have hk0 := h k (by omega)
  have hk1 := h (k + 1) (by omega)
  rw [sightings] at hk1
  rw [← ups_pos_iff]
  have := ups_le b polls k
  have := actives_lt b
  omega

theorem waitsRight_zero : WaitsRight b polls 0 := by
  have hafter : ∀ n, Returns b 0 polls n ↔ ∃ k, n = k + 1 ∧ IsFirst (SomeUp b polls) k := by
    intro n
    rw [returns_iff]
    simp only [GoesOn, ne_eq, not_true_eq_false, if_false]
    constructor
    · rintro ⟨hleft, hbefore⟩
      obtain _ | k := n
      · exact absurd rfl hleft
      · have hgo : ∀ j ≤ k, sightings b polls j % 2 ^ 32 = 0 :=
          fun j hj => not_not.mp (hbefore j (by omega))
        refine ⟨k, rfl, ?_, fun j hj => not_someUp_of_goesOn b polls hgo hj⟩
        have hk := hgo k le_rfl
        rw [sightings] at hleft
        rw [← ups_pos_iff]
        omega
    · rintro ⟨k, rfl, hup, hbefore⟩
      have hnone := sightings_eq_zero b polls hbefore
      have hpos := (ups_pos_iff b polls k).mpr hup
      have hle := ups_le b polls k
      have hlt := actives_lt b
      refine ⟨?_, fun j hj => not_not.mpr ?_⟩
      · show ¬ (sightings b polls k + ups b polls k) % 2 ^ 32 = 0
        omega
      · rw [sightings_eq_zero b polls fun i hi => hbefore i (by omega), Nat.zero_mod]
  have hawaited : Awaited b polls 0 = SomeUp b polls := by
    funext n
    simp [Awaited]
  constructor
  · rw [hawaited]
    exact hafter
  · rintro ⟨k, hk⟩
    obtain ⟨idx, hlt, hactive⟩ := b.someActive
    obtain ⟨j, -, hj⟩ := exists_isFirst (P := SomeUp b polls) (n := k)
      ⟨idx, hlt, hactive, hk k le_rfl idx hlt hactive⟩
    exact ⟨j + 1, (hafter (j + 1)).mpr ⟨j, rfl, hj⟩⟩

/-! ## Waiting for all of them -/

/-- The active interfaces come up together. Until a poll finds all of them up, the sightings of
the polls before never add up to as many as there are interfaces, and at that poll they are
none, or as many as a 32-bit counter cannot tell from none. -/
structure UpTogether : Prop where
  notEqual : ∀ n, (∀ k < n, ¬ AllUp b polls k) → sightings b polls n % 2 ^ 32 ≠ b.actives
  zero : ∀ n, IsFirst (AllUp b polls) n → sightings b polls n % 2 ^ 32 = 0

theorem waitsRight_all_iff {waitForAll : BitVec 32} (hw : waitForAll ≠ 0) :
    WaitsRight b polls waitForAll ↔ UpTogether b polls := by
  have hawaited : Awaited b polls waitForAll = AllUp b polls := by
    funext n
    simp only [Awaited, if_pos hw]
  have hreturns : ∀ n, Returns b waitForAll polls n ↔
      IsFirst (fun k => sightings b polls k % 2 ^ 32 = b.actives) n := by
    intro n
    rw [returns_iff]
    simp only [GoesOn, if_pos hw, ne_eq, not_not]
  have hlt := actives_lt b
  constructor
  · rintro ⟨hafter, -⟩
    rw [hawaited] at hafter
    constructor
    · intro n hnone hequal
      obtain ⟨m, hm, hfirst⟩ :=
        exists_isFirst (P := fun k => sightings b polls k % 2 ^ 32 = b.actives) hequal
      obtain ⟨k, rfl, hall, -⟩ := (hafter m).mp ((hreturns m).mpr hfirst)
      exact hnone k (by omega) hall
    · intro n hfirst
      have hleft : sightings b polls (n + 1) % 2 ^ 32 = b.actives :=
        ((hreturns (n + 1)).mp ((hafter (n + 1)).mpr ⟨n, rfl, hfirst⟩)).1
      rw [sightings, (ups_eq_iff b polls n).mpr hfirst.1] at hleft
      omega
  · rintro ⟨hnotEqual, hzero⟩
    have hfirst : ∀ k, IsFirst (AllUp b polls) k →
        IsFirst (fun j => sightings b polls j % 2 ^ 32 = b.actives) (k + 1) := by
      intro k hk
      refine ⟨?_, fun j hj => hnotEqual j fun i hi => hk.2 i (by omega)⟩
      have hk0 := hzero k hk
      show (sightings b polls k + ups b polls k) % 2 ^ 32 = b.actives
      rw [(ups_eq_iff b polls k).mpr hk.1]
      omega
    constructor
    · intro n
      rw [hreturns, hawaited]
      constructor
      · intro hn
        have hex : ∃ j < n, AllUp b polls j := by
          by_contra hnone
          push Not at hnone
          exact hnotEqual n hnone hn.1
        obtain ⟨j, hj, hall⟩ := hex
        obtain ⟨k, hk, hfirstUp⟩ := exists_isFirst hall
        exact ⟨k, hn.unique (hfirst k hfirstUp), hfirstUp⟩
      · rintro ⟨k, rfl, hk⟩
        exact hfirst k hk
    · rintro ⟨k, hk⟩
      obtain ⟨j, -, hj⟩ := exists_isFirst (hk k le_rfl)
      exact ⟨j + 1, (hreturns (j + 1)).mpr (hfirst j hj)⟩

/-- `lwip_initialize` waits for the right condition: always without `waitForAll`, and with it if
and only if the interfaces come up together. -/
theorem waitsRight_iff (waitForAll : BitVec 32) :
    WaitsRight b polls waitForAll ↔ waitForAll = 0 ∨ UpTogether b polls := by
  by_cases hw : waitForAll = 0
  · subst hw
    exact ⟨fun _ => .inl rfl, fun _ => waitsRight_zero b polls⟩
  · rw [waitsRight_all_iff b polls hw]
    exact ⟨.inr, fun h => h.resolve_left hw⟩

/-! ## Two interfaces -/

def twoPhys : Board where
  phyCount := 2
  active := fun _ => true
  fits := by decide
  someActive := ⟨0, by decide, rfl⟩

/-- The second interface never comes up, or is up from the second poll on. -/
def onlyFirstUp : Polls := fun _ idx => idx == 0

def secondLater : Polls := fun n idx => idx == 0 || 1 ≤ n

/-- `lwip_initialize` counts the first interface twice and returns without the second one; with
the second one up later it counts up to one, three, five, and never meets the two. -/
theorem twoPhys_not_waitsRight :
    ¬ WaitsRight twoPhys onlyFirstUp 1 ∧ ¬ WaitsRight twoPhys secondLater 1 := by
  rw [waitsRight_all_iff _ _ (by decide), waitsRight_all_iff _ _ (by decide)]
  constructor
  · intro h
    have hnone : ∀ n, ¬ AllUp twoPhys onlyFirstUp n :=
      fun n hall => absurd (hall 1 (by decide) rfl) Bool.false_ne_true
    exact h.notEqual 2 (fun k _ => hnone k) (by decide)
  · intro h
    have hfirst : IsFirst (AllUp twoPhys secondLater) 1 := by
      refine ⟨fun idx _ _ => by simp [secondLater], fun k hk hall => ?_⟩
      have hdown := hall 1 (by decide) rfl
      simp [secondLater] at hdown
      omega
    exact absurd (h.zero 1 hfirst) (by decide)

end FreeLwip.Driver.Initialize
