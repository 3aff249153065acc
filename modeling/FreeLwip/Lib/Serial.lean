import Mathlib.Data.BitVec
import Mathlib.Data.Int.ModEq

/-!
# Sequence numbers that wrap around

The positions of a stream are natural numbers, and its sequence numbers are these positions
counted from some first number, in `w` bits. The order of two sequence numbers is the sign
of their difference. It is the order of the positions as long as these are less than half
of all the numbers apart.
-/

namespace FreeLwip.Serial

variable {w : Nat}

def Lt (a b : BitVec w) : Prop := (a - b).toInt < 0

def Le (a b : BitVec w) : Prop := (a - b).toInt ≤ 0

-- Two numbers half of all numbers apart differ by the same, whichever is the first: `Lt` holds of
-- them both ways, and `Gt` neither way.
def Gt (a b : BitVec w) : Prop := 0 < (a - b).toInt

def Ge (a b : BitVec w) : Prop := 0 ≤ (a - b).toInt

/-- Whether `b ≤ a ≤ c`. -/
def Between (a b c : BitVec w) : Prop := Ge a b ∧ Le a c

instance (a b : BitVec w) : Decidable (Lt a b) := inferInstanceAs (Decidable (_ < _))

instance (a b : BitVec w) : Decidable (Le a b) := inferInstanceAs (Decidable (_ ≤ _))

instance (a b : BitVec w) : Decidable (Gt a b) := inferInstanceAs (Decidable (_ < _))

instance (a b : BitVec w) : Decidable (Ge a b) := inferInstanceAs (Decidable (_ ≤ _))

instance (a b c : BitVec w) : Decidable (Between a b c) := inferInstanceAs (Decidable (_ ∧ _))

/-- The sequence number of the position `k`. -/
def number (first : BitVec w) (k : Nat) : BitVec w := first + BitVec.ofNat w k

/-- Positions whose numbers can be compared. -/
def Near (w j k : Nat) : Prop := j < k + 2 ^ (w - 1) ∧ k < j + 2 ^ (w - 1)

theorem Near.symm {j k : Nat} (h : Near w j k) : Near w k j := ⟨h.2, h.1⟩

theorem number_add (first : BitVec w) (k m : Nat) :
    number first k + BitVec.ofNat w m = number first (k + m) := by
  rw [number, number, BitVec.ofNat_add, BitVec.add_assoc]

theorem number_succ (first : BitVec w) (k : Nat) : number first k + 1#w = number first (k + 1) :=
  number_add first k 1

theorem number_succ_sub (first : BitVec w) (k : Nat) :
    number first (k + 1) - 1#w = number first k := by
  rw [← number_succ, BitVec.add_sub_cancel]

theorem number_pred (first : BitVec w) (k : Nat) :
    number (first - 1#w) (k + 1) = number first k := by
  rw [number, number, BitVec.ofNat_add, BitVec.add_comm (BitVec.ofNat w k), ← BitVec.add_assoc,
    BitVec.sub_add_cancel]

theorem number_sub {first : BitVec w} {j k : Nat} (h : j ≤ k) :
    number first k - number first j = BitVec.ofNat w (k - j) := by
  obtain ⟨m, rfl⟩ := Nat.exists_eq_add_of_le h
  rw [← number_add, Nat.add_sub_cancel_left, BitVec.add_comm, BitVec.add_sub_cancel]

theorem toNat_number_sub {first : BitVec w} {j k : Nat} (h : j ≤ k) (hlt : k - j < 2 ^ w) :
    (number first k - number first j).toNat = k - j := by
  rw [number_sub h, BitVec.toNat_ofNat, Nat.mod_eq_of_lt hlt]

private theorem two_pow_eq (hw : 0 < w) : (2 : Nat) ^ w = 2 * 2 ^ (w - 1) := by
  rw [← Nat.pow_succ', Nat.succ_eq_add_one, Nat.sub_add_cancel hw]

theorem toInt_number_sub {first : BitVec w} {j k : Nat} (hw : 0 < w) (h : Near w j k) :
    (number first j - number first k).toInt = (j : Int) - k := by
  have hpow := two_pow_eq hw
  have hpos : 0 < 2 ^ (w - 1) := Nat.two_pow_pos _
  unfold Near at h
  rcases Nat.le_total k j with hkj | hjk
  · rw [number_sub hkj, BitVec.toInt_eq_toNat_cond, BitVec.toNat_ofNat,
      Nat.mod_eq_of_lt (by omega), if_pos (by omega)]
    omega
  · rcases Nat.eq_or_lt_of_le hjk with rfl | hlt
    · rw [BitVec.sub_self, BitVec.toInt_zero, Int.sub_self]
    · have hneg : number first j - number first k = -BitVec.ofNat w (k - j) := by
        rw [← @number_sub _ first _ _ hjk, neg_sub]
      rw [hneg, BitVec.toInt_eq_toNat_cond, BitVec.toNat_neg, BitVec.toNat_ofNat,
        Nat.mod_eq_of_lt (a := k - j) (by omega), Nat.mod_eq_of_lt (by omega), if_neg (by omega)]
      omega

section Order

variable {first : BitVec w} {i j k : Nat}

theorem lt_number (hw : 0 < w) (h : Near w j k) : Lt (number first j) (number first k) ↔ j < k := by
  unfold Lt
  rw [toInt_number_sub hw h]
  omega

theorem le_number (hw : 0 < w) (h : Near w j k) : Le (number first j) (number first k) ↔ j ≤ k := by
  unfold Le
  rw [toInt_number_sub hw h]
  omega

theorem gt_number (hw : 0 < w) (h : Near w j k) : Gt (number first j) (number first k) ↔ k < j := by
  unfold Gt
  rw [toInt_number_sub hw h]
  omega

theorem ge_number (hw : 0 < w) (h : Near w j k) : Ge (number first j) (number first k) ↔ k ≤ j := by
  unfold Ge
  rw [toInt_number_sub hw h]
  omega

theorem between_number (hw : 0 < w) (hi : Near w i j) (hk : Near w i k) :
    Between (number first i) (number first j) (number first k) ↔ j ≤ i ∧ i ≤ k := by
  unfold Between
  rw [ge_number hw hi, le_number hw hk]

theorem number_inj (hw : 0 < w) (h : Near w j k) : number first j = number first k ↔ j = k := by
  constructor
  · intro heq
    have hzero : (number first j - number first k).toInt = (j : Int) - k := toInt_number_sub hw h
    rw [heq, BitVec.sub_self, BitVec.toInt_zero] at hzero
    omega
  · rintro rfl
    rfl

end Order

end FreeLwip.Serial
