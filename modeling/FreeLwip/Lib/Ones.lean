import Mathlib.Data.Nat.Digits.Defs
import Mathlib.Data.Nat.ModEq
import Mathlib.Data.List.Range

/-!
# Ones' complement sums

A sum with an end-around carry keeps a number modulo `m = b - 1`, and is zero only if nothing
but zeros went into it. `Rep m n r` says that the carried sum `r` stands for the number `n`; among
the numbers up to `m` there is one that does.
-/

namespace FreeLwip.Ones

def Rep (m n r : Nat) : Prop := r ≡ n [MOD m] ∧ (r = 0 ↔ n = 0)

variable {m n n' r r' : Nat}

@[refl] theorem Rep.refl (m n : Nat) : Rep m n n := ⟨.rfl, Iff.rfl⟩

theorem Rep.symm (h : Rep m n r) : Rep m r n := ⟨h.1.symm, h.2.symm⟩

theorem Rep.trans {k : Nat} (h : Rep m n r) (h' : Rep m r k) : Rep m n k :=
  ⟨h'.1.trans h.1, h'.2.trans h.2⟩

instance : Trans (Rep m) (Rep m) (Rep m) := ⟨Rep.trans⟩

theorem Rep.add (h : Rep m n r) (h' : Rep m n' r') : Rep m (n + n') (r + r') := by
  refine ⟨h.1.add h'.1, ?_⟩
  have := h.2
  have := h'.2
  omega

theorem Rep.add_left (k : Nat) (h : Rep m n r) : Rep m (k + n) (k + r) := (Rep.refl m k).add h

theorem Rep.add_right (k : Nat) (h : Rep m n r) : Rep m (n + k) (r + k) := h.add (Rep.refl m k)

theorem Rep.mul_left {c : Nat} (hc : c ≠ 0) (h : Rep m n r) : Rep m (c * n) (c * r) := by
  refine ⟨h.1.mul_left c, ?_⟩
  simp only [Nat.mul_eq_zero, h.2, hc]

theorem Rep.of_dvd {k : Nat} (hk : k ∣ m) (h : Rep m n r) : Rep k n r :=
  ⟨h.1.of_dvd hk, h.2⟩

theorem rep_mul_one {c : Nat} (hc : 0 < c) (h1 : c ≡ 1 [MOD m]) (n : Nat) : Rep m (c * n) n := by
  constructor
  · simpa using (h1.mul_right n).symm
  · simp [hc.ne']

theorem rep_pow_one {c : Nat} (hc : 0 < c) (h1 : c ≡ 1 [MOD m]) (k n : Nat) :
    Rep m (c ^ k * n) n :=
  rep_mul_one (Nat.pow_pos hc) (by simpa using h1.pow k) n

/-! ## The operations that carry around -/

/-- The high part added to the low part. -/
def fold (b n : Nat) : Nat := n / b + n % b

theorem rep_fold {b : Nat} (hb : 0 < b) (n : Nat) : Rep (b - 1) n (fold b n) := by
  have hdiv := Nat.div_add_mod n b
  have hb1 : b ≡ 1 [MOD b - 1] := by
    have h := Nat.ModEq.symm (Nat.modEq_sub (show 1 ≤ b from hb))
    exact h.symm
  constructor
  · calc fold b n = 1 * (n / b) + n % b := by rw [fold, Nat.one_mul]
      _ ≡ b * (n / b) + n % b [MOD b - 1] := (hb1.symm.mul_right _).add_right _
      _ = n := hdiv
  · unfold fold
    constructor
    · intro h
      obtain ⟨hq, hr⟩ := Nat.add_eq_zero_iff.mp h
      rw [hq, hr] at hdiv
      simpa using hdiv.symm
    · rintro rfl
      simp

theorem fold_lt {b k : Nat} (hb : 0 < b) (h : n < k * b) : fold b n < k - 1 + b := by
  have hq : n / b < k := Nat.div_lt_of_lt_mul (by rwa [Nat.mul_comm] at h)
  have hr := Nat.mod_lt n hb
  unfold fold
  omega

theorem fold_fold_lt {b k : Nat} (hk : k ≤ b) (h : n < k * b) :
    fold b (fold b n) < b := by
  have hb : 0 < b := by
    rcases Nat.eq_zero_or_pos b with rfl | hb
    · omega
    · exact hb
  have hq : n / b < k := Nat.div_lt_of_lt_mul (by rwa [Nat.mul_comm] at h)
  have hr := Nat.mod_lt n hb
  have hfold : fold b n = n / b + n % b := rfl
  rcases Nat.lt_or_ge (fold b n) b with hlt | hge
  · rwa [fold, Nat.div_eq_of_lt hlt, Nat.mod_eq_of_lt hlt, Nat.zero_add]
  · have h1 : fold b n / b = 1 := by
      apply Nat.div_eq_of_lt_le <;> omega
    have h2 : fold b n % b = fold b n - b := by
      rw [Nat.mod_eq_sub_mod hge, Nat.mod_eq_of_lt (by omega)]
    rw [fold, h1, h2]
    omega

/-- The two digits of a number below `c * c`, the other way round. -/
def swap (c n : Nat) : Nat := n % c * c + n / c

theorem rep_swap {c : Nat} (hc : 0 < c) (n : Nat) : Rep (c * c - 1) (c * n) (swap c n) := by
  have hdiv := Nat.div_add_mod n c
  have hcc : c * c ≡ 1 [MOD c * c - 1] := Nat.modEq_sub (Nat.mul_pos hc hc)
  constructor
  · calc swap c n = 1 * (n / c) + c * (n % c) := by rw [swap]; ring
      _ ≡ c * c * (n / c) + c * (n % c) [MOD c * c - 1] := (hcc.symm.mul_right _).add_right _
      _ = c * (c * (n / c) + n % c) := by ring
      _ = c * n := by rw [hdiv]
  · unfold swap
    constructor
    · intro h
      obtain ⟨hr, hq⟩ := Nat.add_eq_zero_iff.mp h
      rcases Nat.mul_eq_zero.mp hr with hr | hr
      · rw [hq, hr] at hdiv
        simp only [Nat.mul_zero, Nat.add_zero] at hdiv
        rw [← hdiv, Nat.mul_zero]
      · omega
    · intro h
      rcases Nat.mul_eq_zero.mp h with h | h
      · omega
      · simp [h]

theorem swap_lt {c n : Nat} (h : n < c * c) : swap c n < c * c := by
  have hc : 0 < c := Nat.pos_of_ne_zero fun h0 => by simp [h0] at h
  have hq : n / c < c := Nat.div_lt_of_lt_mul h
  have hr : n % c ≤ c - 1 := by have := Nat.mod_lt n hc; omega
  calc swap c n < n % c * c + c := by unfold swap; omega
    _ ≤ (c - 1) * c + c := by have := Nat.mul_le_mul_right c hr; omega
    _ = c * c := by rw [← Nat.succ_mul, Nat.succ_eq_add_one, Nat.sub_add_cancel hc]

/-- An addition that wraps at `b`, with the carry added back. -/
def carryAdd (b x y : Nat) : Nat :=
  let t := (x + y) % b
  if t < x then t + 1 else t

theorem carryAdd_lt {b x y : Nat} (hx : x < b) (hy : y < b) : carryAdd b x y < b := by
  simp only [carryAdd]
  rcases Nat.lt_or_ge (x + y) b with h | h
  · rw [Nat.mod_eq_of_lt h]
    split <;> omega
  · rw [Nat.mod_eq_sub_mod h, Nat.mod_eq_of_lt (by omega)]
    split <;> omega

theorem rep_carryAdd {b x y : Nat} (hx : x < b) (hy : y < b) :
    Rep (b - 1) (x + y) (carryAdd b x y) := by
  simp only [carryAdd]
  rcases Nat.lt_or_ge (x + y) b with h | h
  · rw [Nat.mod_eq_of_lt h, if_neg (by omega)]
  · have ht : (x + y) % b = x + y - b := by
      rw [Nat.mod_eq_sub_mod h, Nat.mod_eq_of_lt (by omega)]
    rw [ht, if_pos (by omega)]
    constructor
    · have hsub : x + y - b + 1 = x + y - (b - 1) := by omega
      rw [hsub]
      exact (Nat.modEq_iff_dvd' (by omega)).mpr ⟨1, by omega⟩
    · omega

/-! ## The number that stands for a sum -/

/-- The one number up to `m` that stands for `n`. -/
def norm (m n : Nat) : Nat := if n = 0 then 0 else (n - 1) % m + 1

theorem rep_norm (m n : Nat) : Rep m n (norm m n) := by
  unfold norm
  split
  · next h => rw [h]
  · next h =>
    constructor
    · have h1 := (Nat.mod_modEq (n - 1) m).add_right 1
      rwa [Nat.sub_add_cancel (by omega)] at h1
    · omega

theorem norm_le (hm : 0 < m) (n : Nat) : norm m n ≤ m := by
  unfold norm
  split
  · omega
  · exact Nat.mod_lt _ hm

theorem Rep.eq (h : Rep m n r) (h' : Rep m n r') (hr : r ≤ m) (hr' : r' ≤ m) : r = r' := by
  have hmod : r ≡ r' [MOD m] := h.1.trans h'.1.symm
  have hz : r = 0 ↔ r' = 0 := h.2.trans h'.2.symm
  rcases Nat.eq_zero_or_pos r with h0 | h0
  · rw [h0, hz.mp h0]
  · have h0' : 0 < r' := by omega
    have hp : r - 1 + 1 ≡ r' - 1 + 1 [MOD m] := by
      rwa [Nat.sub_add_cancel h0, Nat.sub_add_cancel h0']
    have := Nat.ModEq.eq_of_lt_of_lt (Nat.ModEq.add_right_cancel' 1 hp) (by omega) (by omega)
    omega

theorem Rep.eq_norm (hm : 0 < m) (h : Rep m n r) (hr : r ≤ m) : r = norm m n :=
  h.eq (rep_norm m n) hr (norm_le hm n)

theorem norm_congr (hm : 0 < m) (h : Rep m n n') : norm m n = norm m n' :=
  (h.trans (rep_norm m n')).eq_norm hm (norm_le hm n') |>.symm

theorem norm_eq_iff (hm : 0 < m) : norm m n = m ↔ n ≠ 0 ∧ m ∣ n := by
  have hrep := rep_norm m n
  constructor
  · intro h
    rw [h] at hrep
    have hmod : n ≡ 0 [MOD m] := hrep.1.symm.trans (by simp [Nat.ModEq])
    refine ⟨fun h0 => ?_, (Nat.modEq_zero_iff_dvd).mp hmod⟩
    have := hrep.2.mpr h0
    omega
  · rintro ⟨h0, hdvd⟩
    have hm0 : m ≡ n [MOD m] := by
      have h1 : m ≡ 0 [MOD m] := by simp [Nat.ModEq]
      exact h1.trans ((Nat.modEq_zero_iff_dvd).mpr hdvd).symm
    have h1 : Rep m n m := ⟨hm0, by omega⟩
    exact (h1.eq_norm hm le_rfl).symm

end FreeLwip.Ones
