import FreeLwip.Lib.Ones

/-!
# The Internet checksum (`inet_chksum.c`)

The functions over a memory of octets, for a little-endian processor. `LWIP_CHKSUM_ALGORITHM` is 3
here; the versions 1 and 2 of the file are the plainer ways to the same sum.
-/

namespace FreeLwip.Ip.InetChksum

open Ones

abbrev Octet := BitVec 8
abbrev Mem := Nat → Octet

def Mem.half (m : Mem) (a : Nat) : BitVec 16 := m (a + 1) ++ m a
def Mem.word (m : Mem) (a : Nat) : BitVec 32 := m.half (a + 2) ++ m.half a

def foldU32t (u : BitVec 32) : BitVec 32 := (u >>> 16) + (u &&& 0x0000ffff#32)

def swapBytesInWord (w : BitVec 32) : BitVec 32 :=
  ((w &&& 0xff00#32) >>> 8) ||| ((w &&& 0xff#32) <<< 8)

/-- A `while (len > 1)` that adds 16-bit words, as `load` puts them together. -/
def sumShorts (load : Nat → BitVec 16) : Nat → BitVec 32 → Nat → Nat × BitVec 32 × Nat
  | ps, sum, len + 2 => sumShorts load (ps + 2) (sum + (load ps).setWidth 32) len
  | ps, sum, len => (ps, sum, len)

/-! ## Version 1 -/

/-- What version 1 adds: the first octet is the most significant. -/
def Mem.pair (m : Mem) (octetptr : Nat) : BitVec 16 := m octetptr ++ m (octetptr + 1)

def lwipStandardChksum1 (m : Mem) (dataptr : Nat) (len : BitVec 16) : BitVec 16 :=
  let (octetptr, acc, len) := sumShorts m.pair dataptr 0#32 len.toNat
  let acc := if 0 < len then acc + (m octetptr ++ 0#8).setWidth 32 else acc
  let acc := foldU32t acc
  let acc := if acc &&& 0xffff0000#32 ≠ 0 then foldU32t acc else acc
  (swapBytesInWord ((acc.setWidth 16).setWidth 32)).setWidth 16

/-! ## Version 2 -/

/-- `((u8_t *)&t)[1] = *pb++`, at an odd address: what is left, and the `t`. -/
def oddHead (m : Mem) (pb len : Nat) : Nat × Nat × BitVec 16 :=
  if pb % 2 = 1 ∧ 0 < len then (pb + 1, len - 1, m pb ++ 0#8) else (pb, len, 0#16)

/-- The end of the versions 2 and 3: `((u8_t *)&t)[0] = *ps`, the end bytes added, two folds, and
the bytes swapped back. -/
def finish (m : Mem) (dataptr ps : Nat) (sum : BitVec 32) (len : Nat) (t : BitVec 16) :
    BitVec 16 :=
  let t := if 0 < len then t.extractLsb' 8 8 ++ m ps else t
  let sum := sum + t.setWidth 32
  let sum := foldU32t (foldU32t sum)
  let sum := if dataptr % 2 = 1 then swapBytesInWord sum else sum
  sum.setWidth 16

def lwipStandardChksum2 (m : Mem) (dataptr len : Nat) : BitVec 16 :=
  let (pb, len, t) := oddHead m dataptr len
  let (ps, sum, len) := sumShorts m.half pb 0#32 len
  finish m dataptr ps sum len t

/-! ## Version 3 -/

/-- An addition of the unrolled loop, `if (tmp < sum) tmp++`. -/
def addBackCarry (sum x : BitVec 32) : BitVec 32 :=
  let tmp := sum + x
  if tmp < sum then tmp + 1 else tmp

/-- The `while (len > 7)`: ping and pong. -/
def sumWords (m : Mem) : Nat → BitVec 32 → Nat → Nat × BitVec 32 × Nat
  | pl, sum, len + 8 =>
    sumWords m (pl + 8) (addBackCarry (addBackCarry sum (m.word pl)) (m.word (pl + 4))) len
  | pl, sum, len => (pl, sum, len)

def lwipStandardChksum (m : Mem) (dataptr len : Nat) : BitVec 16 :=
  let (pb, len, t) := oddHead m dataptr len
  let (ps, sum, len) :=
    if pb % 4 ≠ 0 ∧ 1 < len then (pb + 2, (m.half pb).setWidth 32, len - 2) else (pb, 0#32, len)
  let (pl, sum, len) := sumWords m ps sum len
  let sum := foldU32t sum
  let (ps, sum, len) := sumShorts m.half pl sum len
  finish m dataptr ps sum len t

/-! ## The functions over buffers and chains -/

structure Pbuf where
  payload : Nat
  len : BitVec 16

def inetChksum (m : Mem) (dataptr : Nat) (len : BitVec 16) : BitVec 16 :=
  ~~~(lwipStandardChksum m dataptr len.toNat)

/-- One turn of the `for` over a chain, over `chklen` octets of `q`. -/
def addPbuf (m : Mem) (acc : BitVec 32 × Bool) (q : Pbuf) (chklen : BitVec 16) :
    BitVec 32 × Bool :=
  let sum := foldU32t (acc.1 + (lwipStandardChksum m q.payload chklen.toNat).setWidth 32)
  if q.len.toNat % 2 ≠ 0 then (swapBytesInWord sum, !acc.2) else (sum, acc.2)

def unswap (acc : BitVec 32 × Bool) : BitVec 32 :=
  if acc.2 then swapBytesInWord acc.1 else acc.1

def inetChksumPbuf (m : Mem) (p : List Pbuf) : BitVec 16 :=
  let acc := unswap (p.foldl (fun acc q => addPbuf m acc q q.len) (0, false))
  ~~~((acc &&& 0xffff#32).setWidth 16)

def htons (s : BitVec 16) : BitVec 16 := (swapBytesInWord (s.setWidth 32)).setWidth 16

/-- The pseudo header added to the sum of the chain, and the end of both functions. -/
def addPseudo (acc : BitVec 32) (src dest : BitVec 32) (proto : BitVec 8) (protoLen : BitVec 16) :
    BitVec 16 :=
  let acc := acc + (src &&& 0xffff#32) + ((src >>> 16) &&& 0xffff#32)
  let acc := acc + (dest &&& 0xffff#32) + ((dest >>> 16) &&& 0xffff#32)
  let acc := acc + (htons (proto.setWidth 16)).setWidth 32 + (htons protoLen).setWidth 32
  let acc := foldU32t (foldU32t acc)
  ~~~((acc &&& 0xffff#32).setWidth 16)

def inetChksumPseudo (m : Mem) (p : List Pbuf) (src dest : BitVec 32) (proto : BitVec 8)
    (protoLen : BitVec 16) : BitVec 16 :=
  addPseudo (unswap (p.foldl (fun acc q => addPbuf m acc q q.len) (0, false))) src dest proto
    protoLen

/-- The `for` of `inet_chksum_pseudo_partial`, that stops behind `chksum_len` octets. -/
def addPartial (m : Mem) : BitVec 32 × Bool → List Pbuf → BitVec 16 → BitVec 32 × Bool
  | acc, [], _ => acc
  | acc, q :: p, chksumLen =>
    if chksumLen = 0 then acc
    else
      let chklen := if chksumLen < q.len then chksumLen else q.len
      addPartial m (addPbuf m acc q chklen) p (chksumLen - chklen)

def inetChksumPseudoPartial (m : Mem) (p : List Pbuf) (src dest : BitVec 32) (proto : BitVec 8)
    (protoLen chksumLen : BitVec 16) : BitVec 16 :=
  addPseudo (unswap (addPartial m (0, false) p chksumLen)) src dest proto protoLen

/-! ## What a sum stands for -/

def octets (m : Mem) (a len : Nat) : List Octet := (List.range len).map fun i => m (a + i)

def chainOctets (m : Mem) (p : List Pbuf) : List Octet :=
  p.flatMap fun q => octets m q.payload q.len.toNat

/-- The octets as one little-endian number: `256 * 256` is one modulo `65535`, so that this is
the sum of the 16-bit words. -/
def number (l : List Octet) : Nat := Nat.ofDigits 256 (l.map BitVec.toNat)

def onesSum (l : List Octet) : Nat := norm 65535 (number l)

/-- The octets in one piece, from address zero. -/
def flat (l : List Octet) : Mem := fun a => l.getD a 0

/-! ## The operations on words -/

theorem toNat_append8 {w v : Nat} (x : BitVec w) (y : BitVec v) :
    (x ++ y).toNat = x.toNat * 2 ^ v + y.toNat := by
  rw [BitVec.toNat_append, ← Nat.shiftLeft_add_eq_or_of_lt y.isLt, Nat.shiftLeft_eq]

theorem toNat_foldU32t (u : BitVec 32) : (foldU32t u).toNat = fold 65536 u.toNat := by
  have h := u.isLt
  have hmask : (0x0000ffff#32).toNat = 2 ^ 16 - 1 := rfl
  simp only [foldU32t, BitVec.toNat_add, BitVec.toNat_ushiftRight, BitVec.toNat_and,
    Nat.shiftRight_eq_div_pow, hmask, Nat.and_two_pow_sub_one_eq_mod, fold]
  omega

theorem toNat_swapBytesInWord (w : BitVec 32) (h : w.toNat < 65536) :
    (swapBytesInWord w).toNat = swap 256 w.toNat := by
  have hmask : (0xff#32).toNat = 2 ^ 8 - 1 := rfl
  have hhigh : (w &&& 0xff00#32) >>> 8 = w >>> 8 := by
    have hshift : (0xff00#32 >>> 8).toNat = 2 ^ 8 - 1 := rfl
    apply BitVec.eq_of_toNat_eq
    rw [BitVec.ushiftRight_and_distrib, BitVec.toNat_and, BitVec.toNat_ushiftRight,
      Nat.shiftRight_eq_div_pow, hshift, Nat.and_two_pow_sub_one_eq_mod]
    omega
  have hlow : ((w &&& 0xff#32) <<< 8).toNat = 2 ^ 8 * (w.toNat % 256) := by
    rw [BitVec.toNat_shiftLeft, BitVec.toNat_and, hmask, Nat.and_two_pow_sub_one_eq_mod,
      Nat.shiftLeft_eq]
    omega
  have hlt : w.toNat / 2 ^ 8 < 2 ^ 8 := by omega
  rw [swapBytesInWord, hhigh, BitVec.toNat_or, hlow, BitVec.toNat_ushiftRight,
    Nat.shiftRight_eq_div_pow, Nat.or_comm, ← Nat.two_pow_add_eq_or_of_lt hlt, swap]
  omega
  
theorem toNat_addBackCarry (sum x : BitVec 32) :
    (addBackCarry sum x).toNat = carryAdd (2 ^ 32) sum.toNat x.toNat := by
  have hlt := carryAdd_lt sum.isLt x.isLt
  simp only [carryAdd, addBackCarry, BitVec.lt_def, BitVec.toNat_add] at *
  split
  · next h =>
    rw [if_pos h] at hlt
    rw [BitVec.toNat_add, BitVec.toNat_add]
    exact Nat.mod_eq_of_lt hlt
  · exact BitVec.toNat_add _ _

/-! ## Octets as numbers -/

theorem octets_add (m : Mem) (a i j : Nat) :
    octets m a (i + j) = octets m a i ++ octets m (a + i) j := by
  simp only [octets, List.range_add, List.map_append, List.map_map, List.append_cancel_left_eq]
  apply List.map_congr_left
  intro k _
  simp [Nat.add_assoc]

@[simp] theorem length_octets (m : Mem) (a len : Nat) : (octets m a len).length = len := by
  simp [octets]

@[simp] theorem octets_zero (m : Mem) (a : Nat) : octets m a 0 = [] := rfl

@[simp] theorem octets_one (m : Mem) (a : Nat) : octets m a 1 = [m a] := rfl

@[simp] theorem number_nil : number [] = 0 := rfl

@[simp] theorem number_cons (b : Octet) (l : List Octet) :
    number (b :: l) = b.toNat + 256 * number l := by
  simp [number, Nat.ofDigits_cons]

theorem number_append (l l' : List Octet) :
    number (l ++ l') = number l + 256 ^ l.length * number l' := by
  simp [number, Nat.ofDigits_append]

theorem number_octets_succ (m : Mem) (a len : Nat) :
    number (octets m a (len + 1)) = (m a).toNat + 256 * number (octets m (a + 1) len) := by
  rw [Nat.add_comm len, octets_add, octets_one, List.singleton_append, number_cons]

theorem toNat_half (m : Mem) (a : Nat) : (m.half a).toNat = number (octets m a 2) := by
  simp only [Mem.half, toNat_append8, number_octets_succ, octets_zero, number_nil]
  omega

theorem toNat_word (m : Mem) (a : Nat) : (m.word a).toNat = number (octets m a 4) := by
  rw [Mem.word, toNat_append8, toNat_half, toNat_half, octets_add m a 2 2, number_append,
    length_octets]
  ring

theorem rep_number_octets (m : Mem) (a i j : Nat) (hi : i % 2 = 0) :
    Rep 65535 (number (octets m a (i + j)))
      (number (octets m a i) + number (octets m (a + i) j)) := by
  obtain ⟨k, rfl⟩ : ∃ k, i = 2 * k := ⟨i / 2, by omega⟩
  rw [octets_add, number_append, length_octets, pow_mul]
  exact (Rep.refl _ _).add (rep_pow_one (by decide) (by decide) k _)

theorem rep_addBackCarry (sum x : BitVec 32) :
    Rep 65535 (sum.toNat + x.toNat) (addBackCarry sum x).toNat := by
  rw [toNat_addBackCarry]
  exact (rep_carryAdd sum.isLt x.isLt).of_dvd (by decide)

theorem rep_foldU32t (u : BitVec 32) : Rep 65535 u.toNat (foldU32t u).toNat := by
  rw [toNat_foldU32t]
  exact rep_fold (by decide) _

/-! ## The loops -/

theorem sumWords_spec (m : Mem) (pl : Nat) (sum : BitVec 32) (len : Nat) :
    (sumWords m pl sum len).1 = pl + len / 8 * 8 ∧ (sumWords m pl sum len).2.2 = len % 8 ∧
      Rep 65535 (sum.toNat + number (octets m pl (len / 8 * 8)))
        (sumWords m pl sum len).2.1.toNat := by
  induction pl, sum, len using sumWords.induct m with
  | case1 pl sum len ih =>
    obtain ⟨hpl, hlen, hsum⟩ := ih
    have hdiv : (len + 8) / 8 * 8 = 8 + len / 8 * 8 := by omega
    rw [sumWords, hpl, hlen, hdiv]
    refine ⟨by omega, by omega, Rep.trans ?_ hsum⟩
    have hping := rep_addBackCarry sum (m.word pl)
    have hpong := rep_addBackCarry (addBackCarry sum (m.word pl)) (m.word (pl + 4))
    have hwords : Rep 65535 (number (octets m pl 8))
        ((m.word pl).toNat + (m.word (pl + 4)).toNat) := by
      rw [toNat_word, toNat_word]
      exact rep_number_octets m pl 4 4 (by decide)
    have hrest := rep_number_octets m pl 8 (len / 8 * 8) (by decide)
    calc Rep 65535 (sum.toNat + number (octets m pl (8 + len / 8 * 8)))
          (sum.toNat + (number (octets m pl 8) + number (octets m (pl + 8) (len / 8 * 8)))) :=
        hrest.add_left _
      Rep 65535 _ (sum.toNat + ((m.word pl).toNat + (m.word (pl + 4)).toNat +
          number (octets m (pl + 8) (len / 8 * 8)))) := (hwords.add_right _).add_left _
      _ = sum.toNat + (m.word pl).toNat + (m.word (pl + 4)).toNat +
          number (octets m (pl + 8) (len / 8 * 8)) := by omega
      Rep 65535 _ _ := ((hping.add_right _).trans hpong).add_right _
  | case2 pl sum len h =>
    have hlen : len < 8 := by
      by_contra hge
      exact h (len - 8) (by omega)
    rw [sumWords]
    · simp [Nat.div_eq_of_lt hlen, Nat.mod_eq_of_lt hlen]
      rfl
    · exact h

/-- There is no overflow: the number of turns excludes it. The weight `c` of the first octet is
the order in which the octets are put together. -/
theorem sumShorts_spec (m : Mem) (load : Nat → BitVec 16) (c : Nat) (hc : c ≠ 0)
    (hload : ∀ a, Rep 65535 (c * number (octets m a 2)) (load a).toNat)
    (ps : Nat) (sum : BitVec 32) (len : Nat) (h : sum.toNat + len / 2 * 65535 < 2 ^ 32) :
    (sumShorts load ps sum len).1 = ps + len / 2 * 2 ∧ (sumShorts load ps sum len).2.2 = len % 2 ∧
      (sumShorts load ps sum len).2.1.toNat ≤ sum.toNat + len / 2 * 65535 ∧
      Rep 65535 (sum.toNat + c * number (octets m ps (len / 2 * 2)))
        (sumShorts load ps sum len).2.1.toNat := by
  induction ps, sum, len using sumShorts.induct load with
  | case1 ps sum len ih =>
    have hshort := (load ps).isLt
    have hadd : (sum + (load ps).setWidth 32).toNat = sum.toNat + (load ps).toNat := by
      rw [BitVec.toNat_add, BitVec.toNat_setWidth]
      omega
    obtain ⟨hps, hlen, hle, hsum⟩ := ih (by omega)
    have hdiv : (len + 2) / 2 * 2 = 2 + len / 2 * 2 := by omega
    rw [sumShorts, hps, hlen, hdiv]
    refine ⟨by omega, by omega, by omega, Rep.trans ?_ hsum⟩
    have hcut := (rep_number_octets m ps 2 (len / 2 * 2) (by decide)).mul_left hc
    rw [Nat.mul_add] at hcut
    rw [hadd, Nat.add_assoc]
    exact (hcut.trans ((hload ps).add_right _)).add_left _
  | case2 ps sum len hne =>
    have hlen : len < 2 := by
      by_contra hge
      exact hne (len - 2) (by omega)
    rw [sumShorts]
    · simp [Nat.div_eq_of_lt hlen, Nat.mod_eq_of_lt hlen]
      rfl
    · exact hne

theorem half_load (m : Mem) (a : Nat) :
    Rep 65535 (1 * number (octets m a 2)) (m.half a).toNat := by
  rw [Nat.one_mul, toNat_half]

theorem pair_load (m : Mem) (a : Nat) :
    Rep 65535 (256 * number (octets m a 2)) (m.pair a).toNat := by
  rw [Mem.pair, toNat_append8]
  simp only [number_octets_succ, octets_zero, number_nil]
  have h := rep_mul_one (m := 65535) (show 0 < 256 * 256 by decide) (by decide)
    (m (a + 1)).toNat
  calc Rep 65535 (256 * ((m a).toNat + 256 * ((m (a + 1)).toNat + 256 * 0)))
        (256 * (m a).toNat + 256 * 256 * (m (a + 1)).toNat) := by
        rw [Nat.mul_zero, Nat.add_zero, Nat.mul_add, Nat.mul_assoc]
    Rep 65535 _ (256 * (m a).toNat + (m (a + 1)).toNat) := h.add_left _
    _ = (m a).toNat * 2 ^ 8 + (m (a + 1)).toNat := by ring

/-! ## The three versions -/

theorem toNat_endBytes (m : Mem) (ps len : Nat) (b : Octet) (hlen : len < 2) :
    (if 0 < len then (b ++ 0#8).extractLsb' 8 8 ++ m ps else b ++ 0#8).toNat =
      number (octets m ps len) + 256 * b.toNat := by
  have hb := b.isLt
  rcases Nat.lt_or_ge 0 len with h | h
  · obtain rfl : len = 1 := by omega
    rw [if_pos h, toNat_append8, BitVec.extractLsb'_toNat, toNat_append8, octets_one, number_cons,
      number_nil, Nat.shiftRight_eq_div_pow, BitVec.toNat_ofNat]
    omega
  · obtain rfl : len = 0 := by omega
    rw [if_neg (by omega), toNat_append8, octets_zero, number_nil, BitVec.toNat_ofNat]
    omega

theorem toNat_finish (m : Mem) (dataptr ps len : Nat) (sum : BitVec 32) (b : Octet) (n : Nat)
    (hsum : Rep 65535 n sum.toNat) (hlt : sum.toNat + 65535 < 2 ^ 32) (hlen : len < 2) :
    (finish m dataptr ps sum len (b ++ 0#8)).toNat = norm 65535
      ((if dataptr % 2 = 1 then 256 else 1) *
        (n + (number (octets m ps len) + 256 * b.toNat))) := by
  have htail := toNat_endBytes m ps len b hlen
  simp only [finish]
  generalize (if 0 < len then (b ++ 0#8).extractLsb' 8 8 ++ m ps else b ++ 0#8) = t at htail
  have ht := t.isLt
  have hadd : (sum + t.setWidth 32).toNat = sum.toNat + t.toNat := by
    rw [BitVec.toNat_add, BitVec.toNat_setWidth]
    omega
  generalize hu : sum + t.setWidth 32 = u at *
  have hfold : Rep 65535 u.toNat (foldU32t (foldU32t u)).toNat :=
    (rep_foldU32t u).trans (rep_foldU32t _)
  have hlow : (foldU32t (foldU32t u)).toNat < 65536 := by
    rw [toNat_foldU32t, toNat_foldU32t]
    exact fold_fold_lt (k := 65536) (by decide) u.isLt
  rw [hadd] at hfold
  have hrep := (hsum.add_right t.toNat).trans hfold
  rw [htail] at hrep
  split
  · have hswap := toNat_swapBytesInWord _ hlow
    have hlt := swap_lt (c := 256) hlow
    rw [BitVec.toNat_setWidth, hswap, Nat.mod_eq_of_lt hlt]
    have := (hrep.mul_left (show 256 ≠ 0 by decide)).trans (rep_swap (c := 256) (by decide) _)
    exact this.eq_norm (by decide) (by omega)
  · rw [BitVec.toNat_setWidth, Nat.mod_eq_of_lt hlow, Nat.one_mul]
    exact hrep.eq_norm (by decide) (by omega)

theorem oddHead_spec (m : Mem) (dataptr len : Nat) :
    ∃ pb left, ∃ b : Octet, oddHead m dataptr len = (pb, left, b ++ 0#8) ∧ left ≤ len ∧
      Rep 65535 (number (octets m dataptr len)) ((if dataptr % 2 = 1 then 256 else 1) *
        (number (octets m pb left) + 256 * b.toNat)) := by
  unfold oddHead
  split
  · next h =>
    refine ⟨dataptr + 1, len - 1, m dataptr, rfl, by omega, ?_⟩
    have hcut := number_octets_succ m dataptr (len - 1)
    rw [Nat.sub_add_cancel h.2] at hcut
    have hone := rep_mul_one (m := 65535) (show 0 < 256 * 256 by decide) (by decide)
      (m dataptr).toNat
    rw [if_pos h.1, hcut, Nat.mul_add, ← Nat.mul_assoc, Nat.add_comm]
    exact hone.symm.add_left _
  · next h =>
    refine ⟨dataptr, len, 0#8, rfl, le_rfl, ?_⟩
    rw [BitVec.toNat_ofNat, Nat.zero_mod, Nat.mul_zero, Nat.add_zero]
    split
    · next hodd =>
      have hlen : len = 0 := by omega
      rw [hlen, octets_zero, number_nil]
    · rw [Nat.one_mul]

theorem lwipStandardChksum2_eq (m : Mem) (dataptr len : Nat) (hlen : len ≤ 0x20000) :
    (lwipStandardChksum2 m dataptr len).toNat = onesSum (octets m dataptr len) := by
  obtain ⟨pb, left, b, hhead, hle, hrep⟩ := oddHead_spec m dataptr len
  have hbound : left / 2 * 65535 + 65535 < 2 ^ 32 := by omega
  obtain ⟨hps, hleft, hsum, hhalves⟩ := sumShorts_spec m m.half 1 (by decide) (half_load m) pb 0#32
    left (by rw [BitVec.toNat_ofNat]; omega)
  rw [BitVec.toNat_ofNat, Nat.zero_mod, Nat.zero_add, Nat.one_mul] at hhalves
  rw [BitVec.toNat_ofNat, Nat.zero_mod, Nat.zero_add] at hsum
  simp only [lwipStandardChksum2, hhead]
  generalize sumShorts m.half pb 0#32 left = w at *
  obtain ⟨ps, sum, left'⟩ := w
  simp only at hps hleft hsum hhalves ⊢
  rw [toNat_finish m dataptr _ _ _ b _ hhalves (by omega) (by omega), hps, hleft, onesSum]
  have hcut := rep_number_octets m pb (left / 2 * 2) (left % 2) (by omega)
  rw [show left / 2 * 2 + left % 2 = left by omega] at hcut
  rw [← Nat.add_assoc]
  have hscale : (if dataptr % 2 = 1 then 256 else 1) ≠ 0 := by split <;> decide
  exact (norm_congr (by decide) (hrep.trans ((hcut.add_right _).mul_left hscale))).symm

theorem lwipStandardChksum_eq (m : Mem) (dataptr len : Nat) :
    (lwipStandardChksum m dataptr len).toNat = onesSum (octets m dataptr len) := by
  obtain ⟨pb, left, b, hhead, hle, hrep⟩ := oddHead_spec m dataptr len
  simp only [lwipStandardChksum, hhead]
  -- the halfword up to the next word
  obtain ⟨ps, sum₀, rest, hstart, hnum⟩ : ∃ ps sum₀ rest,
      (if pb % 4 ≠ 0 ∧ 1 < left then (pb + 2, (m.half pb).setWidth 32, left - 2)
        else (pb, 0#32, left)) = (ps, sum₀, rest) ∧
      Rep 65535 (number (octets m pb left))
        ((sum₀ : BitVec 32).toNat + number (octets m ps rest)) := by
    split
    · next h =>
      refine ⟨_, _, _, rfl, ?_⟩
      have hcut := rep_number_octets m pb 2 (left - 2) (by decide)
      have hlt := (m.half pb).isLt
      rw [show 2 + (left - 2) = left by omega, ← toNat_half] at hcut
      rwa [BitVec.toNat_setWidth, Nat.mod_eq_of_lt (by omega)]
    · refine ⟨_, _, _, rfl, ?_⟩
      rw [BitVec.toNat_ofNat, Nat.zero_mod, Nat.zero_add]
  simp only [hstart]
  obtain ⟨hpl, hlen, hwords⟩ := sumWords_spec m ps sum₀ rest
  generalize sumWords m ps sum₀ rest = w at *
  obtain ⟨pl, sum₁, len₁⟩ := w
  simp only at hpl hlen hwords ⊢
  have hfold := hwords.trans (rep_foldU32t sum₁)
  have hsmall : (foldU32t sum₁).toNat < 2 * 65536 := by
    rw [toNat_foldU32t]
    exact (fold_lt (k := 65536) (by decide) sum₁.isLt).trans_le (by decide)
  obtain ⟨hps, hend, hsum, hhalves⟩ := sumShorts_spec m m.half 1 (by decide) (half_load m) pl
    (foldU32t sum₁) len₁ (by omega)
  rw [Nat.one_mul] at hhalves
  generalize sumShorts m.half pl (foldU32t sum₁) len₁ = w at *
  obtain ⟨ps', sum₂, len₂⟩ := w
  simp only at hps hend hsum hhalves ⊢
  have hall := (hfold.add_right (number (octets m pl (len₁ / 2 * 2)))).trans hhalves
  rw [toNat_finish m dataptr _ _ _ b _ hall (by omega) (by omega), hps, hend, onesSum]
  have hcut₁ := rep_number_octets m ps (rest / 8 * 8) len₁ (by omega)
  have hcut₂ := rep_number_octets m pl (len₁ / 2 * 2) (len₁ % 2) (by omega)
  rw [hlen, show rest / 8 * 8 + rest % 8 = rest by omega, ← hlen, ← hpl] at hcut₁
  rw [show len₁ / 2 * 2 + len₁ % 2 = len₁ by omega] at hcut₂
  have hdata := hnum.trans ((hcut₁.trans (hcut₂.add_left _)).add_left _)
  have hscale : (if dataptr % 2 = 1 then 256 else 1) ≠ 0 := by split <;> decide
  have htotal := (hdata.add_right (256 * b.toNat)).mul_left hscale
  rw [← Nat.add_assoc, ← Nat.add_assoc] at htotal
  rw [← Nat.add_assoc]
  exact (norm_congr (by decide) (hrep.trans htotal)).symm

theorem foldOnce_spec (acc : BitVec 32) :
    (if foldU32t acc &&& 0xffff0000#32 ≠ 0 then foldU32t (foldU32t acc) else foldU32t acc).toNat <
        65536 ∧
      Rep 65535 acc.toNat
        (if foldU32t acc &&& 0xffff0000#32 ≠ 0 then foldU32t (foldU32t acc)
          else foldU32t acc).toNat := by
  split
  · constructor
    · rw [toNat_foldU32t, toNat_foldU32t]
      exact fold_fold_lt (k := 65536) (by decide) acc.isLt
    · exact (rep_foldU32t acc).trans (rep_foldU32t _)
  · next h =>
    refine ⟨?_, rep_foldU32t acc⟩
    have hshift : 0xffff0000#32 >>> 16 = 0xffff#32 := rfl
    have hmask : (0xffff#32).toNat = 2 ^ 16 - 1 := rfl
    have h0 : foldU32t acc &&& 0xffff0000#32 = 0 := Decidable.not_not.mp h
    have hzero := congrArg (fun x : BitVec 32 => (x >>> 16).toNat) h0
    simp only [BitVec.ushiftRight_and_distrib, hshift, BitVec.toNat_and, BitVec.toNat_ushiftRight,
      hmask, Nat.and_two_pow_sub_one_eq_mod, Nat.shiftRight_eq_div_pow] at hzero
    have := (foldU32t acc).isLt
    simp at hzero
    omega

theorem lwipStandardChksum1_eq (m : Mem) (dataptr : Nat) (len : BitVec 16) :
    (lwipStandardChksum1 m dataptr len).toNat = onesSum (octets m dataptr len.toNat) := by
  have hlen := len.isLt
  obtain ⟨hptr, hleft, hsum, hpairs⟩ := sumShorts_spec m m.pair 256
    (by decide) (pair_load m) dataptr 0#32 len.toNat (by rw [BitVec.toNat_ofNat]; omega)
  rw [BitVec.toNat_ofNat, Nat.zero_mod, Nat.zero_add] at hsum hpairs
  simp only [lwipStandardChksum1]
  generalize sumShorts m.pair dataptr 0#32 len.toNat = w at *
  obtain ⟨octetptr, acc, left⟩ := w
  simp only at hptr hleft hsum hpairs ⊢
  have hrest : (if 0 < left then acc + (m octetptr ++ 0#8).setWidth 32 else acc).toNat =
      acc.toNat + 256 * number (octets m octetptr left) := by
    have hb := (m octetptr).isLt
    split
    · next h =>
      obtain rfl : left = 1 := by omega
      rw [BitVec.toNat_add, BitVec.toNat_setWidth, toNat_append8, octets_one, number_cons,
        number_nil, BitVec.toNat_ofNat]
      omega
    · next h =>
      obtain rfl : left = 0 := by omega
      rw [octets_zero, number_nil, Nat.mul_zero, Nat.add_zero]
  generalize (if 0 < left then acc + (m octetptr ++ 0#8).setWidth 32 else acc) = acc₁ at hrest ⊢
  obtain ⟨hlow, hrep⟩ := foldOnce_spec acc₁
  generalize (if foldU32t acc₁ &&& 0xffff0000#32 ≠ 0 then foldU32t (foldU32t acc₁)
    else foldU32t acc₁) = x at *
  have hx : ((x.setWidth 16).setWidth 32).toNat = x.toNat := by
    rw [BitVec.toNat_setWidth, BitVec.toNat_setWidth]
    omega
  have hlt := swap_lt (c := 256) hlow
  rw [BitVec.toNat_setWidth, toNat_swapBytesInWord _ (hx ▸ hlow), hx, Nat.mod_eq_of_lt hlt]
  have hcut := (rep_number_octets m dataptr (len.toNat / 2 * 2) left (by omega)).mul_left
    (show 256 ≠ 0 by decide)
  rw [hleft, show len.toNat / 2 * 2 + len.toNat % 2 = len.toNat by omega, ← hleft, Nat.mul_add,
    ← hptr] at hcut
  rw [hrest] at hrep
  have hall := (hcut.trans (hpairs.add_right _)).trans hrep
  have hswap := (hall.mul_left (show 256 ≠ 0 by decide)).trans
    (rep_swap (c := 256) (by decide) x.toNat)
  rw [← Nat.mul_assoc] at hswap
  have hone := rep_mul_one (m := 65535) (show 0 < 256 * 256 by decide) (by decide)
    (number (octets m dataptr len.toNat))
  exact (hone.symm.trans hswap).eq_norm (by decide) (by omega)

/-- Whichever version the configuration takes, from whichever address: the sum is the same. -/
theorem lwipStandardChksum_versions (m : Mem) (dataptr : Nat) (len : BitVec 16) :
    lwipStandardChksum m dataptr len.toNat = lwipStandardChksum1 m dataptr len ∧
      lwipStandardChksum m dataptr len.toNat = lwipStandardChksum2 m dataptr len.toNat := by
  have hlen := len.isLt
  constructor
  · apply BitVec.eq_of_toNat_eq
    rw [lwipStandardChksum_eq, lwipStandardChksum1_eq]
  · apply BitVec.eq_of_toNat_eq
    rw [lwipStandardChksum_eq, lwipStandardChksum2_eq m dataptr len.toNat (by omega)]

/-! ## Chains -/

/-- The state of the loop over a chain, when the octets so far are `l`: behind an odd number of
octets the sum is kept with its bytes swapped. -/
def Sums (l : List Octet) (acc : BitVec 32 × Bool) : Prop :=
  acc.1.toNat < 65536 ∧ Rep 65535 (number l) ((if acc.2 then 256 else 1) * acc.1.toNat)

theorem onesSum_le (l : List Octet) : onesSum l ≤ 65535 := norm_le (by decide) _

theorem rep_swapBytesInWord {w : BitVec 32} (h : w.toNat < 65536) :
    (swapBytesInWord w).toNat < 65536 ∧ Rep 65535 (256 * w.toNat) (swapBytesInWord w).toNat := by
  rw [toNat_swapBytesInWord w h]
  exact ⟨swap_lt (c := 256) h, rep_swap (c := 256) (by decide) _⟩

theorem rep_two_swaps (n : Nat) : Rep 65535 (256 * (256 * n)) n := by
  rw [← Nat.mul_assoc]
  exact rep_mul_one (by decide) (by decide) n

theorem sums_nil : Sums [] (0, false) := ⟨by decide, by simp [Rep.refl]⟩

theorem Sums.addPbuf {l : List Octet} {acc : BitVec 32 × Bool} (h : Sums l acc)
    (hodd : acc.2 = decide (l.length % 2 = 1)) (m : Mem) (q : Pbuf) (chklen : BitVec 16) :
    Sums (l ++ octets m q.payload chklen.toNat) (addPbuf m acc q chklen) := by
  obtain ⟨hlt, hrep⟩ := h
  obtain ⟨acc, swapped⟩ := acc
  simp only at hlt hrep hodd
  set o := octets m q.payload chklen.toNat with ho
  have hsum := lwipStandardChksum_eq m q.payload chklen.toNat
  rw [← ho] at hsum
  have hole := onesSum_le o
  have hadd : (acc + (lwipStandardChksum m q.payload chklen.toNat).setWidth 32).toNat =
      acc.toNat + onesSum o := by
    rw [BitVec.toNat_add, BitVec.toNat_setWidth, hsum]
    omega
  -- the sum of this turn, in the byte order of the octets before it
  set u := foldU32t (acc + (lwipStandardChksum m q.payload chklen.toNat).setWidth 32) with hu
  have hult : u.toNat < 65536 := by
    rw [hu, toNat_foldU32t, hadd]
    unfold fold
    omega
  have hurep : Rep 65535 (acc.toNat + number o) u.toNat := by
    have h1 := rep_foldU32t (acc + (lwipStandardChksum m q.payload chklen.toNat).setWidth 32)
    rw [hadd] at h1
    exact ((rep_norm 65535 (number o)).add_left _).trans h1
  have hnew : Rep 65535 (number (l ++ o)) ((if swapped then 256 else 1) * u.toNat) := by
    rw [number_append]
    have hpow : Rep 65535 (256 ^ l.length * number o)
        ((if swapped then 256 else 1) * number o) := by
      rw [hodd]
      rcases Nat.mod_two_eq_zero_or_one l.length with he | he
      · obtain ⟨k, hk⟩ : ∃ k, l.length = 2 * k := ⟨l.length / 2, by omega⟩
        rw [hk, pow_mul]
        simpa [hk] using rep_pow_one (m := 65535) (show 0 < 256 ^ 2 by decide) (by decide) k
          (number o)
      · obtain ⟨k, hk⟩ : ∃ k, l.length = 2 * k + 1 := ⟨l.length / 2, by omega⟩
        rw [hk, pow_succ, pow_mul, Nat.mul_assoc]
        simpa [hk, Nat.add_mod] using rep_pow_one (m := 65535) (show 0 < 256 ^ 2 by decide)
          (by decide) k (256 * number o)
    have hscale : (if swapped then 256 else 1) ≠ 0 := by split <;> decide
    have hall := (hrep.add hpow).trans (Nat.mul_add .. ▸ hurep.mul_left hscale)
    exact hall
  unfold InetChksum.addPbuf
  simp only [← hu]
  split
  · obtain ⟨hslt, hsrep⟩ := rep_swapBytesInWord hult
    refine ⟨hslt, hnew.trans ?_⟩
    cases swapped with
    | false =>
      have hback := (rep_two_swaps u.toNat).symm.trans (hsrep.mul_left (show 256 ≠ 0 by decide))
      simpa using hback
    | true => simpa using hsrep
  · exact ⟨hult, hnew⟩

theorem Sums.unswap {l : List Octet} {acc : BitVec 32 × Bool} (h : Sums l acc) :
    (unswap acc).toNat = onesSum l := by
  obtain ⟨hlt, hrep⟩ := h
  unfold InetChksum.unswap
  split
  · next hs =>
    obtain ⟨hslt, hsrep⟩ := rep_swapBytesInWord hlt
    rw [if_pos hs] at hrep
    exact (hrep.trans hsrep).eq_norm (by decide) (by omega)
  · next hs =>
    rw [if_neg hs, Nat.one_mul] at hrep
    exact hrep.eq_norm (by decide) (by omega)

theorem addPbuf_swapped (m : Mem) (acc : BitVec 32 × Bool) (q : Pbuf) (chklen : BitVec 16) :
    (addPbuf m acc q chklen).2 = if q.len.toNat % 2 = 1 then !acc.2 else acc.2 := by
  unfold addPbuf
  have h : q.len.toNat % 2 ≠ 0 ↔ q.len.toNat % 2 = 1 := by omega
  simp only [h]
  split <;> rfl

theorem swapped_append {l o : List Octet} {b : Bool} (h : b = decide (l.length % 2 = 1)) :
    (if o.length % 2 = 1 then !b else b) = decide ((l ++ o).length % 2 = 1) := by
  rw [h, List.length_append]
  split <;> rcases Nat.mod_two_eq_zero_or_one l.length with he | he <;> simp [*] <;> omega

theorem sums_foldl (m : Mem) (p : List Pbuf) {l : List Octet} {acc : BitVec 32 × Bool}
    (h : Sums l acc) (hodd : acc.2 = decide (l.length % 2 = 1)) :
    Sums (l ++ chainOctets m p) (p.foldl (fun acc q => addPbuf m acc q q.len) acc) := by
  induction p generalizing l acc with
  | nil => simpa [chainOctets] using h
  | cons q p ih =>
    have hnext := swapped_append (o := octets m q.payload q.len.toNat) hodd
    rw [length_octets, ← addPbuf_swapped m acc q q.len] at hnext
    have := ih (h.addPbuf hodd m q q.len) hnext
    simpa [chainOctets, List.append_assoc] using this

theorem take_octets (m : Mem) (a len n : Nat) (h : n ≤ len) :
    (octets m a len).take n = octets m a n := by
  obtain ⟨k, rfl⟩ := Nat.exists_eq_add_of_le h
  rw [octets_add, List.take_left' (length_octets m a n)]

/-- The loop may stop inside of a pbuf: the flag no longer tells the parity then, but nothing
follows. -/
theorem sums_addPartial (m : Mem) (p : List Pbuf) {l : List Octet} {acc : BitVec 32 × Bool}
    (h : Sums l acc) (hodd : acc.2 = decide (l.length % 2 = 1)) (chksumLen : BitVec 16) :
    Sums (l ++ (chainOctets m p).take chksumLen.toNat) (addPartial m acc p chksumLen) := by
  induction p generalizing l acc chksumLen with
  | nil => simpa [chainOctets, addPartial] using h
  | cons q p ih =>
    have hcons : chainOctets m (q :: p) = octets m q.payload q.len.toNat ++ chainOctets m p := rfl
    rw [addPartial, hcons, List.take_append, length_octets]
    split
    · next h0 => simpa [h0] using h
    · split
      · next hlt =>
        have hle : chksumLen.toNat ≤ q.len.toNat := by
          rw [BitVec.lt_def] at hlt
          omega
        have hstop : addPartial m (addPbuf m acc q chksumLen) p (chksumLen - chksumLen) =
            addPbuf m acc q chksumLen := by
          rw [BitVec.sub_self]
          cases p <;> rfl
        rw [take_octets _ _ _ _ hle, Nat.sub_eq_zero_of_le hle, List.take_zero, List.append_nil,
          hstop]
        exact h.addPbuf hodd m q chksumLen
      · next hge =>
        have hle : q.len.toNat ≤ chksumLen.toNat := by
          rw [BitVec.lt_def] at hge
          omega
        have hnext := swapped_append (o := octets m q.payload q.len.toNat) hodd
        rw [length_octets, ← addPbuf_swapped m acc q q.len] at hnext
        have := ih (h.addPbuf hodd m q q.len) hnext (chksumLen - q.len)
        rw [BitVec.toNat_sub_of_le (by rwa [BitVec.le_def])] at this
        rw [List.take_of_length_le (by rwa [length_octets])]
        simpa [List.append_assoc] using this

theorem toNat_complement (w : BitVec 32) (h : w.toNat < 65536) :
    (~~~((w &&& 0xffff#32).setWidth 16)).toNat = 65535 - w.toNat := by
  have hmask : (0xffff#32).toNat = 2 ^ 16 - 1 := rfl
  rw [BitVec.toNat_not, BitVec.toNat_setWidth, BitVec.toNat_and, hmask,
    Nat.and_two_pow_sub_one_eq_mod]
  omega

theorem inetChksum_eq (m : Mem) (dataptr : Nat) (len : BitVec 16) :
    (inetChksum m dataptr len).toNat = 65535 - onesSum (octets m dataptr len.toNat) := by
  rw [inetChksum, BitVec.toNat_not, lwipStandardChksum_eq]

theorem inetChksumPbuf_eq (m : Mem) (p : List Pbuf) :
    (inetChksumPbuf m p).toNat = 65535 - onesSum (chainOctets m p) := by
  have hsum := (sums_foldl m p sums_nil rfl).unswap
  rw [List.nil_append] at hsum
  have hle := onesSum_le (chainOctets m p)
  simp only [inetChksumPbuf]
  rw [toNat_complement _ (by omega), hsum]

/-! ## The pseudo header -/

/-- The octets of an address, as it stands in memory. -/
def addrOctets (addr : BitVec 32) : List Octet :=
  [addr.extractLsb' 0 8, addr.extractLsb' 8 8, addr.extractLsb' 16 8, addr.extractLsb' 24 8]

def pseudoHeader (src dest : BitVec 32) (proto : BitVec 8) (protoLen : BitVec 16) : List Octet :=
  addrOctets src ++ addrOctets dest ++
    [0, proto, protoLen.extractLsb' 8 8, protoLen.extractLsb' 0 8]

theorem toNat_htons (s : BitVec 16) : (htons s).toNat = swap 256 s.toNat := by
  have hs := s.isLt
  have hwide : (s.setWidth 32).toNat = s.toNat := by
    rw [BitVec.toNat_setWidth]
    omega
  have hlt := swap_lt (c := 256) hs
  rw [htons, BitVec.toNat_setWidth, toNat_swapBytesInWord _ (by omega), hwide,
    Nat.mod_eq_of_lt hlt]

@[simp] theorem length_addrOctets (addr : BitVec 32) : (addrOctets addr).length = 4 := rfl

theorem number_addrOctets (addr : BitVec 32) : number (addrOctets addr) = addr.toNat := by
  have := addr.isLt
  simp only [addrOctets, number_cons, number_nil, BitVec.extractLsb'_toNat,
    Nat.shiftRight_eq_div_pow]
  omega

@[simp] theorem length_pseudoHeader (src dest : BitVec 32) (proto : BitVec 8)
    (protoLen : BitVec 16) : (pseudoHeader src dest proto protoLen).length = 12 := rfl

theorem rep_pseudoHeader (src dest : BitVec 32) (proto : BitVec 8) (protoLen : BitVec 16) :
    Rep 65535 (number (pseudoHeader src dest proto protoLen))
      (fold 65536 src.toNat + fold 65536 dest.toNat + swap 256 proto.toNat +
        swap 256 protoLen.toNat) := by
  have hproto := proto.isLt
  have hlen := protoLen.isLt
  have hone : ∀ k n, Rep 65535 (256 ^ (2 * k) * n) n := fun k n => by
    rw [pow_mul]
    exact rep_pow_one (by decide) (by decide) k n
  have hlast : Rep 65535 (number [0, proto, protoLen.extractLsb' 8 8, protoLen.extractLsb' 0 8])
      (swap 256 proto.toNat + swap 256 protoLen.toNat) := by
    have hhigh := hone 1 (protoLen.toNat / 256 + 256 * (protoLen.toNat % 256))
    have hnum : number [0, proto, protoLen.extractLsb' 8 8, protoLen.extractLsb' 0 8] =
        256 * proto.toNat +
          256 ^ (2 * 1) * (protoLen.toNat / 256 + 256 * (protoLen.toNat % 256)) := by
      simp only [number_cons, number_nil, BitVec.extractLsb'_toNat, Nat.shiftRight_eq_div_pow]
      have h0 : BitVec.toNat (0 : Octet) = 0 := rfl
      omega
    have hswap : swap 256 proto.toNat + swap 256 protoLen.toNat =
        256 * proto.toNat + (protoLen.toNat / 256 + 256 * (protoLen.toNat % 256)) := by
      unfold swap
      omega
    rw [hnum, hswap]
    exact hhigh.add_left _
  have hsrc : Rep 65535 src.toNat (fold 65536 src.toNat) := rep_fold (by decide) _
  have hdest : Rep 65535 dest.toNat (fold 65536 dest.toNat) := rep_fold (by decide) _
  rw [pseudoHeader, number_append, number_append, number_addrOctets, number_addrOctets,
    List.length_append, length_addrOctets, length_addrOctets, Nat.add_assoc (_ + _)]
  exact (hsrc.add ((hone 2 _).trans hdest)).add ((hone 4 _).trans hlast)

theorem addPseudo_eq (acc src dest : BitVec 32) (proto : BitVec 8) (protoLen : BitVec 16)
    (l : List Octet) (hacc : acc.toNat = onesSum l) :
    (addPseudo acc src dest proto protoLen).toNat =
      65535 - onesSum (pseudoHeader src dest proto protoLen ++ l) := by
  have hle := onesSum_le l
  have hmask : (0xffff#32).toNat = 2 ^ 16 - 1 := rfl
  have hsrc := src.isLt
  have hdest := dest.isLt
  have hp := (htons (proto.setWidth 16)).isLt
  have hl := (htons protoLen).isLt
  have hwide : (proto.setWidth 16).toNat = proto.toNat := by
    have := proto.isLt
    rw [BitVec.toNat_setWidth]
    omega
  set u := acc + (src &&& 0xffff#32) + ((src >>> 16) &&& 0xffff#32) + (dest &&& 0xffff#32) +
    ((dest >>> 16) &&& 0xffff#32) + (htons (proto.setWidth 16)).setWidth 32 +
    (htons protoLen).setWidth 32 with hu
  have hunat : u.toNat = acc.toNat + (fold 65536 src.toNat + fold 65536 dest.toNat +
      swap 256 proto.toNat + swap 256 protoLen.toNat) := by
    have hlow : ∀ w : BitVec 32, (w &&& 0xffff#32).toNat = w.toNat % 65536 := fun w => by
      rw [BitVec.toNat_and, hmask, Nat.and_two_pow_sub_one_eq_mod]
    have hhigh : ∀ w : BitVec 32, ((w >>> 16) &&& 0xffff#32).toNat = w.toNat / 65536 := fun w => by
      have := w.isLt
      rw [hlow, BitVec.toNat_ushiftRight, Nat.shiftRight_eq_div_pow]
      omega
    have h16 : ∀ h : BitVec 16, (h.setWidth 32).toNat = h.toNat := fun h => by
      rw [BitVec.toNat_setWidth]
      omega
    have add_short : ∀ (x y : BitVec 32) (n k : Nat), x.toNat = n → y.toNat = k → n < 6 * 65536 →
        k < 65536 → (x + y).toNat = n + k := fun x y n k hx hy hn hk => by
      rw [BitVec.toNat_add_of_lt (by omega), hx, hy]
    have h1 := add_short acc (src &&& 0xffff#32) _ _ hacc (hlow src) (by omega) (by omega)
    have h2 := add_short _ ((src >>> 16) &&& 0xffff#32) _ _ h1 (hhigh src) (by omega) (by omega)
    have h3 := add_short _ (dest &&& 0xffff#32) _ _ h2 (hlow dest) (by omega) (by omega)
    have h4 := add_short _ ((dest >>> 16) &&& 0xffff#32) _ _ h3 (hhigh dest) (by omega) (by omega)
    have h5 := add_short _ _ _ _ h4 (h16 (htons (proto.setWidth 16))) (by omega) (by omega)
    have h6 := add_short _ _ _ _ h5 (h16 (htons protoLen)) (by omega) (by omega)
    rw [hu, h6, toNat_htons, toNat_htons, hwide, hacc]
    unfold fold
    omega
  have hfold : Rep 65535 u.toNat (foldU32t (foldU32t u)).toNat :=
    (rep_foldU32t u).trans (rep_foldU32t _)
  have hlow : (foldU32t (foldU32t u)).toNat < 65536 := by
    rw [toNat_foldU32t, toNat_foldU32t]
    exact fold_fold_lt (k := 65536) (by decide) u.isLt
  have hnum : Rep 65535 (number (pseudoHeader src dest proto protoLen ++ l)) u.toNat := by
    have hbehind : Rep 65535 (256 ^ (2 * 6) * number l) acc.toNat := by
      rw [pow_mul, hacc]
      exact (rep_pow_one (by decide) (by decide) 6 _).trans (rep_norm _ _)
    rw [number_append, hunat, Nat.add_comm]
    exact hbehind.add (rep_pseudoHeader src dest proto protoLen)
  have hshow : addPseudo acc src dest proto protoLen =
      ~~~((foldU32t (foldU32t u) &&& 0xffff#32).setWidth 16) := rfl
  rw [hshow, toNat_complement _ hlow, onesSum, (hnum.trans hfold).eq_norm (by decide) (by omega)]

theorem inetChksumPseudo_eq (m : Mem) (p : List Pbuf) (src dest : BitVec 32) (proto : BitVec 8)
    (protoLen : BitVec 16) :
    (inetChksumPseudo m p src dest proto protoLen).toNat =
      65535 - onesSum (pseudoHeader src dest proto protoLen ++ chainOctets m p) :=
  addPseudo_eq _ src dest proto protoLen _ (sums_foldl m p sums_nil rfl).unswap

theorem inetChksumPseudoPartial_eq (m : Mem) (p : List Pbuf) (src dest : BitVec 32)
    (proto : BitVec 8) (protoLen chksumLen : BitVec 16) :
    (inetChksumPseudoPartial m p src dest proto protoLen chksumLen).toNat =
      65535 - onesSum (pseudoHeader src dest proto protoLen ++
        (chainOctets m p).take chksumLen.toNat) :=
  addPseudo_eq _ src dest proto protoLen _ (sums_addPartial m p sums_nil rfl chksumLen).unswap

/-! ## The chain as one buffer -/

theorem octets_flat (l : List Octet) : octets (flat l) 0 l.length = l := by
  apply List.ext_getElem
  · rw [length_octets]
  · intro i h1 h2
    simp [octets, flat, List.getD_eq_getElem?_getD, List.getElem?_eq_getElem h2]

theorem eq_complement_flat {c : BitVec 16} {l : List Octet} (h : c.toNat = 65535 - onesSum l) :
    c = ~~~(lwipStandardChksum (flat l) 0 l.length) := by
  apply BitVec.eq_of_toNat_eq
  rw [h, BitVec.toNat_not, lwipStandardChksum_eq, octets_flat]

/-- However the pbufs cut a packet, and at whatever addresses they are: the checksum is that of the
octets in one piece, behind the pseudo header. -/
theorem inetChksum_chain (m : Mem) (p : List Pbuf) (src dest : BitVec 32) (proto : BitVec 8)
    (protoLen chksumLen : BitVec 16) :
    let flatChksum := fun l => ~~~(lwipStandardChksum (flat l) 0 l.length)
    let pseudo := pseudoHeader src dest proto protoLen
    inetChksumPbuf m p = flatChksum (chainOctets m p) ∧
      inetChksumPseudo m p src dest proto protoLen = flatChksum (pseudo ++ chainOctets m p) ∧
      inetChksumPseudoPartial m p src dest proto protoLen chksumLen =
        flatChksum (pseudo ++ (chainOctets m p).take chksumLen.toNat) :=
  ⟨eq_complement_flat (inetChksumPbuf_eq m p),
    eq_complement_flat (inetChksumPseudo_eq m p src dest proto protoLen),
    eq_complement_flat (inetChksumPseudoPartial_eq m p src dest proto protoLen chksumLen)⟩

end FreeLwip.Ip.InetChksum
