import FreeLwip.Ip.InetChksum

/-!
# Checksum fields (`udp.c`, `tcp_out.c`, `ip.c`, `icmp.c`)

What the senders write into the checksum fields, and what the receivers make of it. A field stands
at an even offset, and its two octets are in the order of the sum.
-/

namespace FreeLwip.Ip.InetChksum

open Ones

def ipProtoUdp : BitVec 8 := 17
def udpHlen : BitVec 16 := 8
def icmpEr : BitVec 8 := 0
def icmpEcho : BitVec 16 := 8

/-! ## The code -/

/-- The checksum of `udp_sendto_if_chksum`, over the datagram with a zero in the field; `chksum` is
the sum of the data, if the caller has it from its copy. -/
def udpSendtoIfChksum (m : Mem) (q : List Pbuf) (srcIp dstIp : BitVec 32) (totLen : BitVec 16)
    (chksum : Option (BitVec 16)) : BitVec 16 :=
  let udpchksum :=
    match chksum with
    | some chksum =>
      let udpchksum := inetChksumPseudoPartial m q srcIp dstIp ipProtoUdp totLen udpHlen
      (foldU32t (udpchksum.setWidth 32 + (~~~chksum).setWidth 32)).setWidth 16
    | none => inetChksumPseudo m q srcIp dstIp ipProtoUdp totLen
  if udpchksum = 0 then 0xffff#16 else udpchksum

/-- Does `udp_input` go on with the datagram? A zero in the field means that there is none. -/
def udpInputAccepts (m : Mem) (p : List Pbuf) (src dest : BitVec 32) (totLen field : BitVec 16) :
    Bool :=
  field == 0 || inetChksumPseudo m p src dest ipProtoUdp totLen == 0

def Mem.store (m : Mem) (a : Nat) (v : Octet) : Mem := Function.update m a v

def Mem.storeHalf (m : Mem) (a : Nat) (v : BitVec 16) : Mem :=
  (m.store a (v.extractLsb' 0 8)).store (a + 1) (v.extractLsb' 8 8)

/-- `icmp_input` adjusts the checksum: the type goes from `ICMP_ECHO` to zero. -/
def icmpAdjustChksum (chksum : BitVec 16) : BitVec 16 :=
  if htons (0xffff#16 - (icmpEcho <<< 8)) ≤ chksum then chksum + (htons (icmpEcho <<< 8) + 1#16)
  else chksum + htons (icmpEcho <<< 8)

/-- The answer to an echo request in `icmp_input`, made out of the request. -/
def icmpEchoReply (m : Mem) (iecho : Nat) : Mem :=
  let m := m.store iecho icmpEr
  m.storeHalf (iecho + 2) (icmpAdjustChksum (m.half (iecho + 2)))

/-! ## What a receiver accepts -/

def Verifies (l : List Octet) : Prop := onesSum l = 65535

theorem verifies_iff (l : List Octet) : Verifies l ↔ number l ≠ 0 ∧ 65535 ∣ number l :=
  norm_eq_iff (by decide)

theorem complement_eq_zero_iff {c : BitVec 16} {l : List Octet}
    (h : c.toNat = 65535 - onesSum l) : c = 0 ↔ Verifies l := by
  have hle := onesSum_le l
  have hz : c = 0 ↔ c.toNat = 0 := BitVec.toNat_inj.symm
  rw [hz, h, Verifies]
  omega

theorem inetChksum_eq_zero_iff (m : Mem) (dataptr : Nat) (len : BitVec 16) :
    inetChksum m dataptr len = 0 ↔ Verifies (octets m dataptr len.toNat) :=
  complement_eq_zero_iff (inetChksum_eq m dataptr len)

theorem inetChksumPbuf_eq_zero_iff (m : Mem) (p : List Pbuf) :
    inetChksumPbuf m p = 0 ↔ Verifies (chainOctets m p) :=
  complement_eq_zero_iff (inetChksumPbuf_eq m p)

theorem inetChksumPseudo_eq_zero_iff (m : Mem) (p : List Pbuf) (src dest : BitVec 32)
    (proto : BitVec 8) (protoLen : BitVec 16) :
    inetChksumPseudo m p src dest proto protoLen = 0 ↔
      Verifies (pseudoHeader src dest proto protoLen ++ chainOctets m p) :=
  complement_eq_zero_iff (inetChksumPseudo_eq m p src dest proto protoLen)

/-! ## A word in a packet -/

def halfOctets (c : BitVec 16) : List Octet := [c.extractLsb' 0 8, c.extractLsb' 8 8]

theorem number_halfOctets (c : BitVec 16) : number (halfOctets c) = c.toNat := by
  have := c.isLt
  simp only [halfOctets, number_cons, number_nil, BitVec.extractLsb'_toNat,
    Nat.shiftRight_eq_div_pow]
  omega

theorem rep_word (hd tl : List Octet) (c : BitVec 16) (heven : hd.length % 2 = 0) :
    Rep 65535 (number (hd ++ halfOctets c ++ tl))
      (c.toNat + onesSum (hd ++ halfOctets 0#16 ++ tl)) := by
  obtain ⟨k, hk⟩ : ∃ k, hd.length = 2 * k := ⟨hd.length / 2, by omega⟩
  have hword : number (hd ++ halfOctets c ++ tl) =
      (256 ^ 2) ^ k * c.toNat + number (hd ++ halfOctets 0#16 ++ tl) := by
    have hlen : ∀ c, (halfOctets c).length = 2 := fun _ => rfl
    rw [List.append_assoc, List.append_assoc, number_append, number_append, number_append,
      number_append, number_halfOctets, number_halfOctets, hlen, hlen, hk, pow_mul]
    rw [BitVec.toNat_ofNat, Nat.zero_mod]
    ring
  rw [hword]
  exact (rep_pow_one (by decide) (by decide) k _).add (rep_norm _ _)

theorem verifies_word_iff (hd tl : List Octet) (c : BitVec 16) (heven : hd.length % 2 = 0) :
    Verifies (hd ++ halfOctets c ++ tl) ↔ c.toNat + onesSum (hd ++ halfOctets 0#16 ++ tl) ≠ 0 ∧
      65535 ∣ c.toNat + onesSum (hd ++ halfOctets 0#16 ++ tl) := by
  have hrep := rep_word hd tl c heven
  rw [verifies_iff, ne_eq, ne_eq, hrep.2, ← Nat.modEq_zero_iff_dvd, ← Nat.modEq_zero_iff_dvd]
  have hmod : number (hd ++ halfOctets c ++ tl) ≡ 0 [MOD 65535] ↔
      c.toNat + onesSum (hd ++ halfOctets 0#16 ++ tl) ≡ 0 [MOD 65535] :=
    ⟨fun h => hrep.1.trans h, fun h => hrep.1.symm.trans h⟩
  rw [hmod]

theorem verifies_complement (hd tl : List Octet) (c : BitVec 16) (heven : hd.length % 2 = 0)
    (hc : c.toNat = 65535 - onesSum (hd ++ halfOctets 0#16 ++ tl)) :
    Verifies (hd ++ halfOctets c ++ tl) := by
  have hle := onesSum_le (hd ++ halfOctets 0#16 ++ tl)
  rw [verifies_word_iff hd tl c heven]
  have hsum : c.toNat + onesSum (hd ++ halfOctets 0#16 ++ tl) = 65535 := by omega
  rw [hsum]
  exact ⟨by decide, dvd_refl _⟩

/-- One word changed is one word detected, but for the two zeros of the arithmetic. -/
theorem not_verifies_of_word_ne (hd tl : List Octet) (a b : BitVec 16)
    (heven : hd.length % 2 = 0) (ha : Verifies (hd ++ halfOctets a ++ tl)) (hab : a ≠ b)
    (hzeros : ¬ (a = 0#16 ∧ b = 0xffff#16)) (hones : ¬ (a = 0xffff#16 ∧ b = 0#16)) :
    ¬ Verifies (hd ++ halfOctets b ++ tl) := by
  rw [verifies_word_iff hd tl _ heven] at ha ⊢
  rintro ⟨-, hb⟩
  have hmod : a.toNat ≡ b.toNat [MOD 65535] := by
    have h := (Nat.modEq_zero_iff_dvd.mpr ha.2).trans (Nat.modEq_zero_iff_dvd.mpr hb).symm
    exact Nat.ModEq.add_right_cancel' _ h
  have hlta := a.isLt
  have hltb := b.isLt
  have hne : a.toNat ≠ b.toNat := fun h => hab (BitVec.toNat_inj.mp h)
  simp only [← BitVec.toNat_inj, BitVec.toNat_ofNat] at hzeros hones
  unfold Nat.ModEq at hmod
  omega

/-! ## UDP -/

theorem foldComplement_eq {a b c : BitVec 16} {n k : Nat} (ha : a.toNat = 65535 - norm 65535 n)
    (hn : n ≠ 0) (hb : b.toNat = norm 65535 k) (hc : c.toNat = 65535 - norm 65535 (n + k)) :
    (if (foldU32t (a.setWidth 32 + (~~~b).setWidth 32)).setWidth 16 = 0 then 0xffff#16
      else (foldU32t (a.setWidth 32 + (~~~b).setWidth 32)).setWidth 16) =
      if c = 0 then 0xffff#16 else c := by
  have hna : norm 65535 n ≤ 65535 := norm_le (by decide) n
  have hkb : norm 65535 k ≤ 65535 := norm_le (by decide) k
  have hn0 : norm 65535 n ≠ 0 := fun h => hn ((rep_norm 65535 n).2.mp h)
  have hsum : norm 65535 (n + k) = norm 65535 (norm 65535 n + norm 65535 k) :=
    norm_congr (by decide) ((rep_norm _ n).add (rep_norm _ k))
  have hadd : (a.setWidth 32 + (~~~b).setWidth 32).toNat =
      (65535 - norm 65535 n) + (65535 - norm 65535 k) := by
    rw [BitVec.toNat_add, BitVec.toNat_setWidth, BitVec.toNat_setWidth, BitVec.toNat_not, ha, hb]
    omega
  have hv : ((foldU32t (a.setWidth 32 + (~~~b).setWidth 32)).setWidth 16).toNat =
      fold 65536 ((65535 - norm 65535 n) + (65535 - norm 65535 k)) := by
    rw [BitVec.toNat_setWidth, toNat_foldU32t, hadd]
    unfold fold
    omega
  generalize (foldU32t (a.setWidth 32 + (~~~b).setWidth 32)).setWidth 16 = v at hv ⊢
  rw [hsum] at hc
  have hz : ∀ x : BitVec 16, x = 0 ↔ x.toNat = 0 := fun x => BitVec.toNat_inj.symm
  generalize norm 65535 n = x at *
  generalize norm 65535 k = y at *
  have hnorm : norm 65535 (x + y) = (x + y - 1) % 65535 + 1 := if_neg (by omega)
  rw [hnorm] at hc
  unfold fold at hv
  have h16 : (0xffff#16).toNat = 65535 := rfl
  apply BitVec.eq_of_toNat_eq
  rw [apply_ite BitVec.toNat, apply_ite BitVec.toNat, hv, hc, h16]
  simp only [hz, hv, hc]
  split <;> split <;> omega

/-- The caller of `udp_sendto_chksum` has no sum, or that of the data. -/
def CopySum (data : List Octet) (chksum : Option (BitVec 16)) : Prop :=
  ∀ c, chksum = some c → c.toNat = onesSum data

theorem number_pseudoHeader_ne_zero (src dest : BitVec 32) (protoLen : BitVec 16)
    (l : List Octet) :
    number (pseudoHeader src dest ipProtoUdp protoLen ++ l) ≠ 0 := by
  intro h
  have hrep := rep_pseudoHeader src dest ipProtoUdp protoLen
  have hzero : number (pseudoHeader src dest ipProtoUdp protoLen) = 0 := by
    rw [number_append] at h
    exact (Nat.add_eq_zero_iff.mp h).1
  have hswap : swap 256 ipProtoUdp.toNat = 4352 := by decide
  have := hrep.2.mpr hzero
  omega

theorem udpSendtoIfChksum_copy (m : Mem) (q : List Pbuf) (src dest : BitVec 32)
    (totLen : BitVec 16) (chksum : Option (BitVec 16))
    (hchksum : CopySum ((chainOctets m q).drop 8) chksum) :
    udpSendtoIfChksum m q src dest totLen chksum = udpSendtoIfChksum m q src dest totLen none := by
  cases chksum with
  | none => rfl
  | some c =>
    set hd := pseudoHeader src dest ipProtoUdp totLen ++ (chainOctets m q).take 8 with hhd
    have hpart := inetChksumPseudoPartial_eq m q src dest ipProtoUdp totLen udpHlen
    have hfull := inetChksumPseudo_eq m q src dest ipProtoUdp totLen
    have hcut : pseudoHeader src dest ipProtoUdp totLen ++ chainOctets m q =
        hd ++ (chainOctets m q).drop 8 := by
      rw [hhd, List.append_assoc, List.take_append_drop]
    have hnum : Rep 65535 (number (hd ++ (chainOctets m q).drop 8))
        (number hd + number ((chainOctets m q).drop 8)) := by
      rw [number_append]
      rcases Nat.lt_or_ge (chainOctets m q).length 8 with hlt | hge
      · rw [List.drop_eq_nil_of_le (by omega), number_nil, Nat.mul_zero]
      · have hlen : hd.length = 2 * 10 := by
          rw [hhd, List.length_append, List.length_take, Nat.min_eq_left hge, length_pseudoHeader]
        rw [hlen, pow_mul]
        exact (rep_pow_one (by decide) (by decide) 10 _).add_left _
    rw [hcut, onesSum, norm_congr (by decide) hnum] at hfull
    exact foldComplement_eq hpart (number_pseudoHeader_ne_zero src dest totLen _)
      (hchksum c rfl) hfull

/-- What is sent with a checksum, made on copying or not, is the same, and is accepted, however the
receiver's pbufs cut it. -/
theorem udp_checksum_roundtrip (m m' : Mem) (q p : List Pbuf) (src dest : BitVec 32)
    (totLen : BitVec 16)
    (chksum : Option (BitVec 16)) (hdr data : List Octet) (hhdr : hdr.length = 6)
    (hq : chainOctets m q = hdr ++ halfOctets 0#16 ++ data) (hchksum : CopySum data chksum)
    (hp : chainOctets m' p =
      hdr ++ halfOctets (udpSendtoIfChksum m q src dest totLen chksum) ++ data) :
    let field := udpSendtoIfChksum m q src dest totLen chksum
    field = udpSendtoIfChksum m q src dest totLen none ∧ field ≠ 0 ∧
      udpInputAccepts m' p src dest totLen field = true := by
  have hdrop : (chainOctets m q).drop 8 = data := by
    rw [hq]
    exact List.drop_left' (by simp [hhdr, halfOctets])
  have hcopy := udpSendtoIfChksum_copy m q src dest totLen chksum (by rwa [hdrop])
  have hfull := inetChksumPseudo_eq m q src dest ipProtoUdp totLen
  simp only [hcopy] at hp ⊢
  set c := udpSendtoIfChksum m q src dest totLen none with hc
  have hc' : c = if inetChksumPseudo m q src dest ipProtoUdp totLen = 0 then 0xffff#16
      else inetChksumPseudo m q src dest ipProtoUdp totLen := rfl
  suffices hsuff : c ≠ 0 ∧ inetChksumPseudo m' p src dest ipProtoUdp totLen = 0 by
    exact ⟨trivial, hsuff.1, by simp [udpInputAccepts, hsuff.2]⟩
  rw [inetChksumPseudo_eq_zero_iff, hp, ← List.append_assoc, ← List.append_assoc]
  rw [hq, ← List.append_assoc, ← List.append_assoc] at hfull
  set hd := pseudoHeader src dest ipProtoUdp totLen ++ hdr with hhd
  have heven : hd.length % 2 = 0 := by
    rw [hhd, List.length_append, hhdr, length_pseudoHeader]
  split at hc'
  · next h0 =>
    have hones : Verifies (hd ++ halfOctets 0#16 ++ data) := (complement_eq_zero_iff hfull).mp h0
    refine ⟨by rw [hc']; decide, (verifies_word_iff hd data _ heven).mpr ?_⟩
    rw [hones, hc']
    decide
  · next h0 =>
    rw [hc']
    exact ⟨h0, verifies_complement hd data _ heven hfull⟩

theorem udp_checksum_roundtrip_zeros :
    let q : List Pbuf := [⟨0, 3⟩, ⟨3, 6⟩]
    let c := udpSendtoIfChksum (fun _ => 0) q 0x0a000001 0x0a000002 9 (some 0)
    let m' := flat (List.replicate 6 0 ++ halfOctets c ++ [0])
    c = udpSendtoIfChksum (fun _ => 0) q 0x0a000001 0x0a000002 9 none ∧ c ≠ 0 ∧
      udpInputAccepts m' [⟨0, 9⟩] 0x0a000001 0x0a000002 9 c = true :=
  udp_checksum_roundtrip (fun _ => 0) _ [⟨0, 3⟩, ⟨3, 6⟩] [⟨0, 9⟩] 0x0a000001 0x0a000002 9 (some 0)
    (List.replicate 6 0) [0] rfl rfl (fun c hc => by cases hc; decide)
    ((List.append_nil _).trans (octets_flat _))

/-! ## Damage -/

/-- One damaged word of an accepted packet is found, at any even offset and however the pbufs cut
it, but for a zero turned into the other one. -/
theorem inetChksumPseudo_damage (m m' : Mem) (p p' : List Pbuf) (src dest : BitVec 32)
    (proto : BitVec 8) (protoLen a b : BitVec 16) (hd tl : List Octet)
    (heven : hd.length % 2 = 0) (hp : chainOctets m p = hd ++ halfOctets a ++ tl)
    (hp' : chainOctets m' p' = hd ++ halfOctets b ++ tl)
    (hok : inetChksumPseudo m p src dest proto protoLen = 0) (hab : a ≠ b)
    (hzeros : ¬ (a = 0#16 ∧ b = 0xffff#16)) (hones : ¬ (a = 0xffff#16 ∧ b = 0#16)) :
    inetChksumPseudo m' p' src dest proto protoLen ≠ 0 := by
  have heven' : (pseudoHeader src dest proto protoLen ++ hd).length % 2 = 0 := by
    rw [List.length_append, length_pseudoHeader]
    omega
  rw [inetChksumPseudo_eq_zero_iff, hp, ← List.append_assoc, ← List.append_assoc] at hok
  rw [ne_eq, inetChksumPseudo_eq_zero_iff, hp', ← List.append_assoc, ← List.append_assoc]
  exact not_verifies_of_word_ne _ tl a b heven' hok hab hzeros hones

theorem inetChksumPseudo_damage_word :
    inetChksumPseudo (flat (halfOctets 0xf7ff#16)) [⟨0, 2⟩] 0 0 6 2 = 0 ∧
      inetChksumPseudo (flat (halfOctets 0xf7fe#16)) [⟨0, 1⟩, ⟨1, 1⟩] 0 0 6 2 ≠ 0 :=
  ⟨by decide, inetChksumPseudo_damage (flat (halfOctets 0xf7ff#16)) _ [⟨0, 2⟩] _ 0 0 6 2 0xf7ff#16
    0xf7fe#16 [] [] rfl (by decide) (by decide) (by decide) (by decide) (by decide) (by decide)⟩

/-! ## ICMP -/

theorem icmpAdjustChksum_eq (c : BitVec 16) :
    (icmpAdjustChksum c).toNat =
      if 0xfff7 ≤ c.toNat then c.toNat + 9 - 65536 else c.toNat + 8 := by
  have hbound : htons (0xffff#16 - (icmpEcho <<< 8)) = 0xfff7#16 := by decide
  have hplus : htons (icmpEcho <<< 8) = 8#16 := by decide
  have hc := c.isLt
  rw [icmpAdjustChksum, hbound, hplus]
  simp only [BitVec.le_def, BitVec.toNat_ofNat]
  split
  · rw [BitVec.toNat_add, BitVec.toNat_add, BitVec.toNat_ofNat, BitVec.toNat_ofNat]
    omega
  · rw [BitVec.toNat_add, BitVec.toNat_ofNat]
    omega

theorem number_eq_zero_iff (l : List Octet) : number l = 0 ↔ ∀ b ∈ l, b = 0 := by
  induction l with
  | nil => simp
  | cons b l ih =>
    have hb : b = 0 ↔ b.toNat = 0 := BitVec.toNat_inj.symm
    rw [number_cons, List.forall_mem_cons, ← ih, hb]
    omega

theorem number_echo (ty code : Octet) (c : BitVec 16) (rest : List Octet) :
    number (ty :: code :: (halfOctets c ++ rest)) =
      ty.toNat + 256 * code.toNat + 65536 * c.toNat + 4294967296 * number rest := by
  have hlen : (halfOctets c).length = 2 := rfl
  rw [number_cons, number_cons, number_append, number_halfOctets, hlen]
  ring

theorem verifies_echoReply_iff (code : Octet) (c : BitVec 16) (rest : List Octet)
    (h : Verifies (8 :: code :: (halfOctets c ++ rest))) :
    Verifies (0 :: code :: (halfOctets (icmpAdjustChksum c) ++ rest)) ↔
      code ≠ 0 ∨ ∃ b ∈ rest, b ≠ 0 := by
  have hrest : (∃ b ∈ rest, b ≠ 0) ↔ number rest ≠ 0 := by
    rw [ne_eq, number_eq_zero_iff]
    simp
  have hcode : code ≠ 0 ↔ code.toNat ≠ 0 := BitVec.toNat_inj.symm.not
  rw [verifies_iff, number_echo] at h
  rw [verifies_iff, number_echo, hrest, hcode, icmpAdjustChksum_eq]
  have h8 : BitVec.toNat (8 : Octet) = 8 := rfl
  have h0 : BitVec.toNat (0 : Octet) = 0 := rfl
  rw [h8] at h
  rw [h0]
  have hc := c.isLt
  obtain ⟨-, k, hk⟩ := h
  -- the adjustment that wraps is one below the carry: it leaves the zero where it is due
  split <;> constructor
  · rintro ⟨hne, -⟩
    by_contra hall
    omega
  · exact fun hor => ⟨by omega, by omega⟩
  · rintro ⟨hne, -⟩
    by_contra hall
    omega
  · exact fun hor => ⟨by omega, by omega⟩

theorem octets_congr {m m' : Mem} {a len : Nat} (h : ∀ i < len, m (a + i) = m' (a + i)) :
    octets m a len = octets m' a len :=
  List.map_congr_left fun i hi => h i (List.mem_range.mp hi)

theorem halfOctets_append (x y : Octet) : halfOctets (x ++ y) = [y, x] := by
  have hx := x.isLt
  have hy := y.isLt
  unfold halfOctets
  congr 1
  · apply BitVec.eq_of_toNat_eq
    rw [BitVec.extractLsb'_toNat, toNat_append8, Nat.shiftRight_zero]
    omega
  · congr 1
    apply BitVec.eq_of_toNat_eq
    rw [BitVec.extractLsb'_toNat, toNat_append8, Nat.shiftRight_eq_div_pow]
    omega

theorem octets_header (m : Mem) (a len : Nat) (h : 4 ≤ len) :
    octets m a len =
      m a :: m (a + 1) :: (halfOctets (m.half (a + 2)) ++ octets m (a + 4) (len - 4)) := by
  have hhalf : halfOctets (m.half (a + 2)) = [m (a + 2), m (a + 3)] := halfOctets_append _ _
  have h4 : octets m a 4 = [m a, m (a + 1), m (a + 2), m (a + 3)] := rfl
  rw [hhalf, show len = 4 + (len - 4) by omega, octets_add, h4]
  simp

theorem icmpEchoReply_apply (m : Mem) (iecho x : Nat) :
    icmpEchoReply m iecho x =
      if x = iecho + 3 then (icmpAdjustChksum (m.half (iecho + 2))).extractLsb' 8 8
      else if x = iecho + 2 then (icmpAdjustChksum (m.half (iecho + 2))).extractLsb' 0 8
      else if x = iecho then icmpEr else m x := by
  have hhalf : (m.store iecho icmpEr).half (iecho + 2) = m.half (iecho + 2) := by
    unfold Mem.half Mem.store
    rw [Function.update_of_ne (by omega), Function.update_of_ne (by omega)]
  simp only [icmpEchoReply, hhalf]
  simp only [Mem.storeHalf, Mem.store, Function.update_apply]

/-- The answer to an accepted echo request is accepted in its turn, unless the request held nothing
but zeros: the sum of the answer is the positive zero then, and not the negative one. -/
theorem icmpEchoReply_accepted_iff (m : Mem) (iecho : Nat) (len : BitVec 16) (p : List Pbuf)
    (hlen : 4 ≤ len.toNat) (htype : m iecho = 8)
    (hdisj : ∀ q ∈ p, q.payload + q.len.toNat ≤ iecho ∨ iecho + 4 ≤ q.payload)
    (h : inetChksumPbuf m (⟨iecho, len⟩ :: p) = 0) :
    inetChksumPbuf (icmpEchoReply m iecho) (⟨iecho, len⟩ :: p) = 0 ↔
      m (iecho + 1) ≠ 0 ∨ ∃ b ∈ (chainOctets m (⟨iecho, len⟩ :: p)).drop 4, b ≠ 0 := by
  set rest := octets m (iecho + 4) (len.toNat - 4) ++ chainOctets m p with hrest
  have hbefore : chainOctets m (⟨iecho, len⟩ :: p) =
      8 :: m (iecho + 1) :: (halfOctets (m.half (iecho + 2)) ++ rest) := by
    rw [← htype, hrest, ← List.append_assoc]
    exact congrArg (· ++ chainOctets m p) (octets_header m iecho len.toNat hlen)
  have hsame : ∀ x, x < iecho ∨ iecho + 4 ≤ x → icmpEchoReply m iecho x = m x := fun x hx => by
    rw [icmpEchoReply_apply, if_neg (by omega), if_neg (by omega), if_neg (by omega)]
  have htail : chainOctets (icmpEchoReply m iecho) p = chainOctets m p := by
    apply List.flatMap_congr
    intro q hq
    apply octets_congr
    intro i hi
    have := hdisj q hq
    exact hsame _ (by omega)
  have hbody : octets (icmpEchoReply m iecho) (iecho + 4) (len.toNat - 4) =
      octets m (iecho + 4) (len.toNat - 4) :=
    octets_congr fun i _ => hsame _ (by omega)
  have hafter : chainOctets (icmpEchoReply m iecho) (⟨iecho, len⟩ :: p) =
      0 :: m (iecho + 1) :: (halfOctets (icmpAdjustChksum (m.half (iecho + 2))) ++ rest) := by
    have hhead := octets_header (icmpEchoReply m iecho) iecho len.toNat hlen
    have hhalf : halfOctets ((icmpEchoReply m iecho).half (iecho + 2)) =
        halfOctets (icmpAdjustChksum (m.half (iecho + 2))) := by
      rw [Mem.half, halfOctets_append, icmpEchoReply_apply, icmpEchoReply_apply,
        if_neg (by omega), if_pos rfl, if_pos rfl]
      rfl
    have htype : icmpEchoReply m iecho iecho = 0 := by
      rw [icmpEchoReply_apply, if_neg (by omega), if_neg (by omega), if_pos rfl]
      rfl
    have hcode : icmpEchoReply m iecho (iecho + 1) = m (iecho + 1) := by
      rw [icmpEchoReply_apply, if_neg (by omega), if_neg (by omega), if_neg (by omega)]
    rw [hhalf, hbody, htype, hcode] at hhead
    rw [hrest, ← htail, ← List.append_assoc]
    exact congrArg (· ++ chainOctets (icmpEchoReply m iecho) p) hhead
  rw [inetChksumPbuf_eq_zero_iff, hbefore] at h
  rw [inetChksumPbuf_eq_zero_iff, hafter, hbefore]
  exact verifies_echoReply_iff _ _ _ h

theorem icmpEchoReply_accepted_one :
    let m := flat [8, 0, 0xf6, 0xff, 1, 0, 0, 0]
    inetChksumPbuf (icmpEchoReply m 0) [⟨0, 8⟩] = 0 ↔
      m 1 ≠ 0 ∨ ∃ b ∈ (chainOctets m [⟨0, 8⟩]).drop 4, b ≠ 0 :=
  icmpEchoReply_accepted_iff (flat [8, 0, 0xf6, 0xff, 1, 0, 0, 0]) 0 8 [] (by decide) rfl
    (fun _ hq => nomatch hq) (by decide)

end FreeLwip.Ip.InetChksum
