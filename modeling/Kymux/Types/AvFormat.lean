import Kymux.Types.Av

namespace Kymux.Av

open BigEndian

theorem pts_fits_iff (x : UInt64) :
    (x &&& ~~~0x1FFFFFFFFFFFFFFF == 0) = true ↔ x.toNat < 2 ^ 61 := by
  have hm : (~~~(0x1FFFFFFFFFFFFFFF : UInt64)).toNat = 2 ^ 61 * 7 := by decide
  have hx := x.toNat_lt
  have hd : (x.toNat &&& 2 ^ 61 * 7) / 2 ^ 61 = x.toNat / 2 ^ 61 := by
    rw [Nat.and_div_two_pow, show 2 ^ 61 * 7 / 2 ^ 61 = 2 ^ 3 - 1 by decide,
      Nat.and_two_pow_sub_one_eq_mod]
    omega
  have hr : (x.toNat &&& 2 ^ 61 * 7) % 2 ^ 61 = 0 := by
    rw [Nat.and_mod_two_pow, show 2 ^ 61 * 7 % 2 ^ 61 = 0 by decide, Nat.and_zero]
  rw [beq_iff_eq, ← UInt64.toNat_inj, UInt64.toNat_and, hm]
  change x.toNat &&& 2 ^ 61 * 7 = 0 ↔ _
  omega

theorem high_bit_iff (b : UInt8) : (b &&& 0x80 != 0) = decide (128 ≤ b.toNat) := by
  have hb := b.toNat_lt
  have h : (b &&& 0x80).toNat = (b.toNat.testBit 7).toNat * 2 ^ 7 := by
    rw [UInt8.toNat_and, show (0x80 : UInt8).toNat = 2 ^ 7 by decide, Nat.and_two_pow]
  rw [Nat.testBit_eq_decide_div_mod_eq] at h
  rw [Bool.eq_iff_iff, bne_iff_ne, decide_eq_true_iff, ne_eq, ← UInt8.toNat_inj, h]
  by_cases hlt : b.toNat / 2 ^ 7 % 2 = 1
  · simp only [hlt, decide_true, Bool.toNat_true]
    change ¬1 * 2 ^ 7 = 0 ↔ _
    omega
  · simp only [hlt, decide_false, Bool.toNat_false]
    change ¬0 * 2 ^ 7 = 0 ↔ _
    omega

theorem flag_set_iff (x : UInt64) (i : ℕ) (flag : UInt64) (hf : flag.toNat = 2 ^ i) :
    (x &&& flag != 0) = x.toNat.testBit i := by
  have h : (x &&& flag).toNat = (x.toNat.testBit i).toNat * 2 ^ i := by
    rw [UInt64.toNat_and, hf, Nat.and_two_pow]
  rw [Bool.eq_iff_iff, bne_iff_ne, ne_eq, ← UInt64.toNat_inj, h]
  cases x.toNat.testBit i <;> simp

namespace MediaPacketHeader

variable {h : MediaPacketHeader} {bs : Bytes}

theorem ptsAndFlags_toNat (hp : h.pts.toNat < 2 ^ 61) :
    h.ptsAndFlags.toNat = 2 ^ 63 + (if h.isConfig then 2 ^ 62 else 0) +
      (if h.isKey then 2 ^ 61 else 0) + h.pts.toNat := by
  have hflags : ∀ c k : Bool, (mediaFlag ||| (if c then configFlag else 0) |||
      (if k then keyFlag else 0)).toNat =
        2 ^ 61 * (4 + (if c then 2 else 0) + (if k then 1 else 0)) := by decide
  have hassoc : h.ptsAndFlags.toNat = (mediaFlag ||| (if h.isConfig then configFlag else 0) |||
      (if h.isKey then keyFlag else 0)).toNat ||| h.pts.toNat := by
    simp only [ptsAndFlags, UInt64.toNat_or, Nat.or_assoc]
    rw [Nat.or_comm]
    simp only [Nat.or_assoc]
  rw [hassoc, hflags, ← Nat.two_pow_add_eq_or_of_lt hp]
  split_ifs <;> omega

theorem serialize_ok_iff :
    h.serialize = .ok bs ↔ h.pts.toNat < 2 ^ 61 ∧
      bs = encode 8 h.ptsAndFlags.toNat ++ encode 4 h.size.toNat := by
  unfold serialize assert
  by_cases hp : h.pts.toNat < 2 ^ 61
  · rw [if_pos ((pts_fits_iff _).mpr hp)]
    simp only [bind, Except.bind, pure, Except.pure, hp, true_and, Except.ok.injEq, eq_comm]
  · rw [if_neg (fun hc ↦ hp ((pts_fits_iff _).mp hc))]
    simp only [bind, Except.bind, hp, false_and, reduceCtorEq]

theorem length_of_serialize (hs : h.serialize = .ok bs) : bs.length = serializedSize := by
  obtain ⟨-, rfl⟩ := serialize_ok_iff.mp hs
  simp [serializedSize]

theorem high_bit_of_serialize (hs : h.serialize = .ok bs) (rest : Bytes) :
    ((bs ++ rest).getD 0 0 &&& 0x80 != 0) = true := by
  obtain ⟨hp, rfl⟩ := serialize_ok_iff.mp hs
  have hflags := ptsAndFlags_toNat hp
  have hlt := h.ptsAndFlags.toNat_lt
  have hbyte : ((encode 8 h.ptsAndFlags.toNat ++ encode 4 h.size.toNat ++ rest).getD 0 0) =
      UInt8.ofNat (h.ptsAndFlags.toNat / 256 ^ 7) := rfl
  rw [hbyte, high_bit_iff, decide_eq_true_iff, UInt8.toNat_ofNat']
  omega

theorem deserialize_serialize (hs : h.serialize = .ok bs) : deserialize bs = .ok h := by
  have hlen := length_of_serialize hs
  have hbit := high_bit_of_serialize hs []
  rw [List.append_nil] at hbit
  obtain ⟨hp, rfl⟩ := serialize_ok_iff.mp hs
  have hflags := ptsAndFlags_toNat hp
  have hlt := h.ptsAndFlags.toNat_lt
  have htake : UInt64.ofNat (decode ((encode 8 h.ptsAndFlags.toNat ++
      encode 4 h.size.toNat).take 8)) = h.ptsAndFlags := by
    rw [List.take_left' (length_encode _ _), decode_encode_of_lt (by omega), UInt64.ofNat_toNat]
  have hdrop : UInt32.ofNat (decode ((encode 8 h.ptsAndFlags.toNat ++
      encode 4 h.size.toNat).drop 8)) = h.size := by
    rw [List.drop_left' (length_encode _ _),
      decode_encode_of_lt (by have := h.size.toNat_lt; omega), UInt32.ofNat_toNat]
  have hcfg : (h.ptsAndFlags &&& configFlag != 0) = h.isConfig := by
    rw [flag_set_iff _ 62 _ (by decide), Nat.testBit_eq_decide_div_mod_eq, hflags]
    cases h.isConfig <;> cases h.isKey <;> simp <;> omega
  have hkey : (h.ptsAndFlags &&& keyFlag != 0) = h.isKey := by
    rw [flag_set_iff _ 61 _ (by decide), Nat.testBit_eq_decide_div_mod_eq, hflags]
    cases h.isConfig <;> cases h.isKey <;> simp <;> omega
  have hpts : h.ptsAndFlags &&& (keyFlag - 1) = h.pts := by
    rw [← UInt64.toNat_inj, UInt64.toNat_and, show (keyFlag - 1).toNat = 2 ^ 61 - 1 by decide,
      Nat.and_two_pow_sub_one_eq_mod, hflags]
    split_ifs <;> omega
  unfold deserialize assert
  rw [if_pos (by simpa using hlen), if_pos hbit]
  simp only [bind, Except.bind, pure, Except.pure, htake, hdrop, hcfg, hkey, hpts]

end MediaPacketHeader

namespace CodecPacketHeader

/-- The codec values whose header no reader takes for a media or hole header. -/
def Tagged (h : CodecPacketHeader) : Prop := 0 < h.codec.toNat ∧ h.codec.toNat < 2 ^ 31

variable {h : CodecPacketHeader}

theorem length_serialize (h : CodecPacketHeader) : h.serialize.length = serializedSize := by
  simp [serialize, serializedSize]

theorem high_bit_of_tagged (ht : h.Tagged) (rest : Bytes) :
    ((h.serialize ++ rest).getD 0 0 &&& 0x80 != 0) = false := by
  have hbyte : (h.serialize ++ rest).getD 0 0 = UInt8.ofNat (h.codec.toNat / 256 ^ 3) := rfl
  have := ht.2
  rw [hbyte, high_bit_iff, decide_eq_false_iff_not, UInt8.toNat_ofNat']
  omega

theorem take_four (h : CodecPacketHeader) : h.serialize.take 4 = encode 4 h.codec.toNat := by
  simp only [serialize, List.append_assoc]
  exact List.take_left' (length_encode _ _)

theorem take_four_ne_zero (ht : h.Tagged) : (h.serialize.take 4 == List.replicate 4 0) = false := by
  rw [take_four, beq_eq_false_iff_ne]
  intro heq
  have hd := decode_encode_of_lt (n := 4) (x := h.codec.toNat)
    (by have := h.codec.toNat_lt; omega)
  rw [heq] at hd
  have := ht.1
  have hz : decode (List.replicate 4 0) = 0 := by decide
  omega

theorem deserialize_serialize (ht : h.Tagged) : deserialize h.serialize = .ok h := by
  have hlen := length_serialize h
  have hbit := high_bit_of_tagged ht []
  rw [List.append_nil] at hbit
  have hcodec : UInt32.ofNat (decode (h.serialize.take 4)) = h.codec := by
    rw [take_four, decode_encode_of_lt (by have := h.codec.toNat_lt; omega), UInt32.ofNat_toNat]
  have hframe : UInt16.ofNat (decode ((h.serialize.drop 5).take 2)) = h.frameSize := by
    have hd : h.serialize.drop 5 = encode 2 h.frameSize.toNat ++ List.replicate 5 0 := by
      simp only [serialize]
      rw [List.append_assoc (encode 4 h.codec.toNat ++ [h.rotation])]
      exact List.drop_left' (by simp)
    rw [hd, List.take_left' (length_encode _ _),
      decode_encode_of_lt (by have := h.frameSize.toNat_lt; omega), UInt16.ofNat_toNat]
  have hrot : h.serialize.getD 4 0 = h.rotation := rfl
  unfold deserialize assert
  rw [if_pos (by simpa using hlen), if_pos (by simpa [bne] using hbit)]
  simp only [bind, Except.bind, pure, Except.pure, hcodec, hframe, hrot]

end CodecPacketHeader

end Kymux.Av
