import Kymux.Lib.BigEndian

/-! The strings of MessagePack: a header that tells the length, and the bytes. Its numbers are
written in as few bytes as they need. -/

namespace Kymux.MessagePack

open BigEndian

def fixstr : ℕ := 0xa0

def fixarrayOne : UInt8 := 0x91

def strHeader (length : ℕ) : Bytes :=
  if length < 32 then [UInt8.ofNat (fixstr + length)]
  else if length < 2 ^ 8 then 0xd9 :: encode 1 length
  else if length < 2 ^ 16 then 0xda :: encode 2 length
  else 0xdb :: encode 4 length

def str (bytes : Bytes) : Bytes := strHeader bytes.length ++ bytes

def readSized (n : ℕ) (bytes : Bytes) : Option (Bytes × Bytes) :=
  let length := decode (bytes.take n)
  if n ≤ bytes.length ∧ length ≤ (bytes.drop n).length then
    some ((bytes.drop n).take length, (bytes.drop n).drop length)
  else none

def readStr : Bytes → Option (Bytes × Bytes)
  | [] => none
  | marker :: bytes =>
    if marker = 0xd9 then readSized 1 bytes
    else if marker = 0xda then readSized 2 bytes
    else if marker = 0xdb then readSized 4 bytes
    else if fixstr ≤ marker.toNat ∧ marker.toNat < fixstr + 32 then
      let length := marker.toNat - fixstr
      if length ≤ bytes.length then some (bytes.take length, bytes.drop length) else none
    else none

theorem readSized_encode {n : ℕ} {bytes : Bytes} (h : bytes.length < 256 ^ n) (rest : Bytes) :
    readSized n (encode n bytes.length ++ (bytes ++ rest)) = some (bytes, rest) := by
  simp only [readSized, List.take_left' (length_encode n _), List.drop_left' (length_encode n _),
    decode_encode_of_lt h, List.length_append, length_encode, Nat.le_add_right, true_and, if_true,
    List.take_left, List.drop_left]

theorem readStr_str {bytes : Bytes} (h : bytes.length < 2 ^ 32) (rest : Bytes) :
    readStr (str bytes ++ rest) = some (bytes, rest) := by
  unfold str strHeader
  split_ifs with hfix h8 h16
  · have hmarker : (UInt8.ofNat (fixstr + bytes.length)).toNat = fixstr + bytes.length := by
      rw [UInt8.toNat_ofNat', fixstr]
      omega
    have hne : ∀ m : UInt8, fixstr + 32 ≤ m.toNat → UInt8.ofNat (fixstr + bytes.length) ≠ m := by
      rintro m hm rfl
      omega
    simp only [List.cons_append, List.nil_append, readStr, hne 0xd9 (by decide),
      hne 0xda (by decide), hne 0xdb (by decide), if_false, hmarker]
    simp [hfix]
  · have hread := readSized_encode (n := 1) (h8.trans_eq (by norm_num)) rest
    simpa only [List.cons_append, List.append_assoc, readStr, if_true] using hread
  · have hread := readSized_encode (n := 2) (h16.trans_eq (by norm_num)) rest
    simpa only [List.cons_append, List.append_assoc, readStr, show (0xda : UInt8) ≠ 0xd9 by decide,
      if_false, if_true] using hread
  · have hread := readSized_encode (n := 4) (h.trans_eq (by norm_num)) rest
    simpa only [List.cons_append, List.append_assoc, readStr, show (0xdb : UInt8) ≠ 0xd9 by decide,
      show (0xdb : UInt8) ≠ 0xda by decide, if_false, if_true] using hread

def fixmapOne : UInt8 := 0x81

def uint (x : ℕ) : Bytes :=
  if x < 128 then encode 1 x
  else if x < 2 ^ 8 then 0xcc :: encode 1 x
  else if x < 2 ^ 16 then 0xcd :: encode 2 x
  else if x < 2 ^ 32 then 0xce :: encode 4 x
  else 0xcf :: encode 8 x

def readNumber (n : ℕ) (bytes : Bytes) : Option ℕ :=
  if n ≤ bytes.length then some (decode (bytes.take n)) else none

def readUint : Bytes → Option ℕ
  | [] => none
  | marker :: bytes =>
    if marker.toNat < 128 then some marker.toNat
    else if marker = 0xcc then readNumber 1 bytes
    else if marker = 0xcd then readNumber 2 bytes
    else if marker = 0xce then readNumber 4 bytes
    else if marker = 0xcf then readNumber 8 bytes
    else none

theorem readNumber_encode {n x : ℕ} (h : x < 256 ^ n) : readNumber n (encode n x) = some x := by
  rw [readNumber, length_encode, if_pos le_rfl, List.take_of_length_le (length_encode n x).le,
    decode_encode_of_lt h]

theorem readUint_uint {x : ℕ} (h : x < 2 ^ 64) : readUint (uint x) = some x := by
  unfold uint
  split_ifs with hfix h8 h16 h32
  · have hmarker : (UInt8.ofNat (x / 256 ^ 0)).toNat = x := by
      rw [pow_zero, Nat.div_one, UInt8.toNat_ofNat']
      omega
    simp only [encode, readUint, hmarker, if_pos hfix]
  · exact readNumber_encode (n := 1) (h8.trans_eq (by norm_num))
  · exact readNumber_encode (n := 2) (h16.trans_eq (by norm_num))
  · exact readNumber_encode (n := 4) (h32.trans_eq (by norm_num))
  · exact readNumber_encode (n := 8) (h.trans_eq (by norm_num))

theorem length_strHeader (length : ℕ) : (strHeader length).length =
    if length < 32 then 1 else if length < 2 ^ 8 then 2 else if length < 2 ^ 16 then 3 else 5 := by
  unfold strHeader
  split_ifs <;> rfl

end Kymux.MessagePack
