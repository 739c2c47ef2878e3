import Mathlib

namespace Kymux.BigEndian

abbrev Bytes := List UInt8

def encode : ℕ → ℕ → Bytes
  | 0, _ => []
  | n + 1, x => UInt8.ofNat (x / 256 ^ n) :: encode n x

def decode : Bytes → ℕ
  | [] => 0
  | b :: bs => b.toNat * 256 ^ bs.length + decode bs

@[simp] theorem length_encode (n x : ℕ) : (encode n x).length = n := by
  induction n with
  | zero => rfl
  | succ n ih => simp [encode, ih]

theorem decode_encode (n x : ℕ) : decode (encode n x) = x % 256 ^ n := by
  induction n with
  | zero => simp [encode, decode, Nat.mod_one]
  | succ n ih =>
    rw [encode, decode, ih, length_encode, UInt8.toNat_ofNat', pow_succ 256 n, Nat.mod_mul,
      Nat.mul_comm, Nat.add_comm]

theorem decode_encode_of_lt {n x : ℕ} (h : x < 256 ^ n) : decode (encode n x) = x := by
  rw [decode_encode, Nat.mod_eq_of_lt h]

theorem decode_lt (bs : Bytes) : decode bs < 256 ^ bs.length := by
  induction bs with
  | nil => simp [decode]
  | cons b bs ih =>
    have hb : b.toNat ≤ 255 := by
      have := b.toNat_lt
      omega
    have hmul := Nat.mul_le_mul_right (256 ^ bs.length) hb
    rw [decode, List.length_cons, pow_succ]
    omega

theorem encode_add_mul (n x k : ℕ) : encode n (x + 256 ^ n * k) = encode n x := by
  induction n generalizing k with
  | zero => rfl
  | succ n ih =>
    have hdiv : (x + 256 ^ (n + 1) * k) / 256 ^ n = x / 256 ^ n + 256 * k := by
      rw [pow_succ, Nat.mul_assoc, Nat.add_mul_div_left _ _ (by positivity)]
    have hmul : 256 ^ (n + 1) * k = 256 ^ n * (256 * k) := by ring
    rw [encode, encode, hdiv, hmul, ih]
    congr 1
    apply UInt8.toNat_inj.mp
    simp only [UInt8.toNat_ofNat']
    omega

theorem encode_mod (n x : ℕ) : encode n (x % 256 ^ n) = encode n x := by
  conv_rhs => rw [← Nat.mod_add_div x (256 ^ n)]
  rw [encode_add_mul]

theorem encode_decode (bs : Bytes) : encode bs.length (decode bs) = bs := by
  induction bs with
  | nil => rfl
  | cons b bs ih =>
    have hlt := decode_lt bs
    have hdiv : decode (b :: bs) / 256 ^ bs.length = b.toNat := by
      rw [decode, Nat.mul_comm, Nat.mul_add_div (by positivity), Nat.div_eq_of_lt hlt,
        Nat.add_zero]
    rw [List.length_cons, encode, hdiv, UInt8.ofNat_toNat]
    congr 1
    rw [decode, Nat.mul_comm, Nat.add_comm, encode_add_mul, ih]

theorem decode_inj {a b : Bytes} (hl : a.length = b.length) (h : decode a = decode b) : a = b := by
  rw [← encode_decode a, ← encode_decode b, hl, h]

end Kymux.BigEndian
