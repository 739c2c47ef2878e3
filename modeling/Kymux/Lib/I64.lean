import Kymux.Lib.BigEndian

/-! Signed words of 64 bits, as integers: what leaves their range is an error. -/

namespace Kymux.I64

open BigEndian

variable {ε : Type} {e : ε} {x y lo hi : ℤ} {n : ℕ}

def InRange (x : ℤ) : Prop := -2 ^ 63 ≤ x ∧ x < 2 ^ 63

instance : DecidablePred InRange := fun _ ↦ inferInstanceAs (Decidable (_ ∧ _))

def fits (e : ε) (x : ℤ) : Except ε ℤ := if InRange x then .ok x else .error e

theorem fits_ok (h : InRange x) : fits e x = .ok x := if_pos h

def encode (x : ℤ) : Bytes := BigEndian.encode 8 (x % 2 ^ 64).toNat

def decode (bytes : Bytes) : ℤ :=
  if BigEndian.decode bytes < 2 ^ 63 then BigEndian.decode bytes
  else BigEndian.decode bytes - 2 ^ 64

@[simp] theorem length_encode (x : ℤ) : (encode x).length = 8 := BigEndian.length_encode 8 _

theorem decode_encode (h : InRange x) : decode (encode x) = x := by
  obtain ⟨hlow, hhigh⟩ := h
  have hlt : (x % 2 ^ 64).toNat < 256 ^ 8 := by omega
  rw [decode, encode, decode_encode_of_lt hlt]
  split_ifs <;> omega

theorem tdiv_mem (hn : 0 < n) (hlow : n * lo ≤ x) (hhigh : x ≤ n * hi) :
    lo ≤ x.tdiv n ∧ x.tdiv n ≤ hi := by
  have hpos : (0 : ℤ) < n := by exact_mod_cast hn
  constructor
  · rw [← Int.mul_tdiv_cancel_left lo hpos.ne']
    exact Int.tdiv_le_tdiv hpos hlow
  · rw [← Int.mul_tdiv_cancel_left hi hpos.ne']
    exact Int.tdiv_le_tdiv hpos hhigh

/-- Half of a number, truncated, is at most half away from it. -/
theorem abs_sub_two_mul_tdiv_le (x : ℤ) : |x - 2 * x.tdiv 2| ≤ 1 := by
  have hmod := Int.mul_tdiv_add_tmod x 2
  have hlt := Int.tmod_lt_of_pos x (show (0 : ℤ) < 2 by decide)
  have hgt := Int.lt_tmod_of_pos x (show (0 : ℤ) < 2 by decide)
  rw [abs_le]
  omega

end Kymux.I64
