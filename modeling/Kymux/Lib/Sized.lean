import Kymux.Lib.BigEndian

/-! Records of a size and as many bytes as it tells, which are read in pieces. -/

namespace Kymux.Sized

open BigEndian

variable {n : ℕ} {body got piece rest : Bytes}

def frame (n : ℕ) (body : Bytes) : Bytes := encode n body.length ++ body

structure Serde (n : ℕ) (α : Type) where
  toVec : α → Bytes
  fromSlice : Bytes → Option α
  length_toVec : ∀ a, (toVec a).length < 256 ^ n
  fromSlice_toVec : ∀ a, fromSlice (toVec a) = some a

def Serde.frame {n : ℕ} {α : Type} (serde : Serde n α) (a : α) : Bytes :=
  Sized.frame n (serde.toVec a)

/-- How many bytes a reader awaits that has got the given ones of a record: those of the size
first, and then those of the body. -/
def awaits (n : ℕ) (got : Bytes) : ℕ :=
  if got.length < n then n - got.length else n + decode (got.take n) - got.length

def full (n : ℕ) (got : Bytes) : Bool := decide (n ≤ got.length) && awaits n got = 0

theorem length_frame : (frame n body).length = n + body.length := by
  rw [frame, List.length_append, length_encode]

@[simp] theorem drop_frame : (frame n body).drop n = body := List.drop_left' (length_encode n _)

/-- Once the size is known, the rest of the body is awaited. -/
theorem awaits_of_le (hbody : body.length < 256 ^ n) (h : got <+: frame n body)
    (hle : n ≤ got.length) :
    awaits n got = (frame n body).length - got.length := by
  have htake : got.take n = encode n body.length := by
    rw [List.prefix_iff_eq_take.mp h, List.take_take, Nat.min_eq_left hle]
    exact List.take_left' (length_encode n _)
  rw [awaits, if_neg (not_lt.mpr hle), htake, decode_encode_of_lt hbody, length_frame]

theorem append_prefix_frame (hbody : body.length < 256 ^ n) (h : got <+: frame n body)
    (hpiece : piece.length ≤ awaits n got) (hall : got ++ piece <+: frame n body ++ rest) :
    got ++ piece <+: frame n body := by
  refine List.prefix_of_prefix_length_le hall (List.prefix_append _ _) ?_
  rw [List.length_append]
  by_cases hle : n ≤ got.length
  · have hgot := h.length_le
    rw [awaits_of_le hbody h hle] at hpiece
    omega
  · rw [awaits, if_pos (not_le.mp hle)] at hpiece
    rw [length_frame]
    omega

theorem eq_frame_of_full (hbody : body.length < 256 ^ n) (h : got <+: frame n body)
    (hfull : full n got = true) : got = frame n body := by
  simp only [full, Bool.and_eq_true, decide_eq_true_eq] at hfull
  refine h.eq_of_length_le ?_
  have hawaits := awaits_of_le hbody h hfull.1
  omega

end Kymux.Sized
