import Kymux.Auth
import Kymux.Lib.Utf8

namespace Kymux.Hex

open Auth BigEndian Utf8

/-- Why `u8::from_str_radix` fails. -/
inductive IntErrorKind
  | empty
  | invalidDigit
  | posOverflow
deriving DecidableEq

inductive DecodeHexError
  | oddLength
  | parseInt (kind : IntErrorKind)
deriving DecidableEq

/-- `char::to_digit` with radix 16, of a byte. -/
def toDigit (b : UInt8) : Option ℕ :=
  if 0x30 ≤ b ∧ b ≤ 0x39 then some (b.toNat - 0x30)
  else if 0x61 ≤ b ∧ b ≤ 0x66 then some (b.toNat - 0x61 + 10)
  else if 0x41 ≤ b ∧ b ≤ 0x46 then some (b.toNat - 0x41 + 10)
  else none

def parseDigits : ℕ → Bytes → Except IntErrorKind UInt8
  | result, [] => .ok (UInt8.ofNat result)
  | result, b :: digits =>
    match toDigit b with
    | none => .error .invalidDigit
    | some x =>
      if result * 16 + x < 256 then parseDigits (result * 16 + x) digits else .error .posOverflow

def plus : UInt8 := 0x2B

def minus : UInt8 := 0x2D

/-- `u8::from_str_radix` with radix 16: digits, with a plus before them or not. -/
def fromStrRadix : Bytes → Except IntErrorKind UInt8
  | [] => .error .empty
  | [b] => if b = plus ∨ b = minus then .error .invalidDigit else parseDigits 0 [b]
  | b :: digits => if b = plus then parseDigits 0 digits else parseDigits 0 (b :: digits)

/-- The panic of a slice, without the index and the text that it names. -/
def notCharBoundary : Fault := .panic "byte index is not a char boundary"

/-- `&s[i..j]` -/
def slice (bytes : Bytes) (i j : ℕ) : Except Fault Bytes :=
  if i ≤ j ∧ isCharBoundary bytes i ∧ isCharBoundary bytes j then .ok ((bytes.drop i).take (j - i))
  else .error notCharBoundary

def collect (bytes : Bytes) : List ℕ → Except Fault (Except DecodeHexError Bytes)
  | [] => .ok (.ok [])
  | i :: is => do
    match fromStrRadix (← slice bytes i (i + 2)) with
    | .error kind => return .error (.parseInt kind)
    | .ok b => return (← collect bytes is).map (b :: ·)

/-- A panic is the outer failure, the `Err` that is returned the inner one. -/
def hexToBytes (s : String) : Except Fault (Except DecodeHexError Bytes) :=
  if (utf8 s).length % 2 = 0 then collect (utf8 s) (List.range' 0 ((utf8 s).length / 2) 2)
  else .ok (.error .oddLength)

variable {a b r : UInt8} {c d : Char} {n : ℕ} {digits : Bytes}

theorem toDigit_lt (b : UInt8) : ∀ x ∈ toDigit b, x < 16 :=
  forall_byte (P := fun b ↦ ∀ x ∈ toDigit b, x < 16) (by decide +kernel) b

theorem toDigit_of_startsChar (b : UInt8) : startsChar b = false → toDigit b = none :=
  forall_byte (P := fun b ↦ startsChar b = false → toDigit b = none) (by decide +kernel) b

theorem parseDigits_cons : parseDigits n (b :: digits) = .ok r ↔
    ∃ x ∈ toDigit b, n * 16 + x < 256 ∧ parseDigits (n * 16 + x) digits = .ok r := by
  rw [parseDigits]
  cases toDigit b with
  | none => simp
  | some x => by_cases hx : n * 16 + x < 256 <;> simp [hx]

theorem fromStrRadix_two (a b : UInt8) :
    fromStrRadix [a, b] = if a = plus then parseDigits 0 [b] else parseDigits 0 [a, b] := rfl

/-- A pair parses when its second byte is a digit, and its first a digit or a plus. -/
theorem fromStrRadix_pair (h : fromStrRadix [a, b] = .ok r) : ∃ y ∈ toDigit b,
    (a = plus ∧ r = UInt8.ofNat y) ∨ ∃ x ∈ toDigit a, r = UInt8.ofNat (x * 16 + y) := by
  rw [fromStrRadix_two] at h
  split_ifs at h with ha
  · obtain ⟨y, hy, -, hr⟩ := parseDigits_cons.mp h
    cases hr
    exact ⟨y, hy, .inl ⟨ha, by rw [Nat.zero_mul, Nat.zero_add]⟩⟩
  · obtain ⟨x, hx, -, h⟩ := parseDigits_cons.mp h
    obtain ⟨y, hy, -, hr⟩ := parseDigits_cons.mp h
    cases hr
    exact ⟨y, hy, .inr ⟨x, hx, by rw [Nat.zero_mul, Nat.zero_add]⟩⟩

theorem fromStrRadix_of_digit (hb : (toDigit b).isSome = true)
    (ha : a = plus ∨ (toDigit a).isSome = true) :
    ∃ r, fromStrRadix [a, b] = .ok r := by
  obtain ⟨y, hy⟩ := Option.isSome_iff_exists.mp hb
  have hylt := toDigit_lt b y hy
  rw [fromStrRadix_two]
  split_ifs with hplus
  · exact ⟨_, parseDigits_cons.mpr ⟨y, hy, by omega, rfl⟩⟩
  · obtain ⟨x, hx⟩ := Option.isSome_iff_exists.mp (ha.resolve_left hplus)
    have hxlt := toDigit_lt a x hx
    exact ⟨_, parseDigits_cons.mpr ⟨x, hx, by omega, parseDigits_cons.mpr ⟨y, hy, by omega, rfl⟩⟩⟩

def IsHexDigit (c : Char) : Prop :=
  ('0' ≤ c ∧ c ≤ '9') ∨ ('a' ≤ c ∧ c ≤ 'f') ∨ ('A' ≤ c ∧ c ≤ 'F')

instance : DecidablePred IsHexDigit := fun _ ↦ inferInstanceAs (Decidable (_ ∨ _))

def render (b : UInt8) : List Char := [Nat.digitChar (b.toNat / 16), Nat.digitChar (b.toNat % 16)]

theorem toDigit_isSome_iff : c.utf8Size = 1 → ((toDigit c.toUInt8).isSome = true ↔ IsHexDigit c) :=
  forall_ascii (P := fun c ↦ (toDigit c.toUInt8).isSome = true ↔ IsHexDigit c) (by decide +kernel)

theorem toUInt8_eq_plus_iff : c.utf8Size = 1 → (c.toUInt8 = plus ↔ c = '+') :=
  forall_ascii (P := fun c ↦ c.toUInt8 = plus ↔ c = '+') (by decide +kernel)

/-- A character is a digit when it is how the digit is written, up to case. -/
theorem toDigit_eq_some_iff : c.utf8Size = 1 → ∀ x < 16,
    (toDigit c.toUInt8 = some x ↔ c.toLower = Nat.digitChar x) :=
  forall_ascii (P := fun c ↦ ∀ x < 16, (toDigit c.toUInt8 = some x ↔ c.toLower = Nat.digitChar x))
    (by decide +kernel)

theorem utf8Size_of_toLower {x : ℕ} (hx : x < 16) (h : c.toLower = Nat.digitChar x) :
    c.utf8Size = 1 := by
  have hdigits : ∀ x < 16, (Nat.digitChar x).utf8Size = 1 := by decide
  by_cases hupper : 'A' ≤ c ∧ c ≤ 'Z'
  · exact Char.utf8Size_eq_one_iff.mpr (UInt32.le_trans hupper.2 (by decide))
  · have hsame : c.toLower = c := by
      rw [Char.toLower, dif_neg]
      exact hupper
    rw [← hsame, h]
    exact hdigits x hx

theorem IsHexDigit.utf8Size (h : IsHexDigit c) : c.utf8Size = 1 := by
  rw [Char.utf8Size_eq_one_iff]
  obtain ⟨-, h⟩ | ⟨-, h⟩ | ⟨-, h⟩ := h <;> exact UInt32.le_trans h (by decide)

theorem not_isHexDigit_plus : ¬ IsHexDigit '+' := by decide

def ParsesPair (c d : Char) : Prop := (c = '+' ∨ IsHexDigit c) ∧ IsHexDigit d

theorem fromStrRadix_chars (hc : c.utf8Size = 1) (hd : d.utf8Size = 1) :
    (∃ r, fromStrRadix [c.toUInt8, d.toUInt8] = .ok r) ↔ ParsesPair c d := by
  rw [ParsesPair, ← toDigit_isSome_iff hc, ← toDigit_isSome_iff hd, ← toUInt8_eq_plus_iff hc]
  constructor
  · rintro ⟨r, h⟩
    obtain ⟨y, hy, ⟨hplus, -⟩ | ⟨x, hx, -⟩⟩ := fromStrRadix_pair h
    · exact ⟨.inl hplus, Option.isSome_of_mem hy⟩
    · exact ⟨.inr (Option.isSome_of_mem hx), Option.isSome_of_mem hy⟩
  · exact fun ⟨hc, hd⟩ ↦ fromStrRadix_of_digit hd hc

theorem render_chars (hc : c.utf8Size = 1) (hd : d.utf8Size = 1) (hplus : c ≠ '+')
    (h : fromStrRadix [c.toUInt8, d.toUInt8] = .ok r) : render r = [c.toLower, d.toLower] := by
  obtain ⟨y, hy, ⟨hc', -⟩ | ⟨x, hx, rfl⟩⟩ := fromStrRadix_pair h
  · exact absurd ((toUInt8_eq_plus_iff hc).mp hc') hplus
  · have hxlt := toDigit_lt _ x hx
    have hylt := toDigit_lt _ y hy
    have hr : (UInt8.ofNat (x * 16 + y)).toNat = x * 16 + y :=
      UInt8.toNat_ofNat_of_lt' (show x * 16 + y < 256 by omega)
    rw [render, hr, (toDigit_eq_some_iff hc x hxlt).mp hx, (toDigit_eq_some_iff hd y hylt).mp hy,
      show (x * 16 + y) / 16 = x by omega, show (x * 16 + y) % 16 = y by omega]

/-- The digits of a byte, in either case, are read as that byte. -/
theorem fromStrRadix_rendered (hc : c.toLower = Nat.digitChar (b.toNat / 16))
    (hd : d.toLower = Nat.digitChar (b.toNat % 16)) :
    c.utf8Size = 1 ∧ d.utf8Size = 1 ∧ fromStrRadix [c.toUInt8, d.toUInt8] = .ok b := by
  have hb := b.toNat_lt
  have hxlt : b.toNat / 16 < 16 := by omega
  have hylt : b.toNat % 16 < 16 := by omega
  have hcsize := utf8Size_of_toLower hxlt hc
  have hdsize := utf8Size_of_toLower hylt hd
  have hx := (toDigit_eq_some_iff hcsize _ hxlt).mpr hc
  have hy := (toDigit_eq_some_iff hdsize _ hylt).mpr hd
  have hplus : c.toUInt8 ≠ plus := by
    intro hplus
    rw [hplus] at hx
    cases hx
  refine ⟨hcsize, hdsize, ?_⟩
  rw [fromStrRadix_two, if_neg hplus]
  refine parseDigits_cons.mpr ⟨_, hx, by omega, parseDigits_cons.mpr ⟨_, hy, by omega, ?_⟩⟩
  rw [parseDigits,
    show (0 * 16 + b.toNat / 16) * 16 + b.toNat % 16 = b.toNat by omega, UInt8.ofNat_toNat]

theorem fromStrRadix_wide (hc : c.utf8Size = 2) :
    fromStrRadix (String.utf8EncodeChar c) = .error .invalidDigit := by
  obtain ⟨b, rest, hshape, -, hrest⟩ := utf8EncodeChar_shape c
  have hlen := String.length_utf8EncodeChar c
  rw [hshape, hc, List.length_cons, Nat.succ.injEq, List.length_eq_one_iff] at hlen
  obtain ⟨x, rfl⟩ := hlen
  have hx := toDigit_of_startsChar x (hrest x (by simp))
  rw [hshape, fromStrRadix_two]
  split_ifs
  · rw [parseDigits, hx]
  · rw [parseDigits]
    cases hb : toDigit b with
    | none => rfl
    | some y =>
      have hy := toDigit_lt b y hb
      dsimp only
      rw [if_pos (by omega), parseDigits, hx]

end Kymux.Hex
