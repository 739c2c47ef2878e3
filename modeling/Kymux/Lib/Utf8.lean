import Mathlib

/-! Characters as UTF-8, and the places of a text at which one begins. -/

namespace Kymux.Utf8

variable {c : Char} {p q : List Char} {k : ℕ}

def encode (cs : List Char) : List UInt8 := cs.flatMap String.utf8EncodeChar

theorem encode_toList (s : String) : encode s.toList = s.toByteArray.data.toList := by
  rw [← String.utf8Encode_toList, List.utf8Encode, List.toList_data_toByteArray]
  rfl

@[simp]
theorem encode_nil : encode [] = [] := rfl

@[simp]
theorem encode_cons (c : Char) (cs : List Char) :
    encode (c :: cs) = String.utf8EncodeChar c ++ encode cs :=
  rfl

@[simp]
theorem encode_append (p q : List Char) : encode (p ++ q) = encode p ++ encode q := by
  rw [encode, List.flatMap_append]
  rfl

theorem length_encode_cons (c : Char) (cs : List Char) :
    (encode (c :: cs)).length = c.utf8Size + (encode cs).length := by
  rw [encode_cons, List.length_append, String.length_utf8EncodeChar]

theorem encode_ascii (hc : c.utf8Size = 1) : encode [c] = [c.toUInt8] := by
  rw [encode_cons, String.utf8EncodeChar_eq_singleton hc]
  rfl

def startsChar (b : UInt8) : Bool := b < 0x80 || 0xC0 ≤ b

def isCharBoundary (bytes : List UInt8) (i : ℕ) : Bool :=
  i = 0 || match bytes[i]? with
    | some b => startsChar b
    | none => i = bytes.length

/-- Of the bytes of a character, only the first does not continue one. -/
theorem utf8EncodeChar_shape (c : Char) : ∃ b rest, String.utf8EncodeChar c = b :: rest ∧
    startsChar b = true ∧ ∀ x ∈ rest, startsChar x = false := by
  have hascii : ∀ n ≤ 127, startsChar (UInt8.ofNat n) = true := by decide
  have hlead : ∀ n < 64, startsChar (UInt8.ofNat (n + 192)) = true := by decide
  have hnext : ∀ n < 64, startsChar (UInt8.ofNat (n + 128)) = false := by decide
  have hrest : ∀ ns : List ℕ, ∀ x ∈ ns.map (fun n ↦ UInt8.ofNat (n % 64 + 128)),
      startsChar x = false := by
    intro ns x hx
    obtain ⟨n, -, rfl⟩ := List.mem_map.mp hx
    exact hnext _ (Nat.mod_lt _ (by decide))
  rw [String.utf8EncodeChar]
  split_ifs with hone
  · exact ⟨_, _, rfl, hascii _ hone, hrest []⟩
  · exact ⟨_, _, rfl, hlead _ (by omega), hrest [c.val.toNat]⟩
  · exact ⟨_, _, rfl, hlead (c.val.toNat / 4096 % 16 + 32) (by omega),
      hrest [c.val.toNat / 64, c.val.toNat]⟩
  · exact ⟨_, _, rfl, hlead (c.val.toNat / 262144 % 8 + 48) (by omega),
      hrest [c.val.toNat / 4096, c.val.toNat / 64, c.val.toNat]⟩

theorem isCharBoundary_encode (p q : List Char) :
    isCharBoundary (encode (p ++ q)) (encode p).length = true := by
  rw [isCharBoundary, encode_append]
  cases q with
  | nil => simp
  | cons c q =>
    obtain ⟨b, rest, hc, hb, -⟩ := utf8EncodeChar_shape c
    simp [hc, hb]

theorem isCharBoundary_inside (hpos : 0 < k) (hk : k < c.utf8Size) :
    isCharBoundary (encode (p ++ c :: q)) ((encode p).length + k) = false := by
  obtain ⟨b, rest, hc, -, hrest⟩ := utf8EncodeChar_shape c
  obtain ⟨k, rfl⟩ := Nat.exists_eq_succ_of_ne_zero hpos.ne'
  have hlen : k < rest.length := by
    have hsize := String.length_utf8EncodeChar c
    rw [hc, List.length_cons] at hsize
    omega
  have hget : (encode (p ++ c :: q))[(encode p).length + (k + 1)]? = some rest[k] := by
    rw [encode_append, encode_cons, hc, List.getElem?_append_right (Nat.le_add_right _ _),
      Nat.add_sub_cancel_left, List.cons_append, List.getElem?_cons_succ,
      List.getElem?_append_left hlen, List.getElem?_eq_getElem hlen]
  simp only [isCharBoundary, hget, hrest _ (List.getElem_mem hlen)]
  simp

theorem forall_byte {P : UInt8 → Prop} (h : ∀ n < 256, P (UInt8.ofNat n)) (b : UInt8) : P b := by
  have hof := h b.toNat b.toNat_lt
  rwa [UInt8.ofNat_toNat] at hof

theorem forall_ascii {P : Char → Prop} (h : ∀ n < 128, P (Char.ofNat n)) (hc : c.utf8Size = 1) :
    P c := by
  have hle : c.toNat ≤ 127 := Char.utf8Size_eq_one_iff.mp hc
  have hof := h c.toNat (by omega)
  rwa [Char.ofNat_toNat] at hof

end Kymux.Utf8
