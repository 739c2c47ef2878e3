import Kymux.Hex

namespace Kymux.Hex

open Auth BigEndian Utf8

variable {b : UInt8} {c d : Char} {cs p q : List Char} {i k : ℕ}

/-- How a string is read, character by character, when its bytes are even in number. -/
def readPairs : List Char → Except Fault (Except DecodeHexError Bytes)
  | [] => .ok (.ok [])
  | [c] => if c.utf8Size = 2 then .ok (.error (.parseInt .invalidDigit)) else .error notCharBoundary
  | c :: d :: cs =>
    if c.utf8Size = 2 then .ok (.error (.parseInt .invalidDigit))
    else if c.utf8Size = 1 ∧ d.utf8Size = 1 then
      match fromStrRadix [c.toUInt8, d.toUInt8] with
      | .error kind => .ok (.error (.parseInt kind))
      | .ok b => (readPairs cs).map (·.map (b :: ·))
    else .error notCharBoundary

theorem readPairs_wide (hc : c.utf8Size = 2) (cs : List Char) :
    readPairs (c :: cs) = .ok (.error (.parseInt .invalidDigit)) := by
  cases cs <;> rw [readPairs, if_pos hc]

theorem readPairs_wider (hc : 2 < c.utf8Size) (cs : List Char) :
    readPairs (c :: cs) = .error notCharBoundary := by
  cases cs with
  | nil => rw [readPairs, if_neg (by omega)]
  | cons d cs => rw [readPairs, if_neg (by omega), if_neg (by omega)]

theorem readPairs_straddling (hc : c.utf8Size = 1) (hd : 1 < d.utf8Size) (cs : List Char) :
    readPairs (c :: d :: cs) = .error notCharBoundary := by
  rw [readPairs, if_neg (by omega), if_neg (by omega)]

theorem readPairs_ok (hc : c.utf8Size = 1) (hd : d.utf8Size = 1)
    (hb : fromStrRadix [c.toUInt8, d.toUInt8] = .ok b) (cs : List Char) :
    readPairs (c :: d :: cs) = (readPairs cs).map (·.map (b :: ·)) := by
  rw [readPairs, if_neg (by omega), if_pos ⟨hc, hd⟩, hb]

theorem slice_encode (p q r : List Char) :
    slice (encode (p ++ (q ++ r))) (encode p).length ((encode p).length + (encode q).length) =
      .ok (encode q) := by
  have hend : isCharBoundary (encode (p ++ (q ++ r)))
      ((encode p).length + (encode q).length) = true := by
    have := isCharBoundary_encode (p ++ q) r
    rwa [encode_append p q, List.length_append, List.append_assoc] at this
  rw [slice, if_pos ⟨Nat.le_add_right _ _, isCharBoundary_encode p (q ++ r), hend⟩]
  simp

theorem slice_inside (hpos : 0 < k) (hk : k < c.utf8Size) :
    slice (encode (p ++ c :: q)) i ((encode p).length + k) = .error notCharBoundary := by
  rw [slice, isCharBoundary_inside hpos hk]
  simp

theorem slice_pair (hc : c.utf8Size = 1) (hd : d.utf8Size = 1) :
    slice (encode (p ++ c :: d :: q)) (encode p).length ((encode p).length + 2) =
      .ok [c.toUInt8, d.toUInt8] := by
  have hslice := slice_encode p ([c] ++ [d]) q
  rwa [encode_append [c], encode_ascii hc, encode_ascii hd] at hslice

theorem slice_wide (hc : c.utf8Size = 2) :
    slice (encode (p ++ c :: q)) (encode p).length ((encode p).length + 2) =
      .ok (String.utf8EncodeChar c) := by
  have hslice := slice_encode p [c] q
  rwa [encode_cons, encode_nil, List.append_nil, String.length_utf8EncodeChar, hc] at hslice

theorem slice_straddling (hc : c.utf8Size = 1) (hd : 1 < d.utf8Size) :
    slice (encode (p ++ c :: d :: q)) i ((encode p).length + 2) = .error notCharBoundary := by
  have hslice := slice_inside (p := p ++ [c]) (q := q) (i := i) Nat.one_pos hd
  rwa [encode_append p, encode_ascii hc, List.length_append, List.append_assoc] at hslice

theorem collect_of_slice {bytes : Bytes} {is : List ℕ} {f : Fault}
    (h : slice bytes i (i + 2) = .error f) :
    collect bytes (i :: is) = .error f := by
  rw [collect, h]
  rfl

theorem collect_of_invalid {bytes pair : Bytes} {is : List ℕ} {kind : IntErrorKind}
    (h : slice bytes i (i + 2) = .ok pair) (hpair : fromStrRadix pair = .error kind) :
    collect bytes (i :: is) = .ok (.error (.parseInt kind)) := by
  simp only [collect, h, hpair, bind, Except.bind, pure, Except.pure]

theorem collect_of_ok {bytes pair : Bytes} {is : List ℕ}
    (h : slice bytes i (i + 2) = .ok pair) (hpair : fromStrRadix pair = .ok b) :
    collect bytes (i :: is) = (collect bytes is).map (·.map (b :: ·)) := by
  simp only [collect, h, hpair, bind, Except.bind, pure, Except.pure]
  cases collect bytes is <;> rfl

theorem collect_encode (n : ℕ) (p q : List Char) (h : (encode q).length = 2 * n) :
    collect (encode (p ++ q)) (List.range' (encode p).length n 2) = readPairs q := by
  induction n generalizing p q with
  | zero =>
    cases q with
    | nil => rfl
    | cons c q =>
      have hpos := c.utf8Size_pos
      rw [length_encode_cons] at h
      omega
  | succ n ih =>
    cases q with
    | nil => simp at h
    | cons c q =>
      rw [length_encode_cons] at h
      rw [List.range'_succ]
      have hpos := c.utf8Size_pos
      obtain hc | hc | hc : c.utf8Size = 1 ∨ c.utf8Size = 2 ∨ 2 < c.utf8Size := by omega
      · cases q with
        | nil =>
          rw [encode_nil, List.length_nil] at h
          omega
        | cons d q =>
          rw [length_encode_cons] at h
          have hdpos := d.utf8Size_pos
          by_cases hd : d.utf8Size = 1
          · cases hparse : fromStrRadix [c.toUInt8, d.toUInt8] with
            | error kind =>
              rw [collect_of_invalid (slice_pair hc hd) hparse, readPairs, if_neg (by omega),
                if_pos ⟨hc, hd⟩, hparse]
            | ok b =>
              -- The next pair begins behind these two characters.
              have hrest := ih (p ++ ([c] ++ [d])) q (by omega)
              rw [encode_append p, encode_append [c], encode_ascii hc, encode_ascii hd,
                List.append_assoc, List.length_append] at hrest
              rw [collect_of_ok (slice_pair hc hd) hparse, readPairs_ok hc hd hparse, ← hrest]
              rfl
          · rw [collect_of_slice (slice_straddling hc (by omega)),
              readPairs_straddling hc (by omega)]
      · rw [collect_of_invalid (slice_wide hc) (fromStrRadix_wide hc), readPairs_wide hc]
      · rw [collect_of_slice (slice_inside (by decide) hc), readPairs_wider hc]

theorem hexToBytes_eq (s : String) : hexToBytes s =
    if (encode s.toList).length % 2 = 0 then readPairs s.toList else .ok (.error .oddLength) := by
  rw [hexToBytes, utf8, ← encode_toList]
  split_ifs with h
  · exact collect_encode _ [] s.toList (by omega)
  · rfl

def Parses : List Char → Prop
  | [] => True
  | [_] => False
  | c :: d :: cs => ParsesPair c d ∧ Parses cs

theorem ParsesPair.utf8Size (h : ParsesPair c d) : c.utf8Size = 1 ∧ d.utf8Size = 1 := by
  obtain ⟨rfl | hc, hd⟩ := h
  · exact ⟨by decide, hd.utf8Size⟩
  · exact ⟨hc.utf8Size, hd.utf8Size⟩

theorem readPairs_pair (h : ParsesPair c d) :
    ∃ b, ∀ cs, readPairs (c :: d :: cs) = (readPairs cs).map (·.map (b :: ·)) := by
  obtain ⟨hc, hd⟩ := h.utf8Size
  obtain ⟨b, hb⟩ := (fromStrRadix_chars hc hd).mpr h
  exact ⟨b, readPairs_ok hc hd hb⟩

theorem readPairs_of_parses : ∀ {cs : List Char}, Parses cs → ∃ v, readPairs cs = .ok (.ok v)
  | [], _ => ⟨[], rfl⟩
  | c :: d :: cs, ⟨hpair, hcs⟩ => by
    obtain ⟨b, hb⟩ := readPairs_pair hpair
    obtain ⟨v, hv⟩ := readPairs_of_parses hcs
    exact ⟨b :: v, by rw [hb, hv]; rfl⟩

theorem readPairs_append {f : Fault} (hq : readPairs q = .error f) :
    ∀ {p : List Char}, Parses p → readPairs (p ++ q) = .error f
  | [], _ => hq
  | c :: d :: p, ⟨hpair, hp⟩ => by
    obtain ⟨b, hb⟩ := readPairs_pair hpair
    rw [List.cons_append, List.cons_append, hb, readPairs_append hq hp]
    rfl

theorem length_encode_of_parses :
    ∀ {cs : List Char}, Parses cs → (encode cs).length = cs.length ∧ Even cs.length
  | [], _ => ⟨rfl, by decide⟩
  | c :: d :: cs, ⟨hpair, hcs⟩ => by
    obtain ⟨hc, hd⟩ := hpair.utf8Size
    obtain ⟨hlen, heven⟩ := length_encode_of_parses hcs
    rw [length_encode_cons, length_encode_cons, hc, hd, hlen, List.length_cons, List.length_cons,
      Nat.even_add_one, Nat.even_add_one, not_not]
    exact ⟨by omega, heven⟩

/-- What is read to its end parses, and without a sign it is what the bytes are written as. -/
theorem parses_of_readPairs {cs : List Char} {v : Bytes} (h : readPairs cs = .ok (.ok v)) :
    Parses cs ∧ ('+' ∉ cs → v.flatMap render = cs.map Char.toLower) := by
  fun_induction readPairs cs generalizing v with
  | case1 =>
    cases h
    exact ⟨trivial, fun _ ↦ rfl⟩
  | case6 c d cs htwo hone b hb ih =>
    cases hread : readPairs cs with
    | error f =>
      rw [hread] at h
      cases h
    | ok out =>
      rw [hread] at h
      cases out with
      | error e => cases h
      | ok w =>
        cases h
        obtain ⟨hparses, hrender⟩ := ih hread
        refine ⟨⟨(fromStrRadix_chars hone.1 hone.2).mp ⟨b, hb⟩, hparses⟩, fun hplus ↦ ?_⟩
        rw [List.mem_cons, List.mem_cons, not_or, not_or] at hplus
        rw [List.flatMap_cons, render_chars hone.1 hone.2 (Ne.symm hplus.1) hb, hrender hplus.2.2]
        rfl
  | case2 | case3 | case4 | case5 | case7 => cases h

def Straddles (cs : List Char) : Prop :=
  Even (encode cs).length ∧ ∃ p c q, cs = p ++ c :: q ∧ Parses p ∧
    (2 < c.utf8Size ∨ c.utf8Size = 1 ∧ ∃ d ∈ q.head?, 1 < d.utf8Size)

theorem readPairs_of_straddles (h : Straddles cs) : readPairs cs = .error notCharBoundary := by
  obtain ⟨-, p, c, q, rfl, hp, hc | ⟨hc, d, hd, hwide⟩⟩ := h
  · exact readPairs_append (readPairs_wider hc q) hp
  · obtain ⟨q, rfl⟩ := List.head?_eq_some_iff.mp hd
    exact readPairs_append (readPairs_straddling hc hwide q) hp

theorem straddles_of_readPairs {cs : List Char} {f : Fault} (heven : Even (encode cs).length)
    (h : readPairs cs = .error f) : Straddles cs := by
  refine ⟨heven, ?_⟩
  fun_induction readPairs cs with
  | case3 c hc =>
    have hpos := c.utf8Size_pos
    rw [length_encode_cons, encode_nil, List.length_nil] at heven
    have hone : c.utf8Size ≠ 1 := fun hone ↦ by simp [hone] at heven
    exact ⟨[], c, [], rfl, trivial, .inl (by omega)⟩
  | case6 c d cs htwo hone b hb ih =>
    have hread : readPairs cs = .error f := by
      cases hread : readPairs cs with
      | error g =>
        rw [hread] at h
        cases h
        rfl
      | ok out =>
        rw [hread] at h
        cases h
    rw [length_encode_cons, length_encode_cons, hone.1, hone.2, ← Nat.add_assoc] at heven
    obtain ⟨p, c', q, rfl, hp, hwide⟩ := ih (by simpa [Nat.even_add] using heven) hread
    exact ⟨c :: d :: p, c', q, rfl, ⟨(fromStrRadix_chars hone.1 hone.2).mp ⟨b, hb⟩, hp⟩, hwide⟩
  | case7 c d cs htwo hsizes =>
    have hcpos := c.utf8Size_pos
    have hdpos := d.utf8Size_pos
    refine ⟨[], c, d :: cs, rfl, trivial, ?_⟩
    by_cases hc : c.utf8Size = 1
    · exact .inr ⟨hc, d, rfl, by omega⟩
    · exact .inl (by omega)
  | case1 | case2 | case4 | case5 => cases h

def IsHex (s : String) : Prop := Even s.toList.length ∧ ∀ c ∈ s.toList, IsHexDigit c

theorem parses_of_digits : ∀ {cs : List Char}, Even cs.length → (∀ c ∈ cs, IsHexDigit c) → Parses cs
  | [], _, _ => trivial
  | [c], heven, _ => by simp at heven
  | c :: d :: cs, heven, hcs => by
    rw [List.length_cons, List.length_cons, Nat.even_add_one, Nat.even_add_one, not_not] at heven
    rw [List.forall_mem_cons, List.forall_mem_cons] at hcs
    exact ⟨⟨.inr hcs.1, hcs.2.1⟩, parses_of_digits heven hcs.2.2⟩

theorem digits_of_parses : ∀ {cs : List Char}, Parses cs → '+' ∉ cs → ∀ c ∈ cs, IsHexDigit c
  | [], _, _ => by simp
  | c :: d :: cs, ⟨⟨hc, hd⟩, hcs⟩, hplus => by
    rw [List.mem_cons, List.mem_cons, not_or, not_or] at hplus
    rw [List.forall_mem_cons, List.forall_mem_cons]
    exact ⟨hc.resolve_left (Ne.symm hplus.1), hd, digits_of_parses hcs hplus.2.2⟩

theorem isHex_iff (s : String) : IsHex s ↔ Parses s.toList ∧ '+' ∉ s.toList := by
  constructor
  · rintro ⟨heven, hdigits⟩
    exact ⟨parses_of_digits heven hdigits, fun hplus ↦ not_isHexDigit_plus (hdigits _ hplus)⟩
  · rintro ⟨hparses, hplus⟩
    exact ⟨(length_encode_of_parses hparses).2, digits_of_parses hparses hplus⟩

/-- What a reader of hex strings does with a string: hex digits are read as the bytes that are
written so, up to case, and every other string is refused. -/
structure Exact (s : String) : Prop where
  accepted : (∃ v, hexToBytes s = .ok (.ok v)) ↔ IsHex s
  rendered : ∀ v, hexToBytes s = .ok (.ok v) → v.flatMap render = s.toList.map Char.toLower
  refused : ¬ IsHex s → ∃ e, hexToBytes s = .ok (.error e)

def Signed (cs : List Char) : Prop := Parses cs ∧ '+' ∈ cs

theorem hexToBytes_of_parses {s : String} (h : Parses s.toList) :
    hexToBytes s = readPairs s.toList := by
  obtain ⟨hlen, heven⟩ := length_encode_of_parses h
  rw [hexToBytes_eq, if_pos (by rw [hlen]; exact Nat.even_iff.mp heven)]

theorem hexToBytes_ok_iff (s : String) : (∃ v, hexToBytes s = .ok (.ok v)) ↔ Parses s.toList := by
  constructor
  · rintro ⟨v, hv⟩
    rw [hexToBytes_eq] at hv
    split_ifs at hv
    · exact (parses_of_readPairs hv).1
    · cases hv
  · intro h
    rw [hexToBytes_of_parses h]
    exact readPairs_of_parses h

theorem hexToBytes_error_iff (s : String) : (∃ f, hexToBytes s = .error f) ↔
    Straddles s.toList := by
  constructor
  · rintro ⟨f, hf⟩
    rw [hexToBytes_eq] at hf
    split_ifs at hf with heven
    exact straddles_of_readPairs (Nat.even_iff.mpr heven) hf
  · intro h
    rw [hexToBytes_eq, if_pos (Nat.even_iff.mp h.1)]
    exact ⟨_, readPairs_of_straddles h⟩

/-- Hex strings are told from all others, but for a plus that is taken for a digit, and for a
character in which a pair of bytes ends. -/
theorem hexToBytes_exact_iff (s : String) : Exact s ↔ ¬ Signed s.toList ∧ ¬ Straddles s.toList := by
  constructor
  · intro h
    refine ⟨fun ⟨hparses, hplus⟩ ↦ ?_, fun hstraddles ↦ ?_⟩
    · have hhex := h.accepted.mp ((hexToBytes_ok_iff s).mpr hparses)
      exact ((isHex_iff s).mp hhex).2 hplus
    · obtain ⟨f, hf⟩ := (hexToBytes_error_iff s).mpr hstraddles
      by_cases hhex : IsHex s
      · obtain ⟨v, hv⟩ := h.accepted.mpr hhex
        rw [hf] at hv
        cases hv
      · obtain ⟨e, he⟩ := h.refused hhex
        rw [hf] at he
        cases he
  · rintro ⟨hsigned, hstraddles⟩
    have haccepted : (∃ v, hexToBytes s = .ok (.ok v)) ↔ IsHex s := by
      rw [hexToBytes_ok_iff, isHex_iff]
      exact ⟨fun hparses ↦ ⟨hparses, fun hplus ↦ hsigned ⟨hparses, hplus⟩⟩, And.left⟩
    refine ⟨haccepted, fun v hv ↦ ?_, fun hhex ↦ ?_⟩
    · have hparses := (hexToBytes_ok_iff s).mp ⟨v, hv⟩
      rw [hexToBytes_of_parses hparses] at hv
      exact (parses_of_readPairs hv).2 (fun hplus ↦ hsigned ⟨hparses, hplus⟩)
    · match hout : hexToBytes s with
      | .error f => exact absurd ((hexToBytes_error_iff s).mp ⟨f, hout⟩) hstraddles
      | .ok (.error e) => exact ⟨e, rfl⟩
      | .ok (.ok v) => exact absurd (haccepted.mp ⟨v, hout⟩) hhex

/-- The parser takes a sign for a digit, and a slice that ends inside a character panics. -/
theorem hexToBytes_inexact : (hexToBytes "+f" = .ok (.ok [15]) ∧ ¬ Exact "+f") ∧
    hexToBytes "a€" = .error notCharBoundary ∧ ¬ Exact "a€" := by
  have hsigned : hexToBytes "+f" = .ok (.ok [15]) := by decide
  have hpanics : hexToBytes "a€" = .error notCharBoundary := by decide
  refine ⟨⟨hsigned, fun h ↦ ?_⟩, hpanics, fun h ↦ ?_⟩
  · exact not_isHexDigit_plus ((h.accepted.mp ⟨_, hsigned⟩).2 '+' (by decide))
  · have hwide : ¬ IsHex "a€" := fun hhex ↦ absurd (hhex.2 '€' (by decide)) (by decide)
    obtain ⟨e, he⟩ := h.refused hwide
    rw [hpanics] at he
    cases he

theorem readPairs_rendered : ∀ {v : Bytes} {cs : List Char},
    v.flatMap render = cs.map Char.toLower →
    Parses cs ∧ readPairs cs = .ok (.ok v)
  | [], cs, h => by
    obtain rfl : cs = [] := List.map_eq_nil_iff.mp h.symm
    exact ⟨trivial, rfl⟩
  | b :: v, cs, h => by
    rw [List.flatMap_cons, render, eq_comm, List.cons_append, List.map_eq_cons_iff] at h
    obtain ⟨c, cs, rfl, hc, h⟩ := h
    rw [List.cons_append, List.map_eq_cons_iff] at h
    obtain ⟨d, cs, rfl, hd, h⟩ := h
    obtain ⟨hcsize, hdsize, hb⟩ := fromStrRadix_rendered hc hd
    obtain ⟨hparses, hread⟩ := readPairs_rendered h.symm
    refine ⟨⟨(fromStrRadix_chars hcsize hdsize).mp ⟨b, hb⟩, hparses⟩, ?_⟩
    rw [readPairs_ok hcsize hdsize hb, hread]
    rfl

/-- Bytes that are written in hex, in either case, are read back. -/
theorem hexToBytes_rendered {s : String} {v : Bytes}
    (h : v.flatMap render = s.toList.map Char.toLower) :
    hexToBytes s = .ok (.ok v) := by
  obtain ⟨hparses, hread⟩ := readPairs_rendered h
  rw [hexToBytes_of_parses hparses, hread]

end Kymux.Hex

namespace Kymux.WebTransportJs

open BigEndian Hex

structure WebTransportJSHash where
  algorithm : String
  value : Bytes
deriving DecidableEq

namespace WebTransportJSHash

def new (algorithm : String) (value : Bytes) : WebTransportJSHash := ⟨algorithm, value⟩

def newFromHex (algorithm hash : String) :
    Except Fault (Except DecodeHexError WebTransportJSHash) :=
  (hexToBytes hash).map (·.map (new algorithm))

def newSha256FromHex (hash : String) : Except Fault (Except DecodeHexError WebTransportJSHash) :=
  newFromHex "sha-256" hash

/-- The hash of a certificate, as it is printed, makes the hash that is compared with it. -/
theorem newSha256FromHex_rendered {hash : String} {digest : Bytes}
    (h : digest.flatMap render = hash.toList.map Char.toLower) :
    newSha256FromHex hash = .ok (.ok ⟨"sha-256", digest⟩) := by
  rw [newSha256FromHex, newFromHex, hexToBytes_rendered h]
  rfl

end WebTransportJSHash

end Kymux.WebTransportJs
