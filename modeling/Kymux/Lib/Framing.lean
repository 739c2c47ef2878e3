import Mathlib

/-! Streams that hand out what was written in pieces of any size, and records on them. -/

namespace Kymux.Framing

variable {α β ε σ : Type}

/-- The pieces that the next reads return, of which none is empty. -/
structure Reader (β : Type) where
  pieces : List (List β)
  nonempty : ∀ piece ∈ pieces, piece ≠ []

namespace Reader

variable {r : Reader β} {size fuel : ℕ}

def content (r : Reader β) : List β := r.pieces.flatten

/-- One read into a buffer of this size; it returns nothing at the end of the stream. -/
def read (size : ℕ) : Reader β → List β × Reader β
  | ⟨[], h⟩ => ([], ⟨[], h⟩)
  | ⟨piece :: pieces, h⟩ =>
    if hsize : size < piece.length then
      (piece.take size, ⟨piece.drop size :: pieces, by
        intro p hp
        rcases List.mem_cons.mp hp with rfl | hp
        · exact List.ne_nil_of_length_pos (by rw [List.length_drop]; omega)
        · exact h p (by simp [hp])⟩)
    else (piece, ⟨pieces, fun p hp ↦ h p (by simp [hp])⟩)

def fill : ℕ → ℕ → Reader β → Option (List β) × Reader β
  | _, 0, r => (some [], r)
  | 0, _, r => (none, r)
  | fuel + 1, size, r =>
    let (got, r) := r.read size
    if got.isEmpty then (none, r)
    else
      let (rest, r) := fill fuel (size - got.length) r
      (rest.map (got ++ ·), r)

def readExact (size : ℕ) (r : Reader β) : Option (List β) × Reader β := fill size size r

theorem read_append (r : Reader β) (size : ℕ) :
    (r.read size).1 ++ (r.read size).2.content = r.content ∧ (r.read size).1.length ≤ size := by
  obtain ⟨pieces, h⟩ := r
  cases pieces with
  | nil => exact ⟨rfl, Nat.zero_le _⟩
  | cons piece pieces =>
    by_cases hsize : size < piece.length
    · rw [read, dif_pos hsize]
      refine ⟨?_, List.length_take_le _ _⟩
      simp only [content, List.flatten_cons, ← List.append_assoc, List.take_append_drop]
    · rw [read, dif_neg hsize]
      exact ⟨rfl, not_lt.mp hsize⟩

theorem read_eq_nil (hsize : 0 < size) (h : (r.read size).1 = []) : r.content = [] := by
  obtain ⟨pieces, hne⟩ := r
  cases pieces with
  | nil => rfl
  | cons piece pieces =>
    have hpiece := List.length_pos_iff.mpr (hne piece (by simp))
    by_cases hlt : size < piece.length
    · rw [read, dif_pos hlt] at h
      have hlen := congrArg List.length h
      rw [List.length_take, List.length_nil] at hlen
      omega
    · rw [read, dif_neg hlt] at h
      exact absurd h (hne piece (by simp))

/-- A buffer is filled with what comes next, however it is cut into pieces. -/
theorem fill_of_le (hfuel : size ≤ fuel) (h : size ≤ r.content.length) :
    (r.fill fuel size).1 = some (r.content.take size) ∧
      (r.fill fuel size).2.content = r.content.drop size := by
  induction fuel generalizing size r with
  | zero =>
    obtain rfl := Nat.le_zero.mp hfuel
    exact ⟨rfl, rfl⟩
  | succ fuel ih =>
    rcases Nat.eq_zero_or_pos size with rfl | hpos
    · exact ⟨rfl, rfl⟩
    obtain ⟨happend, hle⟩ := read_append r size
    have hgot : (r.read size).1 ≠ [] := by
      intro hnil
      rw [read_eq_nil hpos hnil, List.length_nil] at h
      omega
    have hlen := List.length_pos_iff.mpr hgot
    have hrest : size - (r.read size).1.length ≤ (r.read size).2.content.length := by
      rw [← happend, List.length_append] at h
      omega
    obtain ⟨hfill, hleft⟩ := ih (by omega) hrest
    obtain ⟨n, rfl⟩ := Nat.exists_eq_succ_of_ne_zero hpos.ne'
    have hempty : (r.read (n + 1)).1.isEmpty = false := by
      rwa [List.isEmpty_eq_false_iff]
    simp only [fill, Nat.succ_eq_add_one, hempty, Bool.false_eq_true, if_false] at hfill hleft ⊢
    rw [hfill, hleft, ← happend, List.take_append, List.drop_append, List.take_of_length_le hle,
      List.drop_of_length_le hle]
    exact ⟨rfl, rfl⟩

theorem fill_of_lt (hfuel : size ≤ fuel) (h : r.content.length < size) :
    (r.fill fuel size).1 = none ∧ (r.fill fuel size).2.content = [] := by
  induction fuel generalizing size r with
  | zero => omega
  | succ fuel ih =>
    obtain ⟨n, rfl⟩ := Nat.exists_eq_succ_of_ne_zero (show size ≠ 0 by omega)
    obtain ⟨happend, hle⟩ := read_append r (n + 1)
    by_cases hgot : (r.read (n + 1)).1 = []
    · have hempty : (r.read (n + 1)).1.isEmpty = true := by
        rwa [List.isEmpty_iff]
      simp only [fill, Nat.succ_eq_add_one, hempty, if_true, true_and]
      rw [hgot, List.nil_append] at happend
      rw [happend, read_eq_nil (Nat.succ_pos n) hgot]
    · have hlen := List.length_pos_iff.mpr hgot
      have hempty : (r.read (n + 1)).1.isEmpty = false := by
        rwa [List.isEmpty_eq_false_iff]
      have hrest : (r.read (n + 1)).2.content.length < n + 1 - (r.read (n + 1)).1.length := by
        rw [← happend, List.length_append] at h
        omega
      obtain ⟨hfill, hleft⟩ := ih (by omega) hrest
      simp only [fill, Nat.succ_eq_add_one, hempty, Bool.false_eq_true, if_false, hfill, hleft,
        Option.map_none, and_self]

theorem readExact_of_append {bytes rest : List β} (h : r.content = bytes ++ rest) :
    (r.readExact bytes.length).1 = some bytes ∧ (r.readExact bytes.length).2.content = rest := by
  obtain ⟨hfill, hleft⟩ := fill_of_le (r := r) le_rfl
    (show bytes.length ≤ r.content.length by rw [h]; simp)
  rw [h, List.take_left] at hfill
  rw [h, List.drop_left] at hleft
  exact ⟨hfill, hleft⟩

theorem readExact_of_lt (h : r.content.length < size) :
    (r.readExact size).1 = none ∧ (r.readExact size).2.content = [] := fill_of_lt le_rfl h

end Reader

inductive Reads (read : σ → Except ε (Option α) × σ) : σ → List α → Except ε Unit → Prop
  | ended {s} : (read s).1 = .ok none → Reads read s [] (.ok ())
  | failed {s e} : (read s).1 = .error e → Reads read s [] (.error e)
  | next {s x xs result} : (read s).1 = .ok (some x) → Reads read (read s).2 xs result →
    Reads read s (x :: xs) result

namespace Reads

variable {read : σ → Except ε (Option α) × σ} {s : σ} {xs ys : List α}
  {result result' : Except ε Unit}

theorem unique (h : Reads read s xs result) (h' : Reads read s ys result') :
    xs = ys ∧ result = result' := by
  induction h generalizing ys with
  | ended hs =>
    cases h' with
    | ended => exact ⟨rfl, rfl⟩
    | failed hs' => rw [hs] at hs'; cases hs'
    | next hs' => rw [hs] at hs'; cases hs'
  | failed hs =>
    cases h' with
    | ended hs' => rw [hs] at hs'; cases hs'
    | failed hs' => rw [hs] at hs'; cases hs'; exact ⟨rfl, rfl⟩
    | next hs' => rw [hs] at hs'; cases hs'
  | next hs _ ih =>
    cases h' with
    | ended hs' => rw [hs] at hs'; cases hs'
    | failed hs' => rw [hs] at hs'; cases hs'
    | next hs' hrest =>
      rw [hs] at hs'
      cases hs'
      obtain ⟨rfl, rfl⟩ := ih hrest
      exact ⟨rfl, rfl⟩

/-- Records that are each read back from their frames are read one after the other. -/
theorem frames (content : σ → List β) (frame : α → List β) (tail : List β)
    (hframe : ∀ x ∈ xs, ∀ s rest, content s = frame x ++ rest →
      (read s).1 = .ok (some x) ∧ content (read s).2 = rest)
    (htail : ∀ s, content s = tail → Reads read s [] result)
    (hs : content s = xs.flatMap frame ++ tail) : Reads read s xs result := by
  induction xs generalizing s with
  | nil => exact htail s hs
  | cons x xs ih =>
    rw [List.flatMap_cons, List.append_assoc] at hs
    obtain ⟨hread, hrest⟩ := hframe x (by simp) s _ hs
    exact .next hread (ih (fun y hy ↦ hframe y (by simp [hy])) hrest)

end Reads

def writes (write : α → List β → Except ε Unit × List β) : List α → List β → Except ε Unit × List β
  | [], writer => (.ok (), writer)
  | x :: xs, writer =>
    match write x writer with
    | (.error e, writer) => (.error e, writer)
    | (.ok (), writer) => writes write xs writer

theorem writes_frames {write : α → List β → Except ε Unit × List β} {frame : α → List β}
    {xs : List α} (h : ∀ x ∈ xs, ∀ writer, write x writer = (.ok (), writer ++ frame x))
    (writer : List β) :
    writes write xs writer = (.ok (), writer ++ xs.flatMap frame) := by
  induction xs generalizing writer with
  | nil => simp [writes]
  | cons x xs ih =>
    rw [writes, h x (by simp)]
    dsimp only
    rw [ih (fun y hy ↦ h y (by simp [hy])), List.flatMap_cons, List.append_assoc]

/-- Where a list of frames is cut: behind some of them, and so far into the next. -/
theorem exists_cut (frame : α → List β) {xs : List α} {n : ℕ} (h : n < (xs.flatMap frame).length) :
    ∃ k x j, xs[k]? = some x ∧ j < (frame x).length ∧ n = ((xs.take k).flatMap frame).length + j ∧
      (xs.flatMap frame).take n = (xs.take k).flatMap frame ++ (frame x).take j := by
  induction xs generalizing n with
  | nil => exact absurd h (by simp)
  | cons x xs ih =>
    rw [List.flatMap_cons, List.length_append] at h
    by_cases hn : n < (frame x).length
    · refine ⟨0, x, n, rfl, hn, by simp, ?_⟩
      rw [List.flatMap_cons, List.take_append_of_le_length hn.le]
      rfl
    · obtain ⟨k, y, j, hk, hj, hlen, htake⟩ := ih (n := n - (frame x).length) (by omega)
      refine ⟨k + 1, y, j, hk, hj, ?_, ?_⟩
      · rw [List.take_succ_cons, List.flatMap_cons, List.length_append]
        omega
      · rw [List.flatMap_cons, List.take_append, List.take_of_length_le (not_lt.mp hn), htake,
          List.take_succ_cons, List.flatMap_cons, List.append_assoc]

end Kymux.Framing
