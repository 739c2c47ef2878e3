import Mathlib

/-! Rows of which each has one piece of every column. -/

namespace Kymux.Interleave

variable {α : Type} {n w : ℕ} {ws : List ℕ} {xs : List α} {ps rs : List (List α)}

def pieces (w : ℕ) : ℕ → List α → List (List α)
  | 0, _ => []
  | n + 1, xs => xs.take w :: pieces w n (xs.drop w)

def interleave (n : ℕ) : List ℕ → List α → List (List α)
  | [], _ => List.replicate n []
  | w :: ws, xs => List.zipWith (· ++ ·) (pieces w n xs) (interleave n ws (xs.drop (n * w)))

def deinterleave : List ℕ → List (List α) → List α
  | [], _ => []
  | w :: ws, rows => rows.flatMap (·.take w) ++ deinterleave ws (rows.map (·.drop w))

@[simp] theorem length_pieces (w n : ℕ) (xs : List α) : (pieces w n xs).length = n := by
  induction n generalizing xs with
  | zero => rfl
  | succ n ih => rw [pieces, List.length_cons, ih]

theorem flatten_pieces (h : n * w ≤ xs.length) : (pieces w n xs).flatten = xs.take (n * w) := by
  induction n generalizing xs with
  | zero => simp [pieces]
  | succ n ih =>
    rw [Nat.add_mul, Nat.one_mul] at h ⊢
    rw [pieces, List.flatten_cons, ih (by rw [List.length_drop]; omega), Nat.add_comm,
      List.take_add]

theorem length_of_mem_pieces (h : n * w ≤ xs.length) : ∀ p ∈ pieces w n xs, p.length = w := by
  induction n generalizing xs with
  | zero => simp [pieces]
  | succ n ih =>
    rw [Nat.add_mul, Nat.one_mul] at h
    intro p hp
    rcases List.mem_cons.mp hp with rfl | hp
    · rw [List.length_take]
      omega
    · exact ih (by rw [List.length_drop]; omega) p hp

@[simp] theorem length_interleave (n : ℕ) (ws : List ℕ) (xs : List α) :
    (interleave n ws xs).length = n := by
  induction ws generalizing xs with
  | nil => simp [interleave]
  | cons w ws ih => rw [interleave, List.length_zipWith, length_pieces, ih, min_self]

theorem length_of_mem_interleave (h : n * ws.sum ≤ xs.length) :
    ∀ r ∈ interleave n ws xs, r.length = ws.sum := by
  induction ws generalizing xs with
  | nil => exact fun r hr ↦ by rw [List.eq_of_mem_replicate hr]; rfl
  | cons w ws ih =>
    rw [List.sum_cons, Nat.mul_add] at h
    intro r hr
    obtain ⟨p, q, hpq, rfl⟩ : ∃ p q,
      (p, q) ∈ (pieces w n xs).zip (interleave n ws (xs.drop (n * w))) ∧
        p ++ q = r := by
      rw [interleave, ← List.map_uncurry_zip_eq_zipWith] at hr
      obtain ⟨⟨p, q⟩, hpq, rfl⟩ := List.mem_map.mp hr
      exact ⟨p, q, hpq, rfl⟩
    obtain ⟨hp, hq⟩ := List.of_mem_zip hpq
    rw [List.length_append, length_of_mem_pieces (by omega) p hp,
      ih (by rw [List.length_drop]; omega) q hq, List.sum_cons]

theorem map_take_zipWith (hlen : ps.length = rs.length) (hps : ∀ p ∈ ps, p.length = w) :
    (List.zipWith (· ++ ·) ps rs).map (·.take w) = ps ∧
    (List.zipWith (· ++ ·) ps rs).map (·.drop w) = rs := by
  induction ps generalizing rs with
  | nil =>
    obtain rfl := List.eq_nil_of_length_eq_zero hlen.symm
    exact ⟨rfl, rfl⟩
  | cons p ps ih =>
    cases rs with
    | nil => cases hlen
    | cons r rs =>
      obtain ⟨htake, hdrop⟩ := ih (Nat.succ.inj hlen) (fun q hq ↦ hps q (List.mem_cons_of_mem _ hq))
      have hp := hps p List.mem_cons_self
      rw [List.zipWith_cons_cons, List.map_cons, List.map_cons, htake, hdrop]
      exact ⟨by rw [List.take_left' hp], by rw [List.drop_left' hp]⟩

theorem deinterleave_interleave (h : xs.length = n * ws.sum) :
    deinterleave ws (interleave n ws xs) = xs := by
  induction ws generalizing xs with
  | nil => exact (List.eq_nil_of_length_eq_zero (by simpa using h)).symm
  | cons w ws ih =>
    rw [List.sum_cons, Nat.mul_add] at h
    obtain ⟨htake, hdrop⟩ := map_take_zipWith
      (show (pieces w n xs).length = (interleave n ws (xs.drop (n * w))).length by simp)
      (length_of_mem_pieces (by omega))
    rw [interleave, deinterleave, List.flatMap_def, htake, hdrop, flatten_pieces (by omega),
      ih (by rw [List.length_drop]; omega), List.take_append_drop]

end Kymux.Interleave
