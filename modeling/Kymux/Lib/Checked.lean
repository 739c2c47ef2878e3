import Mathlib

/-! Arithmetic of machine words, on natural numbers: what leaves its range is an error. -/

namespace Kymux.Checked

variable {ε α β : Type} {w n a b : ℕ} {e : ε}

def fits (w : ℕ) (e : ε) (n : ℕ) : Except ε ℕ := if n < 2 ^ w then .ok n else .error e

def sub (e : ε) (a b : ℕ) : Except ε ℕ := if b ≤ a then .ok (a - b) else .error e

def slice (e : ε) (xs : List α) (i j : ℕ) : Except ε (List α) :=
  if i ≤ j ∧ j ≤ xs.length then .ok ((xs.drop i).take (j - i)) else .error e

def sum (w : ℕ) (e : ε) (acc : ℕ) : List ℕ → Except ε ℕ
  | [] => .ok acc
  | x :: xs =>
    match fits w e (acc + x) with
    | .error e => .error e
    | .ok acc => Checked.sum w e acc xs

def each (f : α → Except ε β) : List α → Except ε (List β)
  | [] => .ok []
  | x :: xs =>
    match f x with
    | .error e => .error e
    | .ok y => (each f xs).map (y :: ·)

theorem fits_ok (h : n < 2 ^ w) : fits w e n = .ok n := if_pos h

theorem sub_ok (h : b ≤ a) : sub e a b = .ok (a - b) := if_pos h

theorem slice_ok {xs : List α} {i j : ℕ} (hi : i ≤ j) (hj : j ≤ xs.length) :
    slice e xs i j = .ok ((xs.drop i).take (j - i)) := if_pos ⟨hi, hj⟩

theorem sum_ok {xs : List ℕ} {acc : ℕ} (h : acc + xs.sum < 2 ^ w) :
    sum w e acc xs = .ok (acc + xs.sum) := by
  induction xs generalizing acc with
  | nil => rfl
  | cons x xs ih =>
    rw [List.sum_cons, ← Nat.add_assoc] at h
    have hx : acc + x < 2 ^ w := lt_of_le_of_lt (Nat.le_add_right _ _) h
    rw [sum, fits_ok hx, List.sum_cons, ← Nat.add_assoc]
    exact ih h

theorem each_ok {f : α → Except ε β} {g : α → β} {xs : List α} (h : ∀ x ∈ xs, f x = .ok (g x)) :
    each f xs = .ok (xs.map g) := by
  induction xs with
  | nil => rfl
  | cons x xs ih =>
    rw [each, h x (by simp), ih (fun y hy ↦ h y (by simp [hy]))]
    rfl

theorem of_each_ok {f : α → Except ε β} {xs : List α} {ys : List β} (h : each f xs = .ok ys) :
    ∀ x ∈ xs, ∃ y, f x = .ok y := by
  induction xs generalizing ys with
  | nil => simp
  | cons x xs ih =>
    rw [each] at h
    cases hx : f x with
    | error e => simp [hx] at h
    | ok y =>
      rw [hx] at h
      cases hxs : each f xs with
      | error e => simp [hxs, Except.map] at h
      | ok zs =>
        intro x' hx'
        rcases List.mem_cons.mp hx' with rfl | hx'
        · exact ⟨y, hx⟩
        · exact ih hxs x' hx'

end Kymux.Checked
