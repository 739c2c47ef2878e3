import Mathlib

namespace Kymux.Unroll

/-- A number lies in the half range around the newest one: what a circular number
of that range can still tell apart. -/
def Near (half newest t : ℕ) : Prop := newest < t + half ∧ t ≤ newest + half

/-- Numbers that arrive in this order, each near the largest before it. -/
def BoundedDisorder (half : ℕ) (newest : ℕ) : List ℕ → Prop
  | [] => True
  | t :: ts => Near half newest t ∧ BoundedDisorder half (max newest t) ts

theorem boundedDisorder_append {half newest : ℕ} {ts us : List ℕ} :
    BoundedDisorder half newest (ts ++ us) ↔
      BoundedDisorder half newest ts ∧ BoundedDisorder half (ts.foldl max newest) us := by
  induction ts generalizing newest with
  | nil => simp [BoundedDisorder]
  | cons t ts ih => simp only [List.cons_append, BoundedDisorder, ih, List.foldl_cons, and_assoc]

theorem boundedDisorder_of_lt {half newest : ℕ} {ts : List ℕ} (hn : newest < half)
    (h : ∀ t ∈ ts, t < half) : BoundedDisorder half newest ts := by
  induction ts generalizing newest with
  | nil => trivial
  | cons t ts ih =>
    have ht := h t (by simp)
    refine ⟨⟨by omega, by omega⟩, ih (by omega) ?_⟩
    intro u hu
    exact h u (by simp [hu])

/-- The circular number continued from the newest one: `value` is a number modulo
`2 * half`, and the result is the one congruent to it next to `newest`. -/
def unroll (half newest value : ℕ) : ℕ :=
  let seq := newest / (2 * half) * (2 * half) + value
  if seq + half ≤ newest then seq + 2 * half
  else if newest + half < seq ∧ 2 * half ≤ seq then seq - 2 * half
  else seq

theorem mul_eq_zero_of_lt {d n : ℕ} (h : d * n < n) : d * n = 0 := by
  rcases Nat.eq_zero_or_pos d with rfl | hd
  · exact Nat.zero_mul n
  · exact absurd h (Nat.not_lt.mpr (Nat.le_mul_of_pos_left n hd))

theorem unroll_near {half newest t : ℕ} (h : Near half newest t) :
    unroll half newest (t % (2 * half)) = t := by
  have hpos : 0 < 2 * half := by
    rcases h with ⟨h₁, h₂⟩
    omega
  obtain ⟨h₁, h₂⟩ := h
  have ht := Nat.div_add_mod' t (2 * half)
  have hn := Nat.div_add_mod' newest (2 * half)
  have htm := Nat.mod_lt t hpos
  have hnm := Nat.mod_lt newest hpos
  simp only [unroll]
  -- The two block numbers differ by at most one, and each case fixes a branch.
  rcases lt_trichotomy (t / (2 * half)) (newest / (2 * half)) with hlt | heq | hgt
  · obtain ⟨d, hd⟩ : ∃ d, newest / (2 * half) = t / (2 * half) + d + 1 :=
      ⟨newest / (2 * half) - t / (2 * half) - 1, by omega⟩
    rw [hd, Nat.add_mul, Nat.add_mul, Nat.one_mul] at hn ⊢
    have hd0 : d * (2 * half) = 0 := mul_eq_zero_of_lt (by omega)
    split_ifs <;> omega
  · rw [← heq] at hn ⊢
    split_ifs <;> omega
  · obtain ⟨d, hd⟩ : ∃ d, t / (2 * half) = newest / (2 * half) + d + 1 :=
      ⟨t / (2 * half) - newest / (2 * half) - 1, by omega⟩
    rw [hd, Nat.add_mul, Nat.add_mul, Nat.one_mul] at ht
    have hd0 : d * (2 * half) = 0 := mul_eq_zero_of_lt (by omega)
    split_ifs <;> omega

/-- Every result continues its value. It is near the newest number, except where going
back from the value itself would pass the origin. -/
theorem unroll_spec {half value : ℕ} (newest : ℕ) (hv : value < 2 * half) :
    unroll half newest value % (2 * half) = value ∧
      (Near half newest (unroll half newest value) ∨
        newest < half ∧ unroll half newest value = value) := by
  have hnewest := Nat.div_add_mod' newest (2 * half)
  have hrest := Nat.mod_lt newest (show 0 < 2 * half by omega)
  simp only [unroll, Near]
  split_ifs with hpast hfuture
  · refine ⟨?_, .inl (by omega)⟩
    rw [Nat.add_mod_right, Nat.mul_add_mod_of_lt hv]
  · refine ⟨?_, .inl (by omega)⟩
    rw [← Nat.add_mod_right, Nat.sub_add_cancel hfuture.2, Nat.mul_add_mod_of_lt hv]
  · refine ⟨Nat.mul_add_mod_of_lt hv, ?_⟩
    by_cases hnear : newest / (2 * half) * (2 * half) + value ≤ newest + half
    · exact .inl (by omega)
    · have hfirst : newest / (2 * half) * (2 * half) = 0 := by
        rcases Nat.eq_zero_or_pos (newest / (2 * half)) with hzero | hpos
        · rw [hzero, Nat.zero_mul]
        · have := Nat.le_mul_of_pos_left (2 * half) hpos
          omega
      exact .inr (by omega)

end Kymux.Unroll
