import Mathlib

/-! The search for the first free place, from a given one on. -/

namespace Kymux.Probe

variable {α : Type} (next : α → α) (taken : α → Prop) [DecidablePred taken] {a : α} {k : ℕ}

/-- The search, up to a number of turns; `none` when they do not suffice. -/
def search : ℕ → α → Option α
  | 0, _ => none
  | n + 1, a => if taken a then search n (next a) else some a

/-- When some place ahead is free the search ends at a free one, whatever number of turns
beyond its distance it is given. -/
theorem search_terminates (h : ¬ taken (next^[k] a)) :
    ∃ b, ¬ taken b ∧ ∀ n > k, search next taken n a = some b := by
  induction k generalizing a with
  | zero =>
    refine ⟨a, h, fun n hn ↦ ?_⟩
    obtain ⟨n, rfl⟩ : ∃ m, n = m + 1 := ⟨n - 1, by omega⟩
    exact if_neg h
  | succ k ih =>
    by_cases ha : taken a
    · obtain ⟨b, hb, hsearch⟩ := ih h
      refine ⟨b, hb, fun n hn ↦ ?_⟩
      obtain ⟨n, rfl⟩ : ∃ m, n = m + 1 := ⟨n - 1, by omega⟩
      rw [search, if_pos ha]
      exact hsearch n (by omega)
    · refine ⟨a, ha, fun n hn ↦ ?_⟩
      obtain ⟨n, rfl⟩ : ∃ m, n = m + 1 := ⟨n - 1, by omega⟩
      exact if_neg ha

end Kymux.Probe
