import Mathlib

/-! Values of which each has a generation, forwarded at most once for each generation. -/

namespace Kymux.Generations

variable {α : Type} {value : ℕ → Option α} {last gen : ℕ} {a : α} {out : List (ℕ × α)}

structure Latest (value : ℕ → Option α) (last : ℕ) (out : List (ℕ × α)) : Prop where
  increasing : out.Pairwise (fun x y ↦ x.1 < y.1)
  le : ∀ x ∈ out, x.1 ≤ last
  valued : ∀ x ∈ out, value x.1 = some x.2
  last : last = 0 ∨ ∃ a, out.getLast? = some (last, a)

namespace Latest

theorem nil : Latest value 0 [] := ⟨.nil, by simp, by simp, .inl rfl⟩

theorem concat (h : Latest value last out) (hlt : last < gen) (ha : value gen = some a) :
    Latest value gen (out ++ [(gen, a)]) where
  increasing := by
    refine List.pairwise_append.mpr ⟨h.increasing, List.pairwise_singleton _ _, fun x hx y hy ↦ ?_⟩
    obtain rfl := List.mem_singleton.mp hy
    exact (h.le x hx).trans_lt hlt
  le x hx := by
    obtain hx | hx := List.mem_append.mp hx
    · exact (h.le x hx).trans hlt.le
    · obtain rfl := List.mem_singleton.mp hx
      exact le_rfl
  valued x hx := by
    obtain hx | hx := List.mem_append.mp hx
    · exact h.valued x hx
    · obtain rfl := List.mem_singleton.mp hx
      exact ha
  last := .inr ⟨a, by simp⟩

theorem getLast? (h : Latest value last out) (hpos : 0 < last) (ha : value last = some a) :
    out.getLast?.map Prod.snd = some a := by
  obtain rfl | ⟨b, hb⟩ := h.last
  · cases hpos
  · have := h.valued _ (List.mem_of_getLast? hb)
    rw [hb, Option.map_some]
    exact this.symm.trans ha

end Latest

end Kymux.Generations
