import Mathlib

/-! Objects that leave in the order of their keys, as long as the first of them has expired. -/

namespace Kymux.Expiry

variable {α : Type} {key : α → ℕ} {expired : α → Prop} {xs ys : Multiset α} {a b : α}

inductive Drops (key : α → ℕ) (expired : α → Prop) : Multiset α → Multiset α → Prop
  | mk {a : α} {xs : Multiset α} (ha : expired a) (hmin : ∀ b ∈ xs, key a ≤ key b) :
    Drops key expired (a ::ₘ xs) xs

def Blocked (key : α → ℕ) (expired : α → Prop) (xs : Multiset α) : Prop :=
  ∀ b ∈ xs, expired b → ∃ a ∈ xs, ¬ expired a ∧ key a < key b

def InOrder (key : α → ℕ) (expired : α → Prop) (xs : Multiset α) : Prop :=
  ∀ a ∈ xs, ¬ expired a → ∀ b ∈ xs, expired b → key b ≤ key a

theorem le_of_drops (h : Relation.ReflTransGen (Drops key expired) xs ys) : ys ≤ xs := by
  induction h with
  | refl => exact le_rfl
  | tail _ hstep ih =>
    cases hstep
    exact (Multiset.le_cons_self _ _).trans ih

theorem filter_of_drops [DecidablePred expired]
    (h : Relation.ReflTransGen (Drops key expired) xs ys) :
    ys.filter (fun a ↦ ¬ expired a) = xs.filter (fun a ↦ ¬ expired a) := by
  induction h with
  | refl => rfl
  | tail _ hstep ih =>
    obtain ⟨ha, -⟩ := hstep
    rw [← ih, Multiset.filter_cons_of_neg (p := fun a ↦ ¬ expired a) _ (not_not_intro ha)]

/-- Where the objects expire in order, only those that have not are left. -/
theorem eq_filter [DecidablePred expired] (hord : InOrder key expired xs)
    (h : Relation.ReflTransGen (Drops key expired) xs ys) (hblocked : Blocked key expired ys) :
    ys = xs.filter (fun a ↦ ¬ expired a) := by
  rw [← filter_of_drops h, eq_comm, Multiset.filter_eq_self]
  intro b hb hexp
  obtain ⟨a, ha, hfresh, hlt⟩ := hblocked b hb hexp
  have hle := le_of_drops h
  exact absurd (hord a (Multiset.mem_of_le hle ha) hfresh b (Multiset.mem_of_le hle hb) hexp)
    (by omega)

theorem mem_of_drops (ha : a ∈ xs) (hfresh : ¬ expired a) (hb : b ∈ xs) (hlt : key a < key b)
    (h : Relation.ReflTransGen (Drops key expired) xs ys) : a ∈ ys ∧ b ∈ ys := by
  induction h with
  | refl => exact ⟨ha, hb⟩
  | tail _ hstep ih =>
    obtain ⟨hexp, hmin⟩ := hstep
    obtain ⟨ha, hb⟩ := ih
    have hleft := (Multiset.mem_cons.mp ha).resolve_left (fun heq ↦ hfresh (heq ▸ hexp))
    refine ⟨hleft, (Multiset.mem_cons.mp hb).resolve_left ?_⟩
    rintro rfl
    have := hmin a hleft
    omega

end Kymux.Expiry
