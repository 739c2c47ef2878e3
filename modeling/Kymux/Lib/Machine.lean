import Mathlib

/-! Runs of a machine that is given by its steps. An action that a state does not allow has
no successor. -/

namespace Kymux.Machine

variable {σ α : Type} {step : σ → α → Option σ} {s s' s'' : σ} {a : α} {as bs : List α}

def run (step : σ → α → Option σ) : σ → List α → Option σ
  | s, [] => some s
  | s, a :: as => (step s a).bind (fun s' ↦ run step s' as)

theorem run_append (s : σ) (as bs : List α) :
    run step s (as ++ bs) = (run step s as).bind (fun s' ↦ run step s' bs) := by
  induction as generalizing s with
  | nil => rfl
  | cons a as ih =>
    rw [List.cons_append, run, run, Option.bind_assoc]
    congr 1
    funext s'
    exact ih s'

theorem run_trans (h : run step s as = some s') (h' : run step s' bs = some s'') :
    run step s (as ++ bs) = some s'' := by
  rw [run_append, h, Option.bind_some, h']

theorem run_snoc (h : run step s (as ++ [a]) = some s'') :
    ∃ s', run step s as = some s' ∧ step s' a = some s'' := by
  rw [run_append] at h
  obtain ⟨s', hs', hlast⟩ := Option.bind_eq_some_iff.mp h
  refine ⟨s', hs', ?_⟩
  obtain ⟨s₁, hstep, hnil⟩ := Option.bind_eq_some_iff.mp hlast
  cases hnil
  exact hstep

theorem run_induction {motive : List α → σ → Prop} {s₀ : σ} (hstart : motive [] s₀)
    (hstep : ∀ as s a s', run step s₀ as = some s → motive as s → step s a = some s' →
      motive (as ++ [a]) s')
    (h : run step s₀ as = some s) : motive as s := by
  induction as using List.reverseRecOn generalizing s with
  | nil => cases h; exact hstart
  | append_singleton as a ih =>
    obtain ⟨s₁, hrun, hlast⟩ := run_snoc h
    exact hstep as s₁ a s hrun (ih hrun) hlast

theorem run_invariant {P : σ → Prop} {s₀ : σ} (hstart : P s₀)
    (hstep : ∀ s a s', P s → step s a = some s' → P s') (h : run step s₀ as = some s) : P s :=
  run_induction (motive := fun _ ↦ P) hstart (fun _ s a s' _ ↦ hstep s a s') h

/-- Each step of the one machine is a run of the other one, between states that are related. -/
theorem run_simulates {τ β : Type} {g : τ → β → Option τ} {R : σ → τ → Prop} {t : τ}
    (hstep : ∀ s t a s', R s t → step s a = some s' → ∃ bs t', run g t bs = some t' ∧ R s' t')
    (hR : R s t) (h : run step s as = some s') : ∃ bs t', run g t bs = some t' ∧ R s' t' := by
  refine run_induction (motive := fun _ s' ↦ ∃ bs t', run g t bs = some t' ∧ R s' t')
    ⟨[], t, rfl, hR⟩ ?_ h
  rintro - s₁ a s₂ - ⟨bs, t₁, hbs, hR₁⟩ ha
  obtain ⟨cs, t₂, hcs, hR₂⟩ := hstep s₁ t₁ a s₂ hR₁ ha
  exact ⟨bs ++ cs, t₂, run_trans hbs hcs, hR₂⟩

def Along (step : σ → α → Option σ) (C : σ → α → Prop) : σ → List α → Prop
  | _, [] => True
  | s, a :: as => C s a ∧ ∀ s', step s a = some s' → Along step C s' as

theorem along_snoc {C : σ → α → Prop} (h : run step s as = some s') :
    Along step C s (as ++ [a]) ↔ Along step C s as ∧ C s' a := by
  induction as generalizing s with
  | nil =>
    cases h
    simp [Along]
  | cons b as ih =>
    obtain ⟨s₁, hb, hrun⟩ := Option.bind_eq_some_iff.mp h
    simp only [List.cons_append, Along, hb, Option.some.injEq, forall_eq', ih hrun, and_assoc]

instance Along.decidable (step : σ → α → Option σ) (C : σ → α → Prop) [∀ s a, Decidable (C s a)] :
    ∀ s as, Decidable (Along step C s as)
  | _, [] => isTrue trivial
  | s, a :: as =>
    match h : step s a with
    | none => decidable_of_iff (C s a) (by simp [Along, h])
    | some s' =>
      have := Along.decidable step C s' as
      decidable_of_iff (C s a ∧ Along step C s' as) (by simp [Along, h])

def Throughout (step : σ → α → Option σ) (P : σ → Prop) : σ → List α → Prop
  | s, [] => P s
  | s, a :: as => P s ∧ ∀ s', step s a = some s' → Throughout step P s' as

theorem Throughout.start {P : σ → Prop} (h : Throughout step P s as) : P s := by
  cases as with
  | nil => exact h
  | cons a as => exact h.1

/-- A property of states that a step keeps exactly under a condition. -/
theorem throughout_iff_along {I P : σ → Prop} {C : σ → α → Prop}
    (hI : ∀ s a s', I s → step s a = some s' → I s')
    (hstep : ∀ s a s', I s → P s → step s a = some s' → (P s' ↔ C s a)) (hs : I s) (hP : P s)
    (h : run step s as = some s') : Throughout step P s as ↔ Along step C s as := by
  induction as generalizing s with
  | nil => exact iff_of_true hP trivial
  | cons a as ih =>
    obtain ⟨s₁, ha, hrun⟩ := Option.bind_eq_some_iff.mp h
    simp only [Throughout, Along, ha, Option.some.injEq, forall_eq', hP, true_and]
    rw [← hstep s a s₁ hs hP ha]
    constructor
    · exact fun hall ↦ ⟨hall.start, (ih (hI s a s₁ hs ha) hall.start hrun).mp hall⟩
    · exact fun hall ↦ (ih (hI s a s₁ hs ha) hall.1 hrun).mpr hall.2

end Kymux.Machine
