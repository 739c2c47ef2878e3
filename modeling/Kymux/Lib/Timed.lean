import Kymux.Lib.EventLoop

namespace Kymux.Timed

open EventLoop

/-- What a look at a queue tells: nothing to do, something that is ready, or the instant
at which something will be. -/
inductive Next (ρ : Type)
  | none
  | ready (ref : ρ)
  | deadline (instant : ℕ)
deriving DecidableEq

variable {ρ : Type} {look : ℕ → Next ρ} {armed : Option ℕ} {r t : ℕ}

def Ready (look : ℕ → Next ρ) (t : ℕ) : Prop := ∃ ref, look t = .ready ref

/-- Time matters to the look only by one deadline that it waits for. -/
def OneDeadline (look : ℕ → Next ρ) : Prop :=
  (∀ now, look now = .none) ∨ (∃ ref, ∀ now, look now = .ready ref) ∨
    ∃ d ref, ∀ now, look now = if d ≤ now then .ready ref else .deadline d

/-- The timer says at every time from `r` on whether something is ready. -/
def Exact (ready : ℕ → Prop) (armed : Option ℕ) (r : ℕ) : Prop :=
  ∀ t ≥ r, ready t ↔ ∃ d, armed = some d ∧ d ≤ t

/-- A timer that is not armed is exact when there is nothing to wait for. -/
theorem OneDeadline.exact_none_iff (h : OneDeadline look) :
    Exact (Ready look) none r ↔ look r = .none := by
  have hiff : Exact (Ready look) none r ↔ ∀ t ≥ r, ¬ Ready look t := by simp [Exact]
  rw [hiff]
  rcases h with h | ⟨ref, h⟩ | ⟨d, ref, h⟩
  · simp [Ready, h]
  · simp only [Ready, h, reduceCtorEq, iff_false]
    exact fun hn ↦ hn r le_rfl ⟨ref, rfl⟩
  · -- At the later of `r` and the deadline it would be ready.
    have hready : Ready look (max r d) := ⟨ref, by simp [h]⟩
    have hne : look r ≠ .none := by
      rw [h]
      split_ifs <;> simp
    exact iff_of_false (fun hn ↦ hn _ (le_max_left r d) hready) hne

inductive Armed : Next ρ → Option ℕ → Prop
  | none : Armed .none none
  | deadline (d : ℕ) : Armed (.deadline d) (some d)

/-- A timer armed at `r` for what the look waits for is exact from then on. -/
theorem OneDeadline.exact (h : OneDeadline look) (ha : Armed (look r) armed) :
    ¬ Ready look r ∧ Exact (Ready look) armed r := by
  generalize hr : look r = next at ha
  cases ha with
  | none => exact ⟨by simp [Ready, hr], h.exact_none_iff.mpr hr⟩
  | deadline d =>
    refine ⟨by simp [Ready, hr], ?_⟩
    intro t ht
    rcases h with h | ⟨ref, h⟩ | ⟨d', ref, h⟩
    · simp [h] at hr
    · simp [h] at hr
    · rw [h] at hr
      split_ifs at hr with hd
      cases hr
      rw [Ready, h]
      split_ifs with hdt <;> simp [hdt]

/-- How a loop looks at its queue, and the variable that holds its deadline. -/
structure Timer (σ ρ : Type) where
  look : σ → ℕ → Next ρ
  deadline : σ → Option ℕ
  arm : σ → Option ℕ → σ
  look_arm : ∀ s d, look (arm s d) = look s
  deadline_arm : ∀ s d, deadline (arm s d) = d
  oneDeadline : ∀ s, OneDeadline (look s)

namespace Timer

variable {σ ι ε : Type} (T : Timer σ ρ)

inductive Turn (taken : ρ → σ → Prop) (s : σ) (now : ℕ) : σ → Prop
  | none (h : T.look s now = .none) : Turn taken s now (T.arm s none)
  | deadline {d : ℕ} (h : T.look s now = .deadline d) : Turn taken s now (T.arm s (some d))
  | ready {ref : ρ} {s' : σ} (h : T.look s now = .ready ref) (htaken : taken ref s') :
    Turn taken s now s'

variable {T} {taken : ρ → σ → Prop} {s s' s₀ : σ} {now : ℕ}

theorem Turn.cases_armed (h : T.Turn taken s now s') :
    ¬ Ready (T.look s) now ∧ Armed (T.look s' now) (T.deadline s') ∨
      ∃ ref, T.look s now = .ready ref ∧ taken ref s' := by
  cases h with
  | none h =>
    rw [T.look_arm, T.deadline_arm, h]
    exact .inl ⟨by simp [Ready, h], .none⟩
  | @deadline d h =>
    rw [T.look_arm, T.deadline_arm, h]
    exact .inl ⟨by simp [Ready, h], .deadline d⟩
  | @ready ref s' h htaken => exact .inr ⟨ref, h, htaken⟩

theorem Turn.exact (h : T.Turn (fun _ _ ↦ False) s now s') :
    ¬ Ready (T.look s') now ∧ Exact (Ready (T.look s')) (T.deadline s') now := by
  obtain ⟨-, harmed⟩ | ⟨ref, -, hfalse⟩ := h.cases_armed
  · exact (T.oneDeadline s').exact harmed
  · exact hfalse.elim

variable {L : Loop σ ι ℕ ε} {es : List (Event ι ℕ)} (T)

/-- A loop whose inner loop breaks with the timer armed has an exact timer whenever it
waits. -/
theorem last_exact
    (hinner : ∀ s now s', L.inner s now = .ok (s', false) → T.Turn (fun _ _ ↦ False) s now s')
    (hskip : ∀ s i s', L.select s i = .ok (s', false) →
      T.look s' = T.look s ∧ T.deadline s' = T.deadline s)
    (h : (L.last (fun _ now _ ↦ now)).run (s₀, none) es = .ok (s, some r)) :
    ¬ Ready (T.look s) r ∧ Exact (Ready (T.look s)) (T.deadline s) r := by
  refine last_run (Q := fun s w ↦ ∀ r, w = some r →
    ¬ Ready (T.look s) r ∧ Exact (Ready (T.look s)) (T.deadline s) r) (by simp) ?_ ?_ h r rfl
  · rintro s t s' hturn r ⟨⟩
    exact (hinner s t s' hturn).exact
  · intro s i s' w hQ hsel
    obtain ⟨hlook, hdeadline⟩ := hskip s i s' hsel
    rwa [hlook, hdeadline]

/-- Where the inner loop may also break with the timer off, after it took something, the timer
is exact as long as that was `alone` in the state before. -/
theorem last_exact_iff (alone : σ → ρ → Prop) (hstart : Armed (T.look s₀ 0) (T.deadline s₀))
    (hinner : ∀ s now s', L.inner s now = .ok (s', false) →
      T.Turn (fun ref s' ↦ T.deadline s' = none ∧ (T.look s' now = .none ↔ alone s ref)) s now s')
    (hskip : ∀ s i s', L.select s i = .ok (s', false) →
      T.look s' = T.look s ∧ T.deadline s' = T.deadline s)
    {w : Option (σ × ℕ)} (h : (L.last (fun s now _ ↦ (s, now))).run (s₀, none) es = .ok (s, w)) :
    Exact (Ready (T.look s)) (T.deadline s) (w.elim 0 Prod.snd) ↔
      ∀ before now, w = some (before, now) → ∀ ref, T.look before now = .ready ref →
        alone before ref := by
  refine last_run (Q := fun s w ↦ Exact (Ready (T.look s)) (T.deadline s) (w.elim 0 Prod.snd) ↔
    ∀ before now, w = some (before, now) → ∀ ref, T.look before now = .ready ref →
      alone before ref) ?_ ?_ ?_ h
  · exact iff_of_true ((T.oneDeadline s₀).exact hstart).2 (by simp)
  · intro s now s' hturn
    simp only [Option.elim_some, Option.some.injEq, Prod.mk.injEq, and_imp, forall_eq',
      forall_apply_eq_imp_iff]
    obtain ⟨hnot, harmed⟩ | ⟨ref, href, hd, hnone⟩ := (hinner s now s' hturn).cases_armed
    · exact iff_of_true ((T.oneDeadline s').exact harmed).2 fun ref href ↦ (hnot ⟨ref, href⟩).elim
    · rw [hd, (T.oneDeadline s').exact_none_iff, hnone]
      simp [href]
  · intro s i s' w hQ hsel
    obtain ⟨hlook, hdeadline⟩ := hskip s i s' hsel
    rwa [hlook, hdeadline]

end Timer

end Kymux.Timed
