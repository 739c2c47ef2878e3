import Mathlib

namespace Kymux.EventLoop

/-- An event loop that waits for one input, handles it, and then repeats an inner
loop until that breaks. Handling an input may skip the inner loop. The rank is
what bounds the inner loop: every turn of it that asks for another lowers it. -/
structure Loop (σ ι τ ε : Type) where
  select : σ → ι → Except ε (σ × Bool)
  inner : σ → τ → Except ε (σ × Bool)
  rank : σ → ℕ
  rank_lt : ∀ s t s', inner s t = .ok (s', true) → rank s' < rank s

structure Event (ι τ : Type) where
  input : ι
  now : ℕ → τ

variable {σ ι τ ε ω : Type} (L : Loop σ ι τ ε)

def Loop.iterate (now : ℕ → τ) : ℕ → σ → Except ε (σ × Bool)
  | 0, s => .ok (s, true)
  | n + 1, s =>
    match L.inner s (now 0) with
    | .error e => .error e
    | .ok (s', true) => Loop.iterate (fun i ↦ now (i + 1)) n s'
    | .ok (s', false) => .ok (s', false)

def Loop.turnUpTo (n : σ → ℕ) (s : σ) (e : Event ι τ) : Except ε σ :=
  match L.select s e.input with
  | .error err => .error err
  | .ok (s', true) => (L.iterate e.now (n s') s').map Prod.fst
  | .ok (s', false) => .ok s'

/-- A whole turn: `iterate_finishes` shows that the rank is enough for the inner loop. -/
def Loop.turn : σ → Event ι τ → Except ε σ := L.turnUpTo (fun s ↦ L.rank s + 1)

def Loop.run (s : σ) : List (Event ι τ) → Except ε σ
  | [] => .ok s
  | e :: es =>
    match L.turn s e with
    | .error err => .error err
    | .ok s' => Loop.run s' es

/-- The states of every control point of a run: between two events, and inside the
inner loop of the last one. -/
def Loop.At (s₀ : σ) (es : List (Event ι τ)) (s : σ) : Prop :=
  L.run s₀ es = .ok s ∨
    ∃ pre e n s₁, es = pre ++ [e] ∧ L.run s₀ pre = .ok s₁ ∧ L.turnUpTo n s₁ e = .ok s

variable {L} {s s' s₀ : σ} {now : ℕ → τ} {n : ℕ} {b : Bool} {e : Event ι τ}
  {es pre : List (Event ι τ)}

theorem iterate_invariant {P : σ → Prop}
    (hP : ∀ s t s' b, P s → L.inner s t = .ok (s', b) → P s')
    (h : L.iterate now n s = .ok (s', b)) (hs : P s) : P s' := by
  induction n generalizing s now with
  | zero => cases h; exact hs
  | succ n ih =>
    rw [Loop.iterate] at h
    split at h
    · cases h
    · next s₁ hi => exact ih h (hP _ _ _ _ hs hi)
    · next s₁ hi => cases h; exact hP _ _ _ _ hs hi

theorem iterate_rank (h : L.iterate now n s = .ok (s', true)) : L.rank s' + n ≤ L.rank s := by
  induction n generalizing s now with
  | zero => cases h; simp
  | succ n ih =>
    rw [Loop.iterate] at h
    split at h
    · cases h
    · next s₁ hi =>
      have hlt := L.rank_lt _ _ _ hi
      have := ih h
      omega
    · cases h

/-- The inner loop breaks within as many turns as the rank, whatever the clock reads. -/
theorem iterate_finishes (h : L.iterate now (L.rank s + 1) s = .ok (s', b)) : b = false := by
  cases b with
  | false => rfl
  | true =>
    have := iterate_rank h
    omega

/-- So it comes to an end, by breaking or by an error that one of its turns can return. -/
theorem iterate_ends {P : ε → Prop} (hP : ∀ s t err, L.inner s t = .error err → P err)
    (now : ℕ → τ) (s : σ) :
    ∃ n, (∃ s', L.iterate now n s = .ok (s', false)) ∨
      ∃ err, L.iterate now n s = .error err ∧ P err := by
  have herror : ∀ n now s err, L.iterate now n s = .error err → P err := by
    intro n
    induction n with
    | zero => intro now s err h; cases h
    | succ n ih =>
      intro now s err h
      rw [Loop.iterate] at h
      split at h
      · next hi => cases h; exact hP _ _ _ hi
      · exact ih _ _ _ h
      · cases h
  refine ⟨L.rank s + 1, ?_⟩
  cases hi : L.iterate now (L.rank s + 1) s with
  | error err => exact .inr ⟨err, rfl, herror _ _ _ _ hi⟩
  | ok r =>
    obtain ⟨s', b⟩ := r
    cases iterate_finishes hi
    exact .inl ⟨s', rfl⟩

/-- What a finished inner loop leaves is what its last turn left. -/
theorem iterate_last (h : L.iterate now n s = .ok (s', false)) :
    ∃ s₁ i, L.inner s₁ (now i) = .ok (s', false) := by
  induction n generalizing s now with
  | zero => cases h
  | succ n ih =>
    rw [Loop.iterate] at h
    split at h
    · cases h
    · obtain ⟨s₁, i, hi⟩ := ih h
      exact ⟨s₁, i + 1, hi⟩
    · next s₁ hi => cases h; exact ⟨s, 0, hi⟩

theorem turnUpTo_cases {n : σ → ℕ} (h : L.turnUpTo n s e = .ok s') :
    L.select s e.input = .ok (s', false) ∨
      ∃ s₁ b, L.select s e.input = .ok (s₁, true) ∧ L.iterate e.now (n s₁) s₁ = .ok (s', b) := by
  unfold Loop.turnUpTo at h
  split at h
  · cases h
  · next s₁ hsel =>
    right
    cases hi : L.iterate e.now (n s₁) s₁ with
    | error err => rw [hi] at h; cases h
    | ok r =>
      rw [hi] at h
      cases h
      exact ⟨s₁, r.2, hsel, hi⟩
  · next s₁ hsel => cases h; exact .inl hsel

theorem turn_cases (h : L.turn s e = .ok s') :
    L.select s e.input = .ok (s', false) ∨
      ∃ s₁, L.select s e.input = .ok (s₁, true) ∧
        L.iterate e.now (L.rank s₁ + 1) s₁ = .ok (s', false) := by
  rcases turnUpTo_cases h with h | ⟨s₁, b, hsel, hi⟩
  · exact .inl h
  · cases iterate_finishes hi
    exact .inr ⟨s₁, hsel, hi⟩

theorem run_append (s : σ) (es es' : List (Event ι τ)) :
    L.run s (es ++ es') =
      match L.run s es with
      | .error err => .error err
      | .ok s' => L.run s' es' := by
  induction es generalizing s with
  | nil => rfl
  | cons e es ih =>
    simp only [List.cons_append, Loop.run]
    cases L.turn s e with
    | error err => rfl
    | ok s' => exact ih s'

theorem run_snoc (h : L.run s (pre ++ [e]) = .ok s') :
    ∃ s₁, L.run s pre = .ok s₁ ∧ L.turn s₁ e = .ok s' := by
  rw [run_append] at h
  split at h
  · cases h
  · next s₁ h₁ =>
    refine ⟨s₁, h₁, ?_⟩
    simp only [Loop.run] at h
    split at h
    · cases h
    · next s₂ h₂ => cases h; exact h₂

theorem turnUpTo_induction {motive : List (Event ι τ) → σ → Prop}
    (hselect : ∀ pre e s s' b, motive pre s → L.select s e.input = .ok (s', b) →
      motive (pre ++ [e]) s')
    (hinner : ∀ pre e s t s' b, motive (pre ++ [e]) s → L.inner s t = .ok (s', b) →
      motive (pre ++ [e]) s')
    {n : σ → ℕ} (hs : motive pre s) (h : L.turnUpTo n s e = .ok s') :
    motive (pre ++ [e]) s' := by
  rcases turnUpTo_cases h with hsel | ⟨s₁, b, hsel, hi⟩
  · exact hselect _ _ _ _ _ hs hsel
  · exact iterate_invariant (fun s t s' b ↦ hinner pre e s t s' b) hi
      (hselect _ _ _ _ _ hs hsel)

/-- The induction rule of a run: a property of the events so far and the state that
holds at the start and is kept by every handled input and by every turn of the inner
loop holds at every control point. -/
theorem At.induction {motive : List (Event ι τ) → σ → Prop} (hstart : motive [] s₀)
    (hselect : ∀ pre e s s' b, motive pre s → L.select s e.input = .ok (s', b) →
      motive (pre ++ [e]) s')
    (hinner : ∀ pre e s t s' b, motive (pre ++ [e]) s → L.inner s t = .ok (s', b) →
      motive (pre ++ [e]) s')
    (h : L.At s₀ es s) : motive es s := by
  have hrun : ∀ es s, L.run s₀ es = .ok s → motive es s := by
    intro es
    induction es using List.reverseRecOn with
    | nil => intro s h; cases h; exact hstart
    | append_singleton pre e ih =>
      intro s h
      obtain ⟨s₁, h₁, h₂⟩ := run_snoc h
      exact turnUpTo_induction hselect hinner (ih s₁ h₁) h₂
  rcases h with h | ⟨pre, e, n, s₁, rfl, h₁, h₂⟩
  · exact hrun es s h
  · exact turnUpTo_induction hselect hinner (hrun pre s₁ h₁) h₂

theorem At.invariant {P : σ → Prop} (hstart : P s₀)
    (hselect : ∀ s i s' b, P s → L.select s i = .ok (s', b) → P s')
    (hinner : ∀ s t s' b, P s → L.inner s t = .ok (s', b) → P s')
    (h : L.At s₀ es s) : P s :=
  At.induction (motive := fun _ s ↦ P s) hstart (fun _ _ _ _ _ ↦ hselect _ _ _ _)
    (fun _ _ _ _ _ _ ↦ hinner _ _ _ _) h

theorem iterate_error {P : σ → Prop} {Q : ε → Prop}
    (hinner : ∀ s t, P s → (∀ err, L.inner s t = .error err → Q err) ∧
      ∀ s' b, L.inner s t = .ok (s', b) → P s')
    {err : ε} (h : L.iterate now n s = .error err) (hs : P s) : Q err := by
  induction n generalizing s now with
  | zero => cases h
  | succ n ih =>
    rw [Loop.iterate] at h
    split at h
    · next hi => cases h; exact (hinner s _ hs).1 _ hi
    · next hi => exact ih h ((hinner s _ hs).2 _ _ hi)
    · cases h

/-- An error that ends a run is one that a step can return in a state the run comes to. -/
theorem run_error {P : σ → Prop} {Q : ε → Prop}
    (hselect : ∀ s i, P s → (∀ err, L.select s i = .error err → Q err) ∧
      ∀ s' b, L.select s i = .ok (s', b) → P s')
    (hinner : ∀ s t, P s → (∀ err, L.inner s t = .error err → Q err) ∧
      ∀ s' b, L.inner s t = .ok (s', b) → P s')
    {err : ε} (h : L.run s es = .error err) (hs : P s) : Q err := by
  induction es generalizing s with
  | nil => cases h
  | cons e es ih =>
    rw [Loop.run] at h
    split at h
    · next hturn =>
      cases h
      unfold Loop.turn Loop.turnUpTo at hturn
      split at hturn
      · next hsel => cases hturn; exact (hselect s _ hs).1 _ hsel
      · next s₁ hsel =>
        cases hi : L.iterate e.now (L.rank s₁ + 1) s₁ with
        | error err =>
          rw [hi] at hturn; cases hturn; exact iterate_error hinner hi ((hselect s _ hs).2 _ _ hsel)
        | ok r => rw [hi] at hturn; cases hturn
      · cases hturn
    · next s₁ hturn =>
      refine ih h ?_
      rcases turn_cases hturn with hsel | ⟨s₂, hsel, hi⟩
      · exact (hselect s _ hs).2 _ _ hsel
      · exact iterate_invariant (fun s t s' b hP ↦ (hinner s t hP).2 s' b) hi
          ((hselect s _ hs).2 _ _ hsel)

def Loop.Reads (L : Loop σ ι τ ε) (s₀ : σ) (pre : List (Event ι τ)) (e : Event ι τ) (s : σ)
    (t : τ) : Prop :=
  ∃ s₁ s₂ n, L.run s₀ pre = .ok s₁ ∧ L.select s₁ e.input = .ok (s₂, true) ∧
    L.iterate e.now n s₂ = .ok (s, true) ∧ t = e.now n

theorem iterate_ok {P : σ → Prop} (now : ℕ → τ) (n : ℕ)
    (hinner : ∀ k s', L.iterate now k s = .ok (s', true) → P s' →
      ∃ s'' b, L.inner s' (now k) = .ok (s'', b) ∧ P s'') (hs : P s) :
    ∃ s' b, L.iterate now n s = .ok (s', b) ∧ P s' := by
  induction n generalizing s now with
  | zero => exact ⟨s, true, rfl, hs⟩
  | succ n ih =>
    obtain ⟨s₁, b, hi, h₁⟩ := hinner 0 s rfl hs
    rw [Loop.iterate, hi]
    cases b with
    | true =>
      refine ih _ (fun k s' hk ↦ hinner (k + 1) s' ?_) h₁
      rw [Loop.iterate, hi]
      exact hk
    | false => exact ⟨s₁, false, rfl, h₁⟩

theorem run_ok {motive : List (Event ι τ) → σ → Prop} (hstart : motive [] s₀)
    (hselect : ∀ pre e post s, es = pre ++ e :: post → L.run s₀ pre = .ok s → motive pre s →
      ∃ s' b, L.select s e.input = .ok (s', b) ∧ motive (pre ++ [e]) s')
    (hinner : ∀ pre e post s t, es = pre ++ e :: post → L.Reads s₀ pre e s t →
      motive (pre ++ [e]) s →
      ∃ s' b, L.inner s t = .ok (s', b) ∧ motive (pre ++ [e]) s') :
    ∃ s, L.run s₀ es = .ok s ∧ motive es s := by
  suffices hpre : ∀ pre post, es = pre ++ post → ∃ s, L.run s₀ pre = .ok s ∧ motive pre s from
    hpre es [] (List.append_nil es).symm
  intro pre
  induction pre using List.reverseRecOn with
  | nil => exact fun _ _ ↦ ⟨s₀, rfl, hstart⟩
  | append_singleton pre e ih =>
    intro post hes
    rw [List.append_assoc, List.singleton_append] at hes
    obtain ⟨s, hrun, hs⟩ := ih (e :: post) hes
    obtain ⟨s₁, b, hsel, h₁⟩ := hselect pre e post s hes hrun hs
    rw [run_append, hrun]
    cases b with
    | false => exact ⟨s₁, by simp [Loop.run, Loop.turn, Loop.turnUpTo, hsel], h₁⟩
    | true =>
      obtain ⟨s₂, b, hi, h₂⟩ := iterate_ok e.now (L.rank s₁ + 1) (fun k s' hk ↦
        hinner pre e post s' _ hes ⟨s, s₁, k, hrun, hsel, hk, rfl⟩) h₁
      exact ⟨s₂, by simp [Loop.run, Loop.turn, Loop.turnUpTo, hsel, hi, Except.map], h₂⟩

/-- What every last turn of the inner loop establishes, and an input that skips it keeps,
holds whenever the loop waits for the next input. -/
theorem run_settles {Q : σ → Prop} (hstart : Q s₀)
    (hinner : ∀ s t s', L.inner s t = .ok (s', false) → Q s')
    (hskip : ∀ s i s', Q s → L.select s i = .ok (s', false) → Q s') (h : L.run s₀ es = .ok s) :
    Q s := by
  induction es using List.reverseRecOn generalizing s with
  | nil => cases h; exact hstart
  | append_singleton pre e ih =>
    obtain ⟨s₁, h₁, h₂⟩ := run_snoc h
    rcases turn_cases h₂ with hskipped | ⟨s₂, -, hi⟩
    · exact hskip _ _ _ (ih h₁) hskipped
    · obtain ⟨s₃, i, hlast⟩ := iterate_last hi
      exact hinner _ _ _ hlast

theorem iterate_congr {L' : Loop σ ι τ ε} {P : σ → Prop}
    (hinner : ∀ s t, P s → L'.inner s t = L.inner s t ∧
      ∀ s' b, L.inner s t = .ok (s', b) → P s') (hs : P s) :
    L'.iterate now n s = L.iterate now n s := by
  induction n generalizing s now with
  | zero => rfl
  | succ n ih =>
    rw [Loop.iterate, Loop.iterate, (hinner s _ hs).1]
    cases hi : L.inner s (now 0) with
    | error err => rfl
    | ok r =>
      obtain ⟨s₁, b⟩ := r
      cases b with
      | false => rfl
      | true => exact ih ((hinner s _ hs).2 _ _ hi)

/-- Two loops that do the same in the states a run comes to have the same runs. -/
theorem run_congr {L' : Loop σ ι τ ε} {P : σ → Prop} (hrank : ∀ s, L'.rank s = L.rank s)
    (hselect : ∀ s i, P s → L'.select s i = L.select s i ∧
      ∀ s' b, L.select s i = .ok (s', b) → P s')
    (hinner : ∀ s t, P s → L'.inner s t = L.inner s t ∧
      ∀ s' b, L.inner s t = .ok (s', b) → P s') (hs : P s) :
    L'.run s es = L.run s es := by
  have hturn : ∀ s e, P s → L'.turn s e = L.turn s e := by
    intro s e hs
    unfold Loop.turn Loop.turnUpTo
    rw [(hselect s e.input hs).1]
    cases hsel : L.select s e.input with
    | error err => rfl
    | ok r =>
      obtain ⟨s₁, b⟩ := r
      cases b with
      | false => rfl
      | true =>
        dsimp only
        rw [hrank, iterate_congr hinner ((hselect s _ hs).2 _ _ hsel)]
  induction es generalizing s with
  | nil => rfl
  | cons e es ih =>
    rw [Loop.run, Loop.run, hturn s e hs]
    cases ht : L.turn s e with
    | error err => rfl
    | ok s₁ =>
      refine ih ?_
      rcases turn_cases ht with hsel | ⟨s₂, hsel, hi⟩
      · exact (hselect s _ hs).2 _ _ hsel
      · exact iterate_invariant (fun s t s' b hP ↦ (hinner s t hP).2 s' b) hi
          ((hselect s _ hs).2 _ _ hsel)

/-- The same loop with a history variable beside its state. -/
def Loop.observed (L : Loop σ ι τ ε) (onSelect : ω → σ → ι → σ → ω)
    (onInner : ω → σ → τ → σ → ω) : Loop (σ × ω) ι τ ε where
  select s i := (L.select s.1 i).map (fun r ↦ ((r.1, onSelect s.2 s.1 i r.1), r.2))
  inner s t := (L.inner s.1 t).map (fun r ↦ ((r.1, onInner s.2 s.1 t r.1), r.2))
  rank s := L.rank s.1
  rank_lt s t s' h := by
    cases hi : L.inner s.1 t with
    | error e => rw [hi] at h; cases h
    | ok r =>
      obtain ⟨r, b⟩ := r
      rw [hi] at h
      cases h
      exact L.rank_lt _ _ _ hi

section Observed

variable {onSelect : ω → σ → ι → σ → ω} {onInner : ω → σ → τ → σ → ω} {w w' : ω}

theorem observed_select {i : ι}
    (h : (L.observed onSelect onInner).select (s, w) i = .ok ((s', w'), b)) :
    L.select s i = .ok (s', b) ∧ w' = onSelect w s i s' := by
  simp only [Loop.observed] at h
  cases hi : L.select s i with
  | error e => rw [hi] at h; cases h
  | ok r =>
    rw [hi] at h
    cases h
    exact ⟨rfl, rfl⟩

theorem observed_inner {t : τ}
    (h : (L.observed onSelect onInner).inner (s, w) t = .ok ((s', w'), b)) :
    L.inner s t = .ok (s', b) ∧ w' = onInner w s t s' := by
  simp only [Loop.observed] at h
  cases hi : L.inner s t with
  | error e => rw [hi] at h; cases h
  | ok r =>
    rw [hi] at h
    cases h
    exact ⟨rfl, rfl⟩

/-- The same loop with what its inner loop did last, as `f` tells it from the state before,
the reading of the clock and the state after. -/
def Loop.last (L : Loop σ ι τ ε) (f : σ → τ → σ → ω) : Loop (σ × Option ω) ι τ ε :=
  L.observed (fun w _ _ _ ↦ w) (fun _ s t s' ↦ some (f s t s'))

theorem last_run {f : σ → τ → σ → ω} {Q : σ → Option ω → Prop} (hstart : Q s₀ none)
    (hinner : ∀ s t s', L.inner s t = .ok (s', false) → Q s' (some (f s t s')))
    (hskip : ∀ s i s' w, Q s w → L.select s i = .ok (s', false) → Q s' w)
    {w : Option ω} (h : (L.last f).run (s₀, none) es = .ok (s, w)) : Q s w := by
  refine run_settles (Q := fun x ↦ Q x.1 x.2) hstart ?_ ?_ h
  · rintro ⟨s, w⟩ t ⟨s', w'⟩ hlast
    obtain ⟨hturn, rfl⟩ := observed_inner hlast
    exact hinner _ _ _ hturn
  · rintro ⟨s, w⟩ i ⟨s', w'⟩ hQ hskipped
    obtain ⟨hsel, rfl⟩ := observed_select hskipped
    exact hskip _ _ _ _ hQ hsel

end Observed

/-- Every entry of a trace is allowed by the entries before it. -/
def Causal (allowed : List ω → ω → Prop) (tr : List ω) : Prop :=
  ∀ pre x post, tr = pre ++ x :: post → allowed pre x

section Causal

variable {allowed : List ω → ω → Prop} {tr : List ω} {x : ω}

theorem Causal.nil : Causal allowed [] := by simp [Causal]

theorem Causal.snoc (h : Causal allowed tr) (hx : allowed tr x) : Causal allowed (tr ++ [x]) := by
  intro pre y post hsplit
  rcases List.eq_nil_or_concat post with rfl | ⟨post, z, rfl⟩
  · obtain ⟨rfl, hxy⟩ := List.append_inj' hsplit rfl
    cases hxy
    exact hx
  · rw [List.concat_eq_append, ← List.cons_append, ← List.append_assoc] at hsplit
    obtain ⟨rfl, -⟩ := List.append_inj' hsplit rfl
    exact h pre y post rfl

end Causal

theorem ok_of_map {α β : Type} {r : Except ε α} {f : α → β} {y : β} (h : r.map f = .ok y) :
    ∃ x, r = .ok x ∧ f x = y := by
  cases r with
  | error e => cases h
  | ok x => cases h; exact ⟨x, rfl, rfl⟩

end Kymux.EventLoop
