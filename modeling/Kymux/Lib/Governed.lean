import Mathlib

namespace Kymux.Governed

variable {P : Type} (isConfig : P → Bool) (sent : List P)

def configAt (i : ℕ) : Bool := sent[i]?.any isConfig

def group (i : ℕ) : ℕ := (sent.take (i + 1)).countP isConfig

def lastConfig (is : List ℕ) : Option ℕ := (is.filter (configAt isConfig sent)).getLast?

/-- Positions delivered in sending order, each medium right under the config that was
the last one sent before it. -/
structure InOrder (is : List ℕ) : Prop where
  increasing : is.Pairwise (· < ·)
  bounded : ∀ i ∈ is, i < sent.length
  governed : ∀ pre i post, is = pre ++ i :: post → configAt isConfig sent i = false →
    ∃ j, lastConfig isConfig sent pre = some j ∧ j < i ∧ configAt isConfig sent j = true ∧
      ∀ k < i, configAt isConfig sent k = true → k ≤ j

/-- The abstract receiver may deliver `i` next: it is ahead of everything delivered, and
a medium belongs to the group of the last delivered config. -/
structure CanDeliver (is : List ℕ) (i : ℕ) : Prop where
  ahead : ∀ j ∈ is, j < i
  bounded : i < sent.length
  governed : configAt isConfig sent i = false →
    ∃ c, lastConfig isConfig sent is = some c ∧ group isConfig sent c = group isConfig sent i

theorem group_mono {i j : ℕ} (h : i ≤ j) : group isConfig sent i ≤ group isConfig sent j := by
  unfold group
  exact (List.take_sublist_take_left (by omega)).countP_le

variable {isConfig sent} {i j c : ℕ} {is : List ℕ}

theorem lt_of_group_lt (h : group isConfig sent i < group isConfig sent j) : i < j := by
  by_contra hij
  exact absurd (group_mono isConfig sent (not_lt.mp hij)) (by omega)

theorem group_succ_of_config (h : configAt isConfig sent (i + 1) = true) :
    group isConfig sent (i + 1) = group isConfig sent i + 1 := by
  unfold configAt at h
  unfold group
  rw [List.take_add_one, List.countP_append]
  cases hp : sent[i + 1]? with
  | none => simp [hp] at h
  | some p =>
    rw [hp] at h
    simpa using h

theorem group_succ_of_media (h : configAt isConfig sent (i + 1) = false) :
    group isConfig sent (i + 1) = group isConfig sent i := by
  unfold configAt at h
  unfold group
  rw [List.take_add_one, List.countP_append]
  cases hp : sent[i + 1]? with
  | none => rfl
  | some p =>
    rw [hp] at h
    simpa using h

theorem group_lt_of_config (h : configAt isConfig sent j = true) (hij : i < j) :
    group isConfig sent i < group isConfig sent j := by
  obtain ⟨d, rfl⟩ : ∃ d, j = d + 1 := ⟨j - 1, by omega⟩
  have := group_mono isConfig sent (show i ≤ d by omega)
  have := group_succ_of_config h
  omega

theorem config_le_of_group_eq (hc : configAt isConfig sent c = true)
    (hg : group isConfig sent c = group isConfig sent i) : c ≤ i := by
  by_contra h
  have := group_lt_of_config hc (not_le.mp h)
  omega

theorem config_lt_of_group_eq (hc : configAt isConfig sent c = true)
    (hi : configAt isConfig sent i = false)
    (hg : group isConfig sent c = group isConfig sent i) : c < i := by
  refine lt_of_le_of_ne (config_le_of_group_eq hc hg) ?_
  rintro rfl
  simp [hc] at hi

def configs (isConfig : P → Bool) (sent : List P) : List ℕ :=
  (List.range sent.length).filter (configAt isConfig sent)

theorem configs_snoc (p : P) :
    configs isConfig (sent ++ [p]) =
      configs isConfig sent ++ if isConfig p then [sent.length] else [] := by
  have hsame : (List.range sent.length).filter (configAt isConfig (sent ++ [p])) =
      configs isConfig sent := by
    refine List.filter_congr (fun i hi ↦ ?_)
    simp only [configAt, List.getElem?_append_left (List.mem_range.mp hi)]
  rw [configs, List.length_append, List.length_singleton, List.range_succ, List.filter_append,
    hsame]
  cases hp : isConfig p <;> simp [configAt, hp]

theorem length_configs : (configs isConfig sent).length = sent.countP isConfig := by
  induction sent using List.reverseRecOn with
  | nil => rfl
  | append_singleton ps p ih =>
    rw [configs_snoc, List.length_append, ih, List.countP_append]
    cases hp : isConfig p <;> simp [hp]

theorem mem_configs : i ∈ configs isConfig sent ↔ configAt isConfig sent i = true := by
  unfold configs configAt
  rw [List.mem_filter, List.mem_range]
  refine ⟨And.right, fun h ↦ ⟨?_, h⟩⟩
  by_contra hi
  rw [List.getElem?_eq_none (not_lt.mp hi)] at h
  cases h

theorem group_configs {m : ℕ} (h : (configs isConfig sent)[m]? = some i) :
    group isConfig sent i = m + 1 := by
  induction sent using List.reverseRecOn with
  | nil => simp [configs] at h
  | append_singleton ps p ih =>
    rw [configs_snoc] at h
    by_cases hm : m < (configs isConfig ps).length
    · rw [List.getElem?_append_left hm] at h
      have hi : i < ps.length := by
        have hmem := List.mem_of_getElem? h
        exact List.mem_range.mp (List.mem_filter.mp hmem).1
      rw [← ih h]
      unfold group
      rw [List.take_append_of_le_length (by omega)]
    · rw [List.getElem?_append_right (not_lt.mp hm)] at h
      cases hp : isConfig p with
      | false => simp [hp] at h
      | true =>
        simp only [hp, if_true, List.getElem?_singleton, Option.ite_none_right_eq_some,
          Option.some.injEq] at h
        obtain ⟨hz, rfl⟩ := h
        rw [group, List.take_of_length_le (by simp), List.countP_append, ← length_configs]
        simp only [List.countP_singleton, hp, if_true]
        omega

theorem lastConfig_mem (h : lastConfig isConfig sent is = some c) :
    c ∈ is ∧ configAt isConfig sent c = true := by
  have := List.mem_of_getLast? h
  simpa using this

theorem lastConfig_snoc_config (h : configAt isConfig sent i = true) :
    lastConfig isConfig sent (is ++ [i]) = some i := by
  simp [lastConfig, List.filter_append, h]

theorem lastConfig_snoc_media (h : configAt isConfig sent i = false) :
    lastConfig isConfig sent (is ++ [i]) = lastConfig isConfig sent is := by
  simp [lastConfig, List.filter_append, h]

theorem InOrder.nil : InOrder isConfig sent [] where
  increasing := .nil
  bounded := by simp
  governed := by simp

theorem InOrder.deliver (h : InOrder isConfig sent is) (hi : CanDeliver isConfig sent is i) :
    InOrder isConfig sent (is ++ [i]) where
  increasing := by
    refine List.pairwise_append.mpr ⟨h.increasing, List.pairwise_singleton _ _, ?_⟩
    intro a ha b hb
    cases List.mem_singleton.mp hb
    exact hi.ahead a ha
  bounded := by
    intro k hk
    rcases List.mem_append.mp hk with hk | hk
    · exact h.bounded k hk
    · cases List.mem_singleton.mp hk
      exact hi.bounded
  governed := by
    intro pre k post hsplit hk
    rcases List.eq_nil_or_concat post with rfl | ⟨post, l, rfl⟩
    · obtain ⟨rfl, hik⟩ := List.append_inj' hsplit rfl
      cases hik
      obtain ⟨c, hc, hg⟩ := hi.governed hk
      obtain ⟨-, hcfg⟩ := lastConfig_mem hc
      refine ⟨c, hc, config_lt_of_group_eq hcfg hk hg, hcfg, ?_⟩
      intro k' hk' hcfg'
      by_contra hlt
      have h₁ := group_lt_of_config hcfg' (not_le.mp hlt)
      have h₂ := group_mono isConfig sent hk'.le
      omega
    · rw [List.concat_eq_append, ← List.cons_append, ← List.append_assoc] at hsplit
      obtain ⟨rfl, -⟩ := List.append_inj' hsplit rfl
      exact h.governed pre k post rfl hk

end Kymux.Governed
