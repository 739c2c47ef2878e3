import Mathlib

/-! Lists whose elements are known by a key that no two of them share. -/

namespace Kymux.Keyed

variable {α κ : Type} [DecidableEq κ] {key : α → κ} {l : List α} {x y : α} {k : κ} {n : ℕ}

def lookup (key : α → κ) (l : List α) (k : κ) : Option α := l.find? (fun x ↦ key x = k)

@[simp] theorem lookup_nil : lookup key [] k = none := rfl

theorem lookup_eq_none : lookup key l k = none ↔ k ∉ l.map key := by
  simp [lookup]

theorem lookup_key (h : lookup key l k = some x) : key x = k := by
  simpa using List.find?_some h

theorem lookup_mem (h : lookup key l k = some x) : x ∈ l := List.mem_of_find?_eq_some h

theorem lookup_of_mem (hl : (l.map key).Nodup) (hx : x ∈ l) : lookup key l (key x) = some x := by
  cases h : lookup key l (key x) with
  | none => exact absurd (List.mem_map_of_mem hx) (lookup_eq_none.mp h)
  | some y => rw [List.inj_on_of_nodup_map hl (lookup_mem h) hx (lookup_key h)]

theorem lookup_concat (hk : key x ∉ l.map key) :
    lookup key (l ++ [x]) = Function.update (lookup key l) (key x) (some x) := by
  funext k
  rw [lookup, List.find?_append]
  by_cases hkx : k = key x
  · subst hkx
    rw [Function.update_self, show l.find? _ = none from lookup_eq_none.mpr hk]
    simp
  · rw [Function.update_of_ne hkx]
    have hnone : [x].find? (fun y ↦ key y = k) = none := by simp [Ne.symm hkx]
    rw [hnone, Option.or_none]
    rfl

omit [DecidableEq κ] in
theorem get_set {i : ℕ} {z : α} (hn : l[n]? = some x) :
    (l.set n y)[i]? = some z ↔ i = n ∧ z = y ∨ i ≠ n ∧ l[i]? = some z := by
  have hlt := (List.getElem?_eq_some_iff.mp hn).1
  rw [List.getElem?_set]
  by_cases hi : n = i
  · subst hi
    simp [hlt, eq_comm]
  · simp [hi, Ne.symm hi]

omit [DecidableEq κ] in
theorem get_concat {i : ℕ} {z : α} :
    (l ++ [x])[i]? = some z ↔ i = l.length ∧ z = x ∨ l[i]? = some z := by
  rw [List.getElem?_append]
  by_cases hi : i < l.length
  · simp [hi, hi.ne]
  · by_cases heq : i = l.length
    · subst heq
      simp [eq_comm]
    · have hsub : i - l.length ≠ 0 := by omega
      simp [hi, heq, hsub]

omit [DecidableEq κ] in
theorem map_set (hn : l[n]? = some x) (hkey : key y = key x) : (l.set n y).map key = l.map key := by
  rw [List.map_set, hkey]
  refine List.ext_getElem? fun i ↦ ?_
  rw [List.getElem?_set, List.getElem?_map]
  split_ifs with hi hlt
  · subst hi
    rw [hn]
    rfl
  · subst hi
    rw [List.getElem?_eq_none (by simpa using hlt)]
    rfl
  · rfl

theorem lookup_set (hl : (l.map key).Nodup) (hn : l[n]? = some x) (hkey : key y = key x) :
    lookup key (l.set n y) = Function.update (lookup key l) (key x) (some y) := by
  obtain ⟨pre, post, rfl, rfl⟩ : ∃ pre post, l = pre ++ x :: post ∧ pre.length = n := by
    obtain ⟨hlt, hx⟩ := List.getElem?_eq_some_iff.mp hn
    refine ⟨l.take n, l.drop (n + 1), ?_, by simp [hlt.le]⟩
    rw [← hx, List.getElem_cons_drop, List.take_append_drop]
  have hpre : key x ∉ pre.map key := by
    rw [List.map_append, List.nodup_append] at hl
    exact fun hmem ↦ hl.2.2 _ hmem (key x) (by simp) rfl
  funext k
  simp only [lookup, List.set_append_right _ _ le_rfl, Nat.sub_self, List.set_cons_zero,
    List.find?_append, List.find?_cons, hkey]
  by_cases hk : k = key x
  · subst hk
    rw [Function.update_self, show pre.find? _ = none from lookup_eq_none.mpr hpre]
    simp
  · rw [Function.update_of_ne hk]
    simp only [lookup, List.find?_append, List.find?_cons, Ne.symm hk, decide_false]

end Kymux.Keyed
