import Mathlib

namespace Kymux

structure Ledger (E : Type) where
  live : List E
  left : List E

namespace Ledger

variable {κ E V : Type}

/-- Two lists of keyed values with the same keys, none of them twice, are the same when one
has all the pairs of the other. -/
theorem eq_of_keys {A B : Multiset (κ × V)} (hkeys : A.map Prod.fst = B.map Prod.fst)
    (hn : (B.map Prod.fst).Nodup) (hsub : ∀ x ∈ B, x ∈ A) : A = B := by
  have hle : B ≤ A := (Multiset.le_iff_subset (Multiset.Nodup.of_map _ hn)).mpr (fun x ↦ hsub x)
  have hcard : A.card ≤ B.card := by
    rw [← Multiset.card_map Prod.fst A, hkeys, Multiset.card_map]
  exact (Multiset.eq_of_le_of_card_le hle hcard).symm

variable (key : E → κ) (value : E → V)

def worth (es : List E) : Multiset (κ × V) := es.map (fun e ↦ (key e, value e))

theorem worth_map_fst (es : List E) :
    (worth key value es).map Prod.fst = (es.map key : List κ) := by
  simp [worth, Function.comp_def]

theorem worth_filter (es : List E) (p : κ → Bool) :
    worth key value (es.filter (fun e ↦ p (key e))) =
      (worth key value es).filter (fun x ↦ p x.1 = true) := by
  simp only [worth, Multiset.filter_coe, List.filter_map, Function.comp_def, Bool.decide_eq_true]

variable [DecidableEq κ]

def depart (w : Ledger E) (keep : List κ) : Ledger E where
  live := w.live.filter (fun e ↦ key e ∈ keep)
  left := w.left ++ w.live.filter (fun e ↦ key e ∉ keep)

variable {key value}

theorem depart_worth {w : Ledger E} {keep : List κ} {A X : Multiset (κ × V)}
    (h : worth key value w.live = A + X) (hn : (w.live.map key).Nodup)
    (hkeep : (keep : Multiset κ) = A.map Prod.fst) :
    worth key value (w.depart key keep).live = A ∧
      worth key value (w.live.filter (fun e ↦ key e ∉ keep)) = X := by
  have hkeys : (A.map Prod.fst + X.map Prod.fst).Nodup := by
    rw [← Multiset.map_add, ← h, worth_map_fst]
    exact hn
  have hA : ∀ x ∈ A, x.1 ∈ keep := by
    intro x hx
    rw [← Multiset.mem_coe, hkeep]
    exact Multiset.mem_map_of_mem _ hx
  have hX : ∀ x ∈ X, x.1 ∉ keep := by
    intro x hx hmem
    rw [← Multiset.mem_coe, hkeep] at hmem
    exact Multiset.disjoint_left.mp (Multiset.nodup_add.mp hkeys).2.2 hmem
      (Multiset.mem_map_of_mem _ hx)
  constructor
  · have hfilter := worth_filter key value w.live (fun k ↦ decide (k ∈ keep))
    simp only [decide_eq_true_eq] at hfilter
    rw [depart, hfilter, h, Multiset.filter_add, Multiset.filter_eq_self.mpr hA,
      Multiset.filter_eq_nil.mpr hX, add_zero]
  · have hfilter := worth_filter key value w.live (fun k ↦ decide (k ∉ keep))
    simp only [decide_eq_true_eq] at hfilter
    rw [hfilter, h, Multiset.filter_add, Multiset.filter_eq_self.mpr hX,
      Multiset.filter_eq_nil.mpr (fun x hx hnot ↦ hnot (hA x hx)), zero_add]

end Ledger

end Kymux
