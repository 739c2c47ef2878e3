import Mathlib

/-! Numbered pieces of something, put in their places as they come. -/

namespace Kymux.Slots

variable {α : Type} {pieces : List α} {slots : List (Option α)} {k n : ℕ} {a : α}

structure Fills (pieces : List α) (slots : List (Option α)) : Prop where
  length_le : slots.length ≤ pieces.length
  get : ∀ (k : ℕ) (a : α), slots[k]? = some (some a) → pieces[k]? = some a

theorem Fills.nil (pieces : List α) : Fills pieces [] := ⟨Nat.zero_le _, by simp⟩

def grow (slots : List (Option α)) (n : ℕ) : List (Option α) :=
  slots ++ List.replicate (n - slots.length) none

theorem length_grow (slots : List (Option α)) (n : ℕ) :
    (grow slots n).length = max slots.length n := by
  rw [grow, List.length_append, List.length_replicate]
  omega

theorem get_grow : (grow slots n)[k]? = some (some a) ↔ slots[k]? = some (some a) := by
  rw [grow]
  by_cases hk : k < slots.length
  · rw [List.getElem?_append_left hk]
  · rw [List.getElem?_append_right (not_lt.mp hk), List.getElem?_eq_none (not_lt.mp hk),
      List.getElem?_replicate]
    split_ifs <;> simp

@[simp] theorem reduceOption_grow (slots : List (Option α)) (n : ℕ) :
    (grow slots n).reduceOption = slots.reduceOption := by
  rw [grow, List.reduceOption_append, List.reduceOption_replicate_none, List.append_nil]

theorem Fills.grow (h : Fills pieces slots) (hn : n ≤ pieces.length) :
    Fills pieces (grow slots n) where
  length_le := by
    rw [length_grow]
    exact max_le h.length_le hn
  get k a hk := h.get k a (get_grow.mp hk)

theorem Fills.set (h : Fills pieces slots) (ha : pieces[k]? = some a) :
    Fills pieces (slots.set k (some a)) where
  length_le := by
    rw [List.length_set]
    exact h.length_le
  get i b hi := by
    by_cases hki : k = i
    · subst hki
      have hlt : k < (slots.set k (some a)).length := (List.getElem?_eq_some_iff.mp hi).1
      rw [List.length_set] at hlt
      rw [List.getElem?_set_self hlt] at hi
      cases hi
      exact ha
    · rw [List.getElem?_set_ne hki] at hi
      exact h.get i b hi

theorem reduceOption_set (a : α) (hk : slots[k]? = some none) :
    ∃ pre post, slots.reduceOption = pre ++ post ∧
      (slots.set k (some a)).reduceOption = pre ++ a :: post := by
  obtain ⟨hlt, hget⟩ := List.getElem?_eq_some_iff.mp hk
  refine ⟨(slots.take k).reduceOption, (slots.drop (k + 1)).reduceOption, ?_, ?_⟩
  · have hsplit := List.take_append_drop k slots
    rw [← List.getElem_cons_drop hlt, hget] at hsplit
    rw [← hsplit, List.reduceOption_append, List.reduceOption_cons_of_none, hsplit]
  · rw [List.set_eq_take_append_cons_drop, if_pos hlt, List.reduceOption_append,
      List.reduceOption_cons_of_some]

theorem Fills.complete (h : Fills pieces slots) (hlen : slots.reduceOption.length = pieces.length) :
    slots = pieces.map some := by
  have hle := slots.reduceOption_length_le
  have hslots : slots.length = pieces.length := le_antisymm h.length_le (hlen ▸ hle)
  have hsome := List.reduceOption_length_eq_iff.mp (hlen.trans hslots.symm)
  refine List.ext_getElem? (fun k ↦ ?_)
  by_cases hk : k < slots.length
  · obtain ⟨a, ha⟩ := Option.isSome_iff_exists.mp (hsome _ (List.getElem_mem hk))
    have hget : slots[k]? = some (some a) := by rw [List.getElem?_eq_getElem hk, ha]
    rw [hget, List.getElem?_map, h.get k a hget]
    rfl
  · rw [List.getElem?_eq_none (not_lt.mp hk),
      List.getElem?_eq_none (by rw [List.length_map]; omega)]

theorem map_some_reduceOption (h : ∀ slot ∈ slots, slot.isSome = true) :
    slots.reduceOption.map some = slots := by
  induction slots with
  | nil => rfl
  | cons slot slots ih =>
    obtain ⟨a, rfl⟩ := Option.isSome_iff_exists.mp (h slot (by simp))
    rw [List.reduceOption_cons_of_some, List.map_cons, ih (fun slot' hs ↦ h slot' (by simp [hs]))]

end Kymux.Slots
