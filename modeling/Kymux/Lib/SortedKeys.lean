import Mathlib

namespace Kymux.SortedKeys

variable {α : Type} (key : α → ℕ)

def Sorted (xs : List α) : Prop := xs.Pairwise (fun a b ↦ key a < key b)

/-- The search of a sorted vector by key: the position of the key, or the
position at which inserting it keeps the order. -/
def binarySearchByKey (k : ℕ) (xs : List α) : Except ℕ ℕ :=
  let i := (xs.takeWhile (fun x ↦ key x < k)).length
  match xs[i]? with
  | some x => if key x = k then .ok i else .error i
  | none => .error i

def found (k : ℕ) (xs : List α) : Bool := (binarySearchByKey key k xs).isOk

theorem takeWhile_split (k : ℕ) (xs : List α) :
    ∃ pre post, xs = pre ++ post ∧ xs.takeWhile (fun x ↦ key x < k) = pre ∧
      (∀ x ∈ pre, key x < k) ∧ ∀ x, post.head? = some x → k ≤ key x := by
  refine ⟨_, _, List.takeWhile_append_dropWhile.symm, rfl, ?_, ?_⟩
  · intro x hx
    simpa using List.mem_takeWhile_imp hx
  · intro x hx
    have h := List.head?_dropWhile_not (fun x ↦ decide (key x < k)) xs
    rw [hx] at h
    simpa using h

variable {key} {k i : ℕ} {x : α} {xs pre post : List α}

theorem search_ok (h : binarySearchByKey key k xs = .ok i) :
    ∃ pre x post, xs = pre ++ x :: post ∧ pre.length = i ∧ key x = k := by
  obtain ⟨pre, post, rfl, hp, -, -⟩ := takeWhile_split key k xs
  simp only [binarySearchByKey, hp] at h
  cases post with
  | nil => simp at h
  | cons x post =>
    simp only [List.getElem?_append_right le_rfl, Nat.sub_self, List.getElem?_cons_zero] at h
    split_ifs at h with hk
    cases h
    exact ⟨pre, x, post, rfl, rfl, hk⟩

theorem search_error (hs : Sorted key xs) (h : binarySearchByKey key k xs = .error i) :
    ∃ pre post, xs = pre ++ post ∧ pre.length = i ∧
      (∀ x ∈ pre, key x < k) ∧ ∀ x ∈ post, k < key x := by
  obtain ⟨pre, post, rfl, hp, hlt, hle⟩ := takeWhile_split key k xs
  simp only [binarySearchByKey, hp] at h
  cases post with
  | nil =>
    simp only [List.append_nil, List.getElem?_eq_none le_rfl, Except.error.injEq] at h
    exact ⟨pre, [], rfl, h, hlt, by simp⟩
  | cons y post =>
    simp only [List.getElem?_append_right le_rfl, Nat.sub_self, List.getElem?_cons_zero] at h
    split_ifs at h with hk
    cases h
    refine ⟨pre, y :: post, rfl, rfl, hlt, ?_⟩
    have hy := hle y rfl
    have hys := (List.pairwise_append.mp hs).2.1
    rw [List.pairwise_cons] at hys
    intro x hx
    rcases List.mem_cons.mp hx with rfl | hx
    · omega
    · have := hys.1 x hx
      omega

theorem search_error_not_mem (hs : Sorted key xs) (h : binarySearchByKey key k xs = .error i) :
    ∀ x ∈ xs, key x ≠ k := by
  obtain ⟨pre, post, rfl, -, hlt, hgt⟩ := search_error hs h
  intro x hx
  rcases List.mem_append.mp hx with hx | hx
  · exact (hlt x hx).ne
  · exact (hgt x hx).ne'

theorem found_iff (hs : Sorted key xs) : found key k xs = true ↔ ∃ x ∈ xs, key x = k := by
  unfold found
  cases h : binarySearchByKey key k xs with
  | ok i =>
    obtain ⟨pre, x, post, rfl, -, hx⟩ := search_ok h
    simp only [Except.isOk, Except.toBool, true_iff]
    exact ⟨x, by simp, hx⟩
  | error i =>
    have hn := search_error_not_mem hs h
    simpa [Except.isOk, Except.toBool] using hn

theorem insertIdx_split (pre post : List α) (x : α) :
    (pre ++ post).insertIdx pre.length x = pre ++ x :: post := by
  induction pre with
  | nil => simp
  | cons y pre ih => simpa using ih

theorem eraseIdx_split (pre post : List α) (x : α) :
    (pre ++ x :: post).eraseIdx pre.length = pre ++ post := by
  simp [List.eraseIdx_append_of_length_le]

theorem split_of_getElem? (h : xs[i]? = some x) : ∃ pre post, xs = pre ++ x :: post ∧
    pre.length = i := by
  obtain ⟨hi, rfl⟩ := List.getElem?_eq_some_iff.mp h
  refine ⟨xs.take i, xs.drop (i + 1), ?_, by simp [hi.le]⟩
  rw [List.getElem_cons_drop, List.take_append_drop]

theorem Sorted.insert (hs : Sorted key (pre ++ post)) (hlt : ∀ y ∈ pre, key y < key x)
    (hgt : ∀ y ∈ post, key x < key y) : Sorted key (pre ++ x :: post) := by
  obtain ⟨hpre, hpost, hcross⟩ := List.pairwise_append.mp hs
  refine List.pairwise_append.mpr ⟨hpre, List.pairwise_cons.mpr ⟨hgt, hpost⟩, ?_⟩
  intro a ha b hb
  rcases List.mem_cons.mp hb with rfl | hb
  · exact hlt a ha
  · exact hcross a ha b hb

theorem Sorted.remove (hs : Sorted key (pre ++ x :: post)) : Sorted key (pre ++ post) :=
  hs.sublist (List.Sublist.append_left (List.sublist_cons_self x post) pre)

/-- Replacing an element by one with the same key keeps the order. -/
theorem Sorted.replace {y : α} (hs : Sorted key (pre ++ x :: post)) (hk : key y = key x) :
    Sorted key (pre ++ y :: post) := by
  unfold Sorted at hs ⊢
  rw [List.pairwise_append, List.pairwise_cons] at hs ⊢
  obtain ⟨hpre, ⟨hx, hpost⟩, hcross⟩ := hs
  refine ⟨hpre, ⟨fun b hb ↦ hk ▸ hx b hb, hpost⟩, ?_⟩
  intro a ha b hb
  rcases List.mem_cons.mp hb with rfl | hb
  · exact hk ▸ hcross a ha x (by simp)
  · exact hcross a ha b (by simp [hb])

theorem Sorted.nodup (hs : Sorted key xs) : (xs.map key).Nodup := by
  rw [List.nodup_iff_pairwise_ne, List.pairwise_map]
  exact hs.imp (fun h ↦ h.ne)

theorem Sorted.eq_of_key {y : α} (hs : Sorted key xs) (hx : x ∈ xs) (hy : y ∈ xs)
    (hk : key x = key y) : x = y :=
  List.inj_on_of_nodup_map hs.nodup hx hy hk

theorem Sorted.before (hs : Sorted key (pre ++ x :: post)) : ∀ y ∈ pre, key y < key x :=
  fun y hy ↦ (List.pairwise_append.mp hs).2.2 y hy x (by simp)

theorem Sorted.after (hs : Sorted key (pre ++ x :: post)) : ∀ y ∈ post, key x < key y :=
  (List.pairwise_cons.mp (List.pairwise_append.mp hs).2.1).1

theorem Sorted.suffix (hs : Sorted key (pre ++ post)) : Sorted key post :=
  (List.pairwise_append.mp hs).2.1

end Kymux.SortedKeys
