import Kymux.RaptorQ

namespace Kymux

variable {i j : ℕ}

def partSize (i j part : ℕ) : ℕ :=
  let (large, small, largeCount, _) := partition i j
  if part < largeCount then large else small

theorem divCeil_of_rest (h : i % j ≠ 0) (hj : 0 < j) : divCeil i j = i / j + 1 := by
  have hi := Nat.div_add_mod' i j
  have hlt := Nat.mod_lt i hj
  apply Nat.div_eq_of_lt_le
  · rw [Nat.add_mul, Nat.one_mul]
    omega
  · rw [Nat.add_mul, Nat.add_mul, Nat.one_mul]
    omega

theorem divCeil_of_exact (h : i % j = 0) (hj : 0 < j) : divCeil i j = i / j := by
  have hi := Nat.div_add_mod' i j
  apply Nat.div_eq_of_lt_le
  · omega
  · rw [Nat.add_mul, Nat.one_mul]
    omega

theorem le_divCeil_mul (i : ℕ) (hj : 0 < j) : i ≤ divCeil i j * j := by
  have hi := Nat.div_add_mod' i j
  have hlt := Nat.mod_lt i hj
  by_cases hrest : i % j = 0
  · rw [divCeil_of_exact hrest hj]
    omega
  · rw [divCeil_of_rest hrest hj, Nat.add_mul, Nat.one_mul]
    omega

theorem partSize_eq (hj : 0 < j) (part : ℕ) :
    partSize i j part = i / j + if part < i % j then 1 else 0 := by
  have hrest : i - i / j * j = i % j := by
    have := Nat.div_add_mod' i j
    omega
  simp only [partSize, partition, hrest]
  split_ifs with hlt
  · exact divCeil_of_rest (by omega) hj
  · rfl

theorem partSize_pos (hj : 0 < j) (h : j ≤ i) (part : ℕ) : 0 < partSize i j part := by
  rw [partSize_eq hj]
  exact Nat.add_pos_left (Nat.div_pos h hj) _

theorem sum_partSize (hj : 0 < j) (n : ℕ) :
    ((List.range n).map (partSize i j)).sum = n * (i / j) + min n (i % j) := by
  induction n with
  | zero => simp
  | succ n ih =>
    rw [List.range_succ, List.map_append, List.sum_append, ih, List.map_singleton,
      List.sum_singleton, partSize_eq hj, Nat.add_mul, Nat.one_mul]
    split_ifs <;> omega

theorem sum_partSize_le (hj : 0 < j) {n : ℕ} (hn : n ≤ j) :
    ((List.range n).map (partSize i j)).sum ≤ i := by
  have hi := Nat.div_add_mod i j
  have hle := Nat.mul_le_mul_right (i / j) hn
  rw [sum_partSize hj]
  omega

theorem sum_partSize_all (hj : 0 < j) : ((List.range j).map (partSize i j)).sum = i := by
  rw [sum_partSize hj, min_eq_right (Nat.mod_lt i hj).le, Nat.mul_comm, Nat.div_add_mod']

end Kymux
