import Kymux.Lib.Unroll

namespace Kymux

structure Sequencer (w : ℕ) where
  newestSeq : ℕ
deriving DecidableEq

namespace Sequencer

open Unroll

variable {w : ℕ}

def new : Sequencer w := ⟨0⟩

def seq (s : Sequencer w) (value : BitVec w) : ℕ × Sequencer w :=
  let range := 2 ^ w
  let halfRange := 2 ^ (w - 1)
  let seq := s.newestSeq / range * range + value.toNat
  let seq :=
    if s.newestSeq ≥ seq + halfRange then seq + range
    else if seq > s.newestSeq + halfRange ∧ seq ≥ range then seq - range
    else seq
  (seq, if seq > s.newestSeq then ⟨seq⟩ else s)

theorem seq_fst (s : Sequencer w) (hw : 0 < w) (value : BitVec w) :
    (s.seq value).1 = unroll (2 ^ (w - 1)) s.newestSeq value.toNat := by
  have hr : 2 * 2 ^ (w - 1) = 2 ^ w := by
    rw [← pow_succ', Nat.sub_add_cancel hw]
  simp only [seq, unroll, hr, ge_iff_le, gt_iff_lt]

theorem seq_snd (s : Sequencer w) (value : BitVec w) :
    (s.seq value).2.newestSeq = max s.newestSeq (s.seq value).1 := by
  simp only [seq]
  split_ifs <;> simp <;> omega

/-- A number near the newest one is recovered from its last `w` bits. -/
theorem seq_near {s : Sequencer w} {t : ℕ} (hw : 0 < w) (h : Near (2 ^ (w - 1)) s.newestSeq t) :
    s.seq (BitVec.ofNat w t) = (t, ⟨max s.newestSeq t⟩) := by
  have hr : 2 * 2 ^ (w - 1) = 2 ^ w := by
    rw [← pow_succ', Nat.sub_add_cancel hw]
  have h₁ : (s.seq (BitVec.ofNat w t)).1 = t := by
    rw [seq_fst s hw, BitVec.toNat_ofNat, ← hr]
    exact unroll_near h
  have h₂ := seq_snd s (BitVec.ofNat w t)
  rw [h₁] at h₂
  generalize s.seq (BitVec.ofNat w t) = r at h₁ h₂
  obtain ⟨a, b⟩ := r
  cases b
  simp_all

theorem seq_of_lt {s : Sequencer w} {value : BitVec w} (hw : 0 < w)
    (hs : s.newestSeq < 2 ^ (w - 1)) (hv : value.toNat < 2 ^ (w - 1)) :
    (s.seq value).1 = value.toNat ∧ (s.seq value).2.newestSeq < 2 ^ (w - 1) := by
  have h := seq_near hw (s := s) (t := value.toNat) ⟨by omega, by omega⟩
  rw [BitVec.ofNat_toNat, BitVec.setWidth_eq] at h
  rw [h]
  exact ⟨rfl, max_lt hs hv⟩

end Sequencer

end Kymux
