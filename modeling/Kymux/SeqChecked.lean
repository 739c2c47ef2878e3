import Kymux.Lib.Checked
import Kymux.Seq
import Kymux.Types.Av

namespace Kymux.Sequencer

open Unroll

variable {w : ℕ} {s : Sequencer w} {value : BitVec w}

/-- `!((1 << SIZE_BITS) - 1)` -/
def hiMask (w : ℕ) : ℕ := 2 ^ 64 - 1 - (2 ^ w - 1)

def add (a b : ℕ) : Except Fault ℕ :=
  Checked.fits 64 (.panic "attempt to add with overflow") (a + b)

def sub (a b : ℕ) : Except Fault ℕ := Checked.sub (.panic "attempt to subtract with overflow") a b

/-- `seq` with the arithmetic of `u64`. -/
def seqChecked (s : Sequencer w) (value : BitVec w) : Except Fault (ℕ × Sequencer w) := do
  let range := 2 ^ w
  let halfRange := 2 ^ (w - 1)
  let seq ← add (s.newestSeq &&& hiMask w) value.toNat
  let above ← add seq halfRange
  let seq ←
    if s.newestSeq ≥ above then add seq range
    else do
      let newestAbove ← add s.newestSeq halfRange
      if seq > newestAbove ∧ seq ≥ range then sub seq range else .ok seq
  return (seq, if seq > s.newestSeq then ⟨seq⟩ else s)

def seqs (s : Sequencer w) : List (BitVec w) → List ℕ × Sequencer w
  | [] => ([], s)
  | value :: values =>
    let (seq, s) := s.seq value
    let (rest, s) := s.seqs values
    (seq :: rest, s)

def seqsChecked (s : Sequencer w) : List (BitVec w) → Except Fault (List ℕ × Sequencer w)
  | [] => .ok ([], s)
  | value :: values => do
    let (seq, s) ← s.seqChecked value
    let (rest, s) ← s.seqsChecked values
    return (seq :: rest, s)

theorem and_hiMask (hw : w ≤ 64) {n : ℕ} (hn : n < 2 ^ 64) :
    n &&& hiMask w = n / 2 ^ w * 2 ^ w := by
  have hmask : hiMask w = (2 ^ (64 - w) - 1) * 2 ^ w := by
    have hpos := Nat.two_pow_pos w
    rw [hiMask, Nat.sub_mul, ← pow_add, Nat.sub_add_cancel hw]
    omega
  have hblock : n / 2 ^ w < 2 ^ (64 - w) := by
    apply Nat.div_lt_of_lt_mul
    rwa [← pow_add, Nat.add_sub_cancel' hw]
  have hdiv : (n &&& hiMask w) / 2 ^ w = n / 2 ^ w := by
    rw [Nat.and_div_two_pow, hmask, Nat.mul_div_cancel _ (Nat.two_pow_pos w),
      Nat.and_two_pow_sub_one_eq_mod, Nat.mod_eq_of_lt hblock]
  have hmod : (n &&& hiMask w) % 2 ^ w = 0 := by
    rw [Nat.and_mod_two_pow, hmask, Nat.mul_mod_left, Nat.and_zero]
  rw [← Nat.div_add_mod' (n &&& hiMask w) (2 ^ w), hdiv, hmod, Nat.add_zero]

theorem seqChecked_eq (hw : w ≤ 64) (hs : s.newestSeq + 2 * 2 ^ w < 2 ^ 64) :
    s.seqChecked value = .ok (s.seq value) := by
  have hvalue := value.isLt
  have hhalf : 2 ^ (w - 1) ≤ 2 ^ w := Nat.pow_le_pow_right (by decide) (Nat.sub_le _ _)
  have hblock := Nat.div_mul_le_self s.newestSeq (2 ^ w)
  simp only [seqChecked, seq, add, sub, and_hiMask hw (show s.newestSeq < 2 ^ 64 by omega)]
  rw [Checked.fits_ok (by omega)]
  simp only [bind, Except.bind, pure, Except.pure]
  rw [Checked.fits_ok (by omega)]
  dsimp only
  by_cases hpast : s.newestSeq ≥ s.newestSeq / 2 ^ w * 2 ^ w + value.toNat + 2 ^ (w - 1)
  · rw [if_pos hpast, if_pos hpast, Checked.fits_ok (by omega)]
  · rw [if_neg hpast, if_neg hpast, Checked.fits_ok (by omega)]
    dsimp only
    by_cases hfuture : s.newestSeq / 2 ^ w * 2 ^ w + value.toNat > s.newestSeq + 2 ^ (w - 1) ∧
        s.newestSeq / 2 ^ w * 2 ^ w + value.toNat ≥ 2 ^ w
    · rw [if_pos hfuture, if_pos hfuture, Checked.sub_ok hfuture.2]
    · rw [if_neg hfuture, if_neg hfuture]

theorem newestSeq_seqs (s : Sequencer w) (values : List (BitVec w)) :
    (s.seqs values).2.newestSeq = (s.seqs values).1.foldl max s.newestSeq := by
  induction values generalizing s with
  | nil => rfl
  | cons value values ih => simp only [seqs, ih, List.foldl_cons, seq_snd]

/-- Nothing overflows while the numbers stay two ranges below the end of `u64`. -/
theorem seqsChecked_eq (hw : w ≤ 64) {values : List (BitVec w)} {s : Sequencer w}
    (h : ∀ n < values.length, (s.seqs (values.take n)).2.newestSeq + 2 * 2 ^ w < 2 ^ 64) :
    s.seqsChecked values = .ok (s.seqs values) := by
  induction values generalizing s with
  | nil => rfl
  | cons value values ih =>
    have hfirst : s.seqChecked value = .ok (s.seq value) := seqChecked_eq hw (h 0 (by simp))
    have hrest : (s.seq value).2.seqsChecked values = .ok ((s.seq value).2.seqs values) := by
      apply ih
      intro n hn
      exact h (n + 1) (by simpa using hn)
    simp only [seqsChecked, hfirst, hrest, bind, Except.bind, pure, Except.pure, seqs]

/-- What the results say about the values they were unrolled from: each one continues its
value, next to the largest before it, or is the value itself while going back is impossible. -/
def Continues (newest : ℕ) : List (BitVec w) → List ℕ → Prop
  | [], [] => True
  | value :: values, seq :: seqs =>
    seq % 2 ^ w = value.toNat ∧
      (Near (2 ^ (w - 1)) newest seq ∨ newest < 2 ^ (w - 1) ∧ seq = value.toNat) ∧
      Continues (max newest seq) values seqs
  | _, _ => False

theorem seq_spec (hw : 0 < w) (s : Sequencer w) (value : BitVec w) :
    (s.seq value).1 % 2 ^ w = value.toNat ∧
      (Near (2 ^ (w - 1)) s.newestSeq (s.seq value).1 ∨
        s.newestSeq < 2 ^ (w - 1) ∧ (s.seq value).1 = value.toNat) := by
  have hr : 2 * 2 ^ (w - 1) = 2 ^ w := by
    rw [← pow_succ', Nat.sub_add_cancel hw]
  have h := unroll_spec s.newestSeq (hr ▸ value.isLt)
  rwa [hr, ← seq_fst s hw] at h

theorem continues_seqs (hw : 0 < w) (s : Sequencer w) (values : List (BitVec w)) :
    Continues s.newestSeq values (s.seqs values).1 := by
  induction values generalizing s with
  | nil => trivial
  | cons value values ih =>
    have hrest := ih (s.seq value).2
    rw [seq_snd] at hrest
    obtain ⟨hmod, hwindow⟩ := seq_spec hw s value
    exact ⟨hmod, hwindow, hrest⟩

/-- A call takes the newest number at most half a range further, or into the first range. -/
theorem newestSeq_seqs_lt (hw : 0 < w) {s : Sequencer w} {bound : ℕ} (hs : s.newestSeq < bound)
    (hb : 2 ^ w ≤ bound) (values : List (BitVec w)) :
    (s.seqs values).2.newestSeq < bound + values.length * 2 ^ (w - 1) := by
  induction values generalizing s bound with
  | nil => simpa [seqs] using hs
  | cons value values ih =>
    have hvalue := value.isLt
    have hstep : (s.seq value).2.newestSeq < bound + 2 ^ (w - 1) := by
      rw [seq_snd]
      rcases (seq_spec hw s value).2 with ⟨_, hnear⟩ | ⟨_, hraw⟩ <;> omega
    have h := ih hstep (hb.trans (Nat.le_add_right _ _))
    rw [List.length_cons, Nat.add_mul, Nat.one_mul]
    simp only [seqs]
    omega

theorem seqs_boundedDisorder (hw : 0 < w) {s : Sequencer w} {ts : List ℕ}
    (h : BoundedDisorder (2 ^ (w - 1)) s.newestSeq ts) :
    s.seqs (ts.map (BitVec.ofNat w)) = (ts, ⟨ts.foldl max s.newestSeq⟩) := by
  induction ts generalizing s with
  | nil => rfl
  | cons t ts ih =>
    obtain ⟨hnear, hrest⟩ := h
    simp only [List.map_cons, seqs, seq_near hw hnear, List.foldl_cons]
    rw [ih hrest]

theorem foldl_max_lt {ts : List ℕ} {newest bound : ℕ} (hn : newest < bound)
    (h : ∀ t ∈ ts, t < bound) : ts.foldl max newest < bound := by
  induction ts generalizing newest with
  | nil => exact hn
  | cons t ts ih =>
    rw [List.foldl_cons]
    apply ih
    · exact max_lt hn (h t (by simp))
    · exact fun u hu ↦ h u (by simp [hu])

/-- Numbers in bounded disorder are recovered from their last bits, whatever is lost or
repeated, and no input makes the arithmetic overflow in the first `2 ^ 32` calls. -/
theorem unrolls (hw : w = 8 ∨ w = 16 ∨ w = 32) :
    (∀ ts : List ℕ, BoundedDisorder (2 ^ (w - 1)) 0 ts → (∀ t ∈ ts, t < 2 ^ 63) →
      (new : Sequencer w).seqsChecked (ts.map (BitVec.ofNat w)) = .ok (ts, ⟨ts.foldl max 0⟩)) ∧
    ∀ values : List (BitVec w),
      Continues 0 values ((new : Sequencer w).seqs values).1 ∧
      (new.seqs values).2.newestSeq = (new.seqs values).1.foldl max 0 ∧
      (new.seqs values).2.newestSeq < 2 ^ w + values.length * 2 ^ (w - 1) ∧
      (values.length ≤ 2 ^ 32 → new.seqsChecked values = .ok (new.seqs values)) := by
  have hpos : 0 < w := by omega
  have hrange : 2 ^ w ≤ 2 ^ 32 := Nat.pow_le_pow_right (by decide) (by omega)
  have hhalf : 2 ^ (w - 1) ≤ 2 ^ 31 := Nat.pow_le_pow_right (by decide) (by omega)
  have hlt : ∀ values : List (BitVec w),
      (new.seqs values).2.newestSeq < 2 ^ w + values.length * 2 ^ (w - 1) :=
    newestSeq_seqs_lt hpos (Nat.two_pow_pos w) le_rfl
  refine ⟨fun ts hts hbelow ↦ ?_, fun values ↦ ⟨?_, ?_, hlt values, fun hlen ↦ ?_⟩⟩
  · rw [← show new.seqs (ts.map (BitVec.ofNat w)) = (ts, ⟨ts.foldl max 0⟩) from
      seqs_boundedDisorder hpos hts]
    apply seqsChecked_eq (by omega)
    intro n _
    have htake : BoundedDisorder (2 ^ (w - 1)) (new : Sequencer w).newestSeq (ts.take n) := by
      rw [← List.take_append_drop n ts, boundedDisorder_append] at hts
      exact hts.1
    rw [← List.map_take, seqs_boundedDisorder hpos htake]
    have hnewest : (ts.take n).foldl max 0 < 2 ^ 63 :=
      foldl_max_lt (by decide) (fun t ht ↦ hbelow t (List.mem_of_mem_take ht))
    change (ts.take n).foldl max 0 + 2 * 2 ^ w < 2 ^ 64
    omega
  · exact continues_seqs hpos new values
  · exact newestSeq_seqs new values
  · apply seqsChecked_eq (by omega)
    intro n hn
    have hnewest := hlt (values.take n)
    have hcalls : (values.take n).length * 2 ^ (w - 1) ≤ 2 ^ 32 * 2 ^ 31 := by
      apply Nat.mul_le_mul _ hhalf
      rw [List.length_take]
      omega
    omega

/-- Over a wrap of eight bits, out of order and with a repetition. -/
theorem unrolls_byte :
    (new : Sequencer 8).seqsChecked ([100, 200, 300, 290, 300].map (BitVec.ofNat 8)) =
      .ok ([100, 200, 300, 290, 300], ⟨300⟩) :=
  (unrolls (.inl rfl)).1 [100, 200, 300, 290, 300] (by simp [BoundedDisorder, Near]) (by decide)

end Kymux.Sequencer
