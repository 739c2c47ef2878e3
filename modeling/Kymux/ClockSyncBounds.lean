import Kymux.ClockSync

namespace Kymux.ClockSync

open BigEndian Machine

variable {theta B : ℤ} {endpointId : UInt16} {s s' : State} {e : Event} {es : List Event}
  {res : ClockSyncResult} {times : ℕ}

section Samples

structure Sampled (theta : ℤ) (res : ClockSyncResult) (sentAt receivedAt emittedAt returnedAt : ℤ) :
    Prop where
  eq : res = ⟨sentAt, receivedAt + theta, emittedAt + theta, returnedAt⟩
  forward : sentAt ≤ receivedAt
  processing : receivedAt ≤ emittedAt
  backward : emittedAt ≤ returnedAt
  small : ∀ t ∈ [res.t1, res.t2, res.t3, res.t4], |t| < 2 ^ 60

variable {sentAt receivedAt emittedAt returnedAt : ℤ}

theorem Sampled.bounds (h : Sampled theta res sentAt receivedAt emittedAt returnedAt) :
    |sentAt| < 2 ^ 60 ∧ |receivedAt + theta| < 2 ^ 60 ∧ |emittedAt + theta| < 2 ^ 60 ∧
      |returnedAt| < 2 ^ 60 := by
  have hsmall := h.small
  rw [h.eq] at hsmall
  simpa using hsmall

/-- The delay of a sample is that of its two ways through the network. -/
theorem Sampled.delayMicros_eq (h : Sampled theta res sentAt receivedAt emittedAt returnedAt) :
    res.delayMicros = .ok ((receivedAt - sentAt) + (returnedAt - emittedAt)) := by
  obtain ⟨h₁, h₂, h₃, h₄⟩ := h.bounds
  rw [abs_lt] at h₁ h₂ h₃ h₄
  have hround : sub returnedAt sentAt = .ok (returnedAt - sentAt) :=
    I64.fits_ok ⟨by omega, by omega⟩
  have hserver : sub (emittedAt + theta) (receivedAt + theta) = .ok (emittedAt - receivedAt) := by
    rw [sub, I64.fits_ok ⟨by omega, by omega⟩]
    congr 1
    ring
  have hdelay : sub (returnedAt - sentAt) (emittedAt - receivedAt) =
      .ok ((receivedAt - sentAt) + (returnedAt - emittedAt)) := by
    rw [sub, I64.fits_ok ⟨by omega, by omega⟩]
    congr 1
    ring
  simp only [ClockSyncResult.delayMicros, h.eq, hround, hserver, bind, Except.bind]
  exact hdelay

/-- The offset of a sample is off by half the difference of the two ways, which is truncated. -/
theorem Sampled.offsetMicros_eq (h : Sampled theta res sentAt receivedAt emittedAt returnedAt) :
    res.offsetMicros =
      .ok ((2 * theta + ((receivedAt - sentAt) - (returnedAt - emittedAt))).tdiv 2) := by
  obtain ⟨h₁, h₂, h₃, h₄⟩ := h.bounds
  rw [abs_lt] at h₁ h₂ h₃ h₄
  have hforward : sub (receivedAt + theta) sentAt = .ok (receivedAt + theta - sentAt) :=
    I64.fits_ok ⟨by omega, by omega⟩
  have hsum : add (receivedAt + theta - sentAt) (emittedAt + theta) =
      .ok (receivedAt + theta - sentAt + (emittedAt + theta)) := I64.fits_ok ⟨by omega, by omega⟩
  have htwice : sub (receivedAt + theta - sentAt + (emittedAt + theta)) returnedAt =
      .ok (2 * theta + ((receivedAt - sentAt) - (returnedAt - emittedAt))) := by
    rw [sub, I64.fits_ok ⟨by omega, by omega⟩]
    congr 1
    ring
  simp only [ClockSyncResult.offsetMicros, h.eq, hforward, hsum, htwice, bind, Except.bind]
  rfl

theorem Sampled.offset_near (h : Sampled theta res sentAt receivedAt emittedAt returnedAt)
    {offset : ℤ} (hoffset : res.offsetMicros = .ok offset) :
    2 * |offset - theta| ≤ (receivedAt - sentAt) + (returnedAt - emittedAt) + 1 := by
  rw [h.offsetMicros_eq, Except.ok.injEq] at hoffset
  have htrunc := I64.abs_sub_two_mul_tdiv_le
    (2 * theta + ((receivedAt - sentAt) - (returnedAt - emittedAt)))
  rw [hoffset, abs_le] at htrunc
  have hforward := h.forward
  have hbackward := h.backward
  rcases abs_cases (offset - theta) with ⟨habs, -⟩ | ⟨habs, -⟩ <;> rw [habs] <;> omega

def Near (theta B : ℤ) (res : ClockSyncResult) : Prop :=
  ∃ offset delay, res.offsetMicros = .ok offset ∧ res.delayMicros = .ok delay ∧
    |offset - theta| ≤ (B + 1) / 2 ∧ 0 ≤ delay ∧ delay ≤ B

theorem Sampled.near (h : Sampled theta res sentAt receivedAt emittedAt returnedAt)
    (hB : ∀ delay, res.delayMicros = .ok delay → delay ≤ B) : Near theta B res := by
  have hdelay := hB _ h.delayMicros_eq
  have hoffset := h.offset_near h.offsetMicros_eq
  have hforward := h.forward
  have hbackward := h.backward
  exact ⟨_, _, h.offsetMicros_eq, h.delayMicros_eq, by omega, by omega, hdelay⟩

end Samples

section Average

def samples (outs : List (Except Fault (Option ClockSyncResult))) : List ClockSyncResult :=
  outs.filterMap (fun out ↦ match out with
    | .ok res => res
    | .error _ => none)

structure Sums (theta B : ℤ) (count : ℕ) (offsetSum delaySum : ℤ) : Prop where
  low : count * (theta - (B + 1) / 2) ≤ offsetSum
  high : offsetSum ≤ count * (theta + (B + 1) / 2)
  nonneg : 0 ≤ delaySum
  most : delaySum ≤ count * B

variable {count : ℕ} {offsetSum delaySum : ℤ}

theorem Sums.zero : Sums theta B 0 0 0 := ⟨by simp, by simp, le_rfl, by simp⟩

theorem Sums.succ (h : Sums theta B count offsetSum delaySum) {offset delay : ℤ}
    (hoffset : |offset - theta| ≤ (B + 1) / 2) (hnonneg : 0 ≤ delay) (hmost : delay ≤ B) :
    Sums theta B (count + 1) (offsetSum + offset) (delaySum + delay) := by
  have hlow := h.low
  have hhigh := h.high
  have hzero := h.nonneg
  have hsum := h.most
  rw [abs_le] at hoffset
  constructor
  · push_cast
    rw [add_one_mul]
    omega
  · push_cast
    rw [add_one_mul]
    omega
  · omega
  · push_cast
    rw [add_one_mul]
    omega

theorem Sums.inRange (h : Sums theta B count offsetSum delaySum) (hB : 0 ≤ B)
    (hcount : count ≤ times) (hfit : times * (|theta| + B + 1) < 2 ^ 62) : I64.InRange offsetSum ∧
    I64.InRange delaySum := by
  have htheta := abs_le.mp (le_refl |theta|)
  have hbound : (count : ℤ) * (|theta| + B + 1) ≤ times * (|theta| + B + 1) :=
    mul_le_mul_of_nonneg_right (by exact_mod_cast hcount) (by omega)
  have hlow : (count : ℤ) * -(|theta| + B + 1) ≤ count * (theta - (B + 1) / 2) :=
    mul_le_mul_of_nonneg_left (by omega) (by omega)
  have hhigh : (count : ℤ) * (theta + (B + 1) / 2) ≤ count * (|theta| + B + 1) :=
    mul_le_mul_of_nonneg_left (by omega) (by omega)
  have hdelay : (count : ℤ) * B ≤ count * (|theta| + B + 1) :=
    mul_le_mul_of_nonneg_left (by omega) (by omega)
  have := h.low
  have := h.high
  have := h.nonneg
  have := h.most
  rw [mul_neg] at hlow
  refine ⟨⟨?_, ?_⟩, ?_, ?_⟩ <;> omega

theorem Sums.accumulate (h : Sums theta B count offsetSum delaySum) (hres : Near theta B res)
    (hcount : count < times) (hfit : times * (|theta| + B + 1) < 2 ^ 62) :
    ∃ offsetSum' delaySum',
    ClockSync.accumulate offsetSum delaySum res = .ok (offsetSum', delaySum') ∧
      Sums theta B (count + 1) offsetSum' delaySum' := by
  obtain ⟨offset, delay, hoffset, hdelay, hnear, hnonneg, hmost⟩ := hres
  have hsums := h.succ hnear hnonneg hmost
  obtain ⟨hoffsets, hdelays⟩ := hsums.inRange (hnonneg.trans hmost) hcount hfit
  refine ⟨_, _, ?_, hsums⟩
  simp only [ClockSync.accumulate, hoffset, hdelay, add, I64.fits_ok hoffsets, I64.fits_ok hdelays,
    bind, Except.bind]
  rfl

/-- The loop ends with the sums of as many results as were asked for, or with an error of a call. -/
theorem averageLoop_sums {outs : List (Except Fault (Option ClockSyncResult))}
    {r : Except Fault (ℤ × ℤ × ℕ)} (hfit : times * (|theta| + B + 1) < 2 ^ 62)
    (hcount : count ≤ times) (hnear : ∀ res ∈ (samples outs).take (times - count), Near theta B res)
    (h : Sums theta B count offsetSum delaySum)
    (hr : averageLoop times offsetSum delaySum count outs = some r) :
    (∃ e, r = .error e ∧ .error e ∈ outs) ∨
      ∃ offsetSum' delaySum', r = .ok (offsetSum', delaySum', times) ∧
        Sums theta B times offsetSum' delaySum' := by
  induction outs generalizing offsetSum delaySum count with
  | nil =>
    rw [averageLoop] at hr
    split_ifs at hr with hlt
    obtain rfl : count = times := by omega
    cases hr
    exact .inr ⟨_, _, rfl, h⟩
  | cons out outs ih =>
    unfold averageLoop at hr
    split_ifs at hr with hlt
    · match out with
      | .error e =>
        cases hr
        exact .inl ⟨e, rfl, List.mem_cons_self⟩
      | .ok none =>
        rcases ih hcount hnear h hr with ⟨e, hr, hmem⟩ | hsums
        · exact .inl ⟨e, hr, List.mem_cons_of_mem _ hmem⟩
        · exact .inr hsums
      | .ok (some res) =>
        have hsamples : (samples (.ok (some res) :: outs)).take (times - count) =
            res :: (samples outs).take (times - (count + 1)) := by
          rw [show times - count = times - (count + 1) + 1 by omega]
          rfl
        rw [hsamples, List.forall_mem_cons] at hnear
        obtain ⟨offsetSum', delaySum', hadd, hsums⟩ := h.accumulate hnear.1 hlt hfit
        simp only [hadd] at hr
        rcases ih hlt hnear.2 hsums hr with ⟨e, hr, hmem⟩ | hsums
        · exact .inl ⟨e, hr, List.mem_cons_of_mem _ hmem⟩
        · exact .inr hsums
    · obtain rfl : count = times := by omega
      cases hr
      exact .inr ⟨_, _, rfl, h⟩

theorem averageLoop_ne_none {outs : List (Except Fault (Option ClockSyncResult))}
    (h : times - count ≤ (samples outs).length) :
    averageLoop times offsetSum delaySum count outs ≠ none := by
  induction outs generalizing offsetSum delaySum count with
  | nil =>
    rw [averageLoop, if_neg]
    · exact Option.some_ne_none _
    · simp only [samples, List.filterMap_nil, List.length_nil] at h
      omega
  | cons out outs ih =>
    unfold averageLoop
    split_ifs with hlt
    · match out with
      | .error e => exact Option.some_ne_none _
      | .ok none => exact ih h
      | .ok (some res) =>
        have hlen : (samples (.ok (some res) :: outs)).length = (samples outs).length + 1 := rfl
        dsimp only
        split
        · exact Option.some_ne_none _
        · exact ih (by omega)
    · exact Option.some_ne_none _

theorem syncAverage_near {outs : List (Except Fault (Option ClockSyncResult))}
    {r : Except Fault ClockSyncAverage} (htimes : 1 ≤ times)
    (hfit : times * (|theta| + B + 1) < 2 ^ 62)
    (hnear : ∀ res ∈ (samples outs).take times, Near theta B res)
    (hr : syncAverage times outs = some r) :
    (∃ e, r = .error e ∧ .error e ∈ outs) ∨
      ∃ avg, r = .ok avg ∧ 2 * |avg.offsetMicros - theta| ≤ B + 1 ∧
        0 ≤ avg.delayMicros ∧ avg.delayMicros ≤ B := by
  rw [syncAverage, if_neg (by omega)] at hr
  obtain ⟨r', hloop, rfl⟩ := Option.map_eq_some_iff.mp hr
  rcases averageLoop_sums hfit (Nat.zero_le times) hnear .zero hloop with
    ⟨e, rfl, hmem⟩ | ⟨offsetSum, delaySum, rfl, hsums⟩
  · exact .inl ⟨e, rfl, hmem⟩
  · refine .inr ⟨_, rfl, ?_⟩
    have hoffset := I64.tdiv_mem htimes hsums.low hsums.high
    have hzero : times * 0 ≤ delaySum := by simpa using hsums.nonneg
    have hdelay := I64.tdiv_mem htimes hzero hsums.most
    refine ⟨?_, hdelay⟩
    have habs : |offsetSum.tdiv times - theta| ≤ (B + 1) / 2 := abs_le.mpr ⟨by omega, by omega⟩
    change 2 * |offsetSum.tdiv times - theta| ≤ B + 1
    omega

end Average

end Kymux.ClockSync
