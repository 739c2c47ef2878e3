import Kymux.FecChecked
import Kymux.Partition

namespace Kymux.Fec

open Av

variable {oti : Oti} {maxPayload : ℕ}

theorem sourceBlocks_le (h : validateOti oti maxPayload = .ok ()) :
    oti.sourceBlocks.toNat ≤ sourceSymbols oti := by
  simp only [validateOti] at h
  split_ifs at h with _ _ _ hsymbols
  rw [not_or, not_or, not_lt, not_lt, not_lt] at hsymbols
  exact hsymbols.2.1

theorem sourceSymbolsForBlock_eq (h : validateOti oti maxPayload = .ok ()) (block : UInt8) :
    sourceSymbolsForBlock oti block =
      partSize (sourceSymbols oti) oti.sourceBlocks.toNat block.toNat := by
  have hfit : sourceSymbols oti < 2 ^ 32 :=
    lt_of_le_of_lt (Checked.accepted_of_ok h).symbols (by decide)
  rw [sourceSymbolsForBlock, Nat.mod_eq_of_lt hfit]
  rfl

theorem sum_sourceSymbolsForBlock (h : validateOti oti maxPayload = .ok ()) :
    ((List.range oti.sourceBlocks.toNat).map
      (fun b ↦ sourceSymbolsForBlock oti (UInt8.ofNat b))).sum = sourceSymbols oti := by
  have hblocks := oti.sourceBlocks.toNat_lt
  have hparts : (List.range oti.sourceBlocks.toNat).map
      (fun b ↦ sourceSymbolsForBlock oti (UInt8.ofNat b)) =
        (List.range oti.sourceBlocks.toNat).map
          (partSize (sourceSymbols oti) oti.sourceBlocks.toNat) := by
    apply List.map_congr_left
    intro b hb
    have hlt := List.mem_range.mp hb
    rw [sourceSymbolsForBlock_eq h, UInt8.toNat_ofNat', Nat.mod_eq_of_lt (by omega)]
  rw [hparts, sum_partSize_all (Checked.accepted_of_ok h).blocks]

theorem reservation_le (h : validateOti oti maxPayload = .ok ())
    (hmax : maxPayload ≤ maxVideoPayload) :
    reservation oti ≤ pendingLimit maxVideoPayload := by
  have ha := Checked.accepted_of_ok h
  have hsymbols := ha.symbols
  have hlength := ha.length
  have hbuffers := Checked.divCeil_mul_le oti.transferLength.toNat ha.symbol
  have hsize := oti.symbolSize.toNat_lt
  have hblocks := oti.sourceBlocks.toNat_lt
  rw [← sourceSymbols] at hbuffers
  simp only [maxSourceSymbols, maxVideoPayload, mediaHeader, serializedSize]
    at hsymbols hlength hmax
  rw [reservation, pendingLimit, if_pos rfl, Nat.mul_assoc]
  omega

/-- What a checked OTI guarantees about the arithmetic that is done with it. -/
theorem validateOti_sound (hmax : maxPayload = maxVideoPayload ∨ maxPayload = maxAudioPayload)
    (h : validateOti oti maxPayload = .ok ()) :
    sourceSymbols oti ≤ 131072 ∧ sourceSymbols oti < 2 ^ 32 ∧
    (∀ block : UInt8, block < oti.sourceBlocks →
      Checked.sourceSymbolsForBlock oti block = .ok (sourceSymbolsForBlock oti block) ∧
      1 ≤ sourceSymbolsForBlock oti block ∧ sourceSymbolsForBlock oti block ≤ 56403 ∧
      2 * sourceSymbolsForBlock oti block + 32 < 2 ^ 32) ∧
    ((List.range oti.sourceBlocks.toNat).map
      (fun b ↦ sourceSymbolsForBlock oti (UInt8.ofNat b))).sum = sourceSymbols oti ∧
    Checked.reservation oti = .ok (reservation oti) ∧
    (maxPayload = maxVideoPayload →
      checkPending 0 0 (reservation oti) maxVideoPayload = .ok ()) := by
  have ha := Checked.accepted_of_ok h
  have hlimit : maxPayload ≤ maxVideoPayload := by
    rcases hmax with rfl | rfl <;> decide
  have hsymbols : sourceSymbols oti ≤ 131072 := ha.symbols
  refine ⟨hsymbols, by omega, fun block _ ↦ ?_, sum_sourceSymbolsForBlock h,
    Checked.reservation_eq ha hlimit, fun _ ↦ ?_⟩
  · have hle : sourceSymbolsForBlock oti block ≤ 56403 := Checked.sourceSymbolsForBlock_le ha block
    refine ⟨Checked.sourceSymbolsForBlock_eq ha block, ?_, hle, by omega⟩
    rw [sourceSymbolsForBlock_eq h]
    exact partSize_pos ha.blocks (sourceBlocks_le h) _
  · rw [checkPending_ok_iff]
    have := reservation_le h hlimit
    exact ⟨by decide, by omega⟩

/-- An object of three blocks of unequal size. -/
theorem validateOti_sound_threeBlocks :
    validateOti ⟨5000, 100, 3, 1, 4⟩ maxVideoPayload = .ok () ∧
      sourceSymbols ⟨5000, 100, 3, 1, 4⟩ ≤ 131072 :=
  have h : validateOti ⟨5000, 100, 3, 1, 4⟩ maxVideoPayload = .ok () := by decide
  ⟨h, (validateOti_sound (.inl rfl) h).1⟩

end Kymux.Fec
