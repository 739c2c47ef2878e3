import Kymux.FecChecked

namespace Kymux.Fec.Checked

open Av BigEndian

def Orderly {α : Type} (r : Except Fault α) : Prop := ∀ m, r ≠ .error (.panic m)

namespace Orderly

variable {α β : Type} {r : Except Fault α} {f : α → Except Fault β} {e : ProtocolError} {m : String}

@[simp] theorem ok (a : α) : Orderly (.ok a) := fun m h ↦ by cases h

@[simp] theorem err : Orderly (.error (.err e) : Except Fault α) := fun m h ↦ by cases h

@[simp] theorem invalid : Orderly (.error (Fec.invalid m) : Except Fault α) := fun m h ↦ by cases h

theorem bind (hr : Orderly r) (hf : ∀ a, r = .ok a → Orderly (f a)) : Orderly (r >>= f) := by
  cases r with
  | error e => exact fun m h ↦ hr m (by cases h; rfl)
  | ok a => exact hf a rfl

theorem of_eq_error {e : Fault} (h : Orderly r) (he : r = .error e) :
    Orderly (.error e : Except Fault β) := by
  intro m hm
  cases hm
  exact h m he

end Orderly

theorem orderly_validateOti (oti : Oti) (maxPayload : ℕ) :
    Orderly (Fec.validateOti oti maxPayload) := by
  simp only [Fec.validateOti]
  split_ifs <;> simp

theorem orderly_validateSymbol (oti : Oti) (id : PayloadId) (size : ℕ) :
    Orderly (validateSymbol oti id size) := by
  simp only [validateSymbol]
  split_ifs <;> simp

theorem orderly_checkPending (objects bytes additional maxPayload : ℕ) :
    Orderly (Fec.checkPending objects bytes additional maxPayload) := by
  simp only [Fec.checkPending, budgetExceeded]
  split_ifs <;> simp

theorem orderly_decode {rq : RaptorQ} (d : ObjectDecoder rq) (oti : Oti) (id : PayloadId)
    (data : Bytes) : Orderly (d.decode oti id data) := by
  unfold ObjectDecoder.decode
  split
  · simp
  · next hoti =>
    rw [not_not] at hoti
    have hsymbol := orderly_validateSymbol oti id data.length
    split
    · next hv => exact hsymbol.of_eq_error hv
    · next hv =>
      split
      · simp
      · obtain ⟨count, hcount⟩ := perBlock_get d (hoti ▸ (validateSymbol_ok_iff.mp hv).1)
        split
        · next hnone => rw [hcount] at hnone; cases hnone
        · next c _ =>
          by_cases hmost : c ≥ 2 * Fec.sourceSymbolsForBlock d.oti id.sourceBlockNumber + 32
          · rw [if_pos hmost]
            exact .invalid
          · rw [if_neg hmost]
            exact .ok _

theorem assert_ok {c : Bool} {m : String} (h : c = true) : assert c m = .ok () := if_pos h

theorem orderly_mediaDeserialize {raw : Bytes} (hlen : raw.length = serializedSize)
    (hbit : raw.getD 0 0 &&& 0x80 ≠ 0) : Orderly (MediaPacketHeader.deserialize raw) := by
  unfold MediaPacketHeader.deserialize
  rw [assert_ok (beq_iff_eq.mpr hlen), assert_ok (bne_iff_ne.mpr hbit)]
  exact .ok _

theorem orderly_codecDeserialize {raw : Bytes} (hlen : raw.length = serializedSize)
    (hbit : raw.getD 0 0 &&& 0x80 = 0) : Orderly (CodecPacketHeader.deserialize raw) := by
  unfold CodecPacketHeader.deserialize
  rw [assert_ok (beq_iff_eq.mpr hlen), assert_ok (beq_iff_eq.mpr hbit)]
  exact .ok _

theorem orderly_mediaPacket (data : Bytes) : Orderly (Fec.mediaPacket data) := by
  unfold Fec.mediaPacket
  split_ifs with hbad
  · exact .invalid
  · rw [not_or, not_lt] at hbad
    apply Orderly.bind
    · apply orderly_mediaDeserialize
      · rw [List.length_take, Nat.min_eq_left hbad.1]
        rfl
      · have hzero : (data.take mediaHeader).getD 0 0 = data.getD 0 0 := by
          simp [mediaHeader, serializedSize]
        rw [hzero]
        exact hbad.2
    · intro header _
      dsimp only
      split_ifs
      · exact .invalid
      · exact .ok _

theorem orderly_readExact (n : ℕ) (stream : Bytes) : Orderly (readExact n stream) := by
  unfold readExact
  split_ifs <;> simp

theorem readExact_length {n : ℕ} {stream raw rest : Bytes}
    (h : readExact n stream = .ok (raw, rest)) :
    raw.length = n := by
  unfold readExact at h
  split_ifs at h with hn
  cases h
  rw [List.length_take, Nat.min_eq_left hn]

theorem orderly_readStreamPacket (stream : Bytes) (maxPayload : ℕ) :
    Orderly (readStreamPacket stream maxPayload) := by
  unfold readStreamPacket
  refine Orderly.bind (orderly_readExact _ _) ?_
  rintro ⟨raw, rest⟩ hraw
  have hlen := readExact_length hraw
  dsimp only
  by_cases hbit : raw.getD 0 0 &&& 0x80 = 0
  · rw [if_pos hbit]
    split_ifs
    · exact .invalid
    · exact Orderly.bind (orderly_codecDeserialize hlen hbit) (fun _ _ ↦ .ok _)
  · rw [if_neg hbit]
    refine Orderly.bind (orderly_mediaDeserialize hlen hbit) (fun header _ ↦ ?_)
    split_ifs
    · exact .invalid
    · exact Orderly.bind (orderly_readExact _ _) (fun _ _ ↦ .ok _)

theorem orderly_parseDatagram (datagram : Bytes) (headerSize maxPayload : ℕ) :
    Orderly (Fec.parseDatagram datagram headerSize maxPayload) := by
  unfold Fec.parseDatagram
  by_cases hlen : datagram.length < headerSize
  · rw [if_pos hlen]
    exact .invalid
  rw [if_neg hlen]
  dsimp only
  split_ifs
  · exact .invalid
  · refine Orderly.bind (orderly_validateOti _ _) (fun _ _ ↦ ?_)
    exact Orderly.bind (orderly_validateSymbol _ _ _) (fun _ _ ↦ .ok _)

end Kymux.Fec.Checked
