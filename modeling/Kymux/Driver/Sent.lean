import Kymux.Lib.Governed
import Kymux.Driver.SendSeq

namespace Kymux.Driver

open Av Governed

theorem perform_ok {failAt : Option ℕ} {n : ℕ} {ops : List (Except Fault Op)}
    (h : (perform failAt n ops).1 = .ok ()) : (perform failAt n ops).2.map .ok = ops := by
  induction ops generalizing n with
  | nil => rfl
  | cons o ops ih =>
    cases o with
    | error e => simp [perform] at h
    | ok o =>
      unfold perform at h ⊢
      split_ifs at h ⊢
      simp [ih h]

abbrev groupOf (sent : List AVPacket) (i : ℕ) : ℕ := group AVPacket.isConfig sent i

def senderOf (sent : List AVPacket) (i : ℕ) : Sender :=
  ⟨UInt32.ofNat i, UInt32.ofNat (groupOf sent i)⟩

structure Succeeds (D : SendDriver) (calls : List Call) : Prop where
  media : ∀ c ∈ calls, isCodec c.packet = false
  ok : ∀ o ∈ D.sendAll .start calls, o.result = .ok ()

def packets (calls : List Call) : List AVPacket := calls.map Call.packet

namespace SendDriver

structure IsVideo (D : SendDriver) : Prop where
  seqs : D.seqs = videoSeqs
  nextGroup : D.nextGroup = nextVideoGroup
  datagrams : ∀ s packet env op, .ok op ∈ D.datagrams s packet env → ∃ bytes,
    op = .sendDatagram bytes

variable {D : SendDriver} {calls : List Call} {s : Sender} {i : ℕ}

def after (s : Sender) (sent : List AVPacket) : Sender :=
  ⟨s.kypacketSeq + UInt32.ofNat sent.length,
    s.groupSeq + UInt32.ofNat (sent.countP AVPacket.isConfig)⟩

theorem send_after (hD : D.IsVideo) {c : Call} (hc : isCodec c.packet = false)
    (hok : (D.send s c.packet c.env).1 = .ok ()) :
    (D.send s c.packet c.env).2.1 = after s [c.packet] := by
  obtain ⟨packet, env⟩ := c
  cases packet with
  | codec packet => simp [isCodec] at hc
  | hole packet => simp [send] at hok
  | media packet =>
    simp only [send, sendMedia] at hok ⊢
    split at hok
    · cases hconfig : packet.header.isConfig <;>
        simp [hconfig, after, AVPacket.isConfig, hD.nextGroup, nextVideoGroup]
    · cases hok

theorem after_append (s : Sender) (ps qs : List AVPacket) :
    after s (ps ++ qs) = after (after s ps) qs := by
  simp [after, UInt32.ofNat_add, UInt32.add_assoc]

/-- As long as all succeeds, each call finds the numbers that its place gives. -/
theorem sendAll_get (hD : D.IsVideo) (hmedia : ∀ c ∈ calls, isCodec c.packet = false)
    (hok : ∀ o ∈ D.sendAll s calls, o.result = .ok ()) (i : ℕ) :
    (D.sendAll s calls)[i]? =
      calls[i]?.map (fun c ↦ D.sendOne (after s (packets (calls.take i))) c) := by
  induction calls generalizing s i with
  | nil => simp [sendAll]
  | cons c cs ih =>
    have hfirst : (D.sendOne s c).result = .ok () := hok _ (by simp [sendAll])
    have hpanics : (D.sendOne s c).panics = false := by
      simp [Outcome.panics, hfirst]
    rw [sendAll, hpanics] at hok ⊢
    cases i with
    | zero => simp [packets, after]
    | succ i =>
      have hsend := send_after hD (hmedia c (by simp)) hfirst
      have hrest := ih (fun d hd ↦ hmedia d (by simp [hd]))
        (fun o ho ↦ hok o (List.mem_cons_of_mem _ ho)) i
      simp only [Bool.false_eq_true, if_false, List.getElem?_cons_succ, List.take_succ_cons]
      rw [hrest, hsend, ← after_append]
      rfl

theorem senderOf_eq {sent : List AVPacket} {packet : AVPacket} (h : sent[i]? = some packet) :
    senderOf sent i = if packet.isConfig then nextVideoGroup (after .start (sent.take i))
      else after .start (sent.take i) := by
  have hi : i < sent.length := (List.getElem?_eq_some_iff.mp h).1
  have hgroup : groupOf sent i =
      (sent.take i).countP AVPacket.isConfig + if packet.isConfig then 1 else 0 := by
    rw [groupOf, group, List.take_add_one, h, List.countP_append]
    simp
  rw [senderOf, hgroup]
  split_ifs <;> simp [after, Sender.start, nextVideoGroup, hi.le, UInt32.ofNat_add]

end SendDriver

section Wire

variable {D : SendDriver} {calls : List Call} {i : ℕ} {o : Outcome}

theorem Succeeds.outcome (hD : D.IsVideo) (h : Succeeds D calls)
    (ho : (D.sendAll .start calls)[i]? = some o) :
    ∃ c, calls[i]? = some c ∧ o.result = .ok () ∧
      o = D.sendOne (SendDriver.after .start ((packets calls).take i)) c := by
  have hok := h.ok o (List.mem_of_getElem? ho)
  rw [SendDriver.sendAll_get hD h.media h.ok i] at ho
  obtain ⟨c, hc, rfl⟩ := Option.map_eq_some_iff.mp ho
  exact ⟨c, hc, hok, by rw [packets, packets, List.map_take]⟩

/-- What a call that succeeds puts on the wire: a record of a config, or the datagrams of a
media packet. -/
theorem Succeeds.sent (hD : D.IsVideo) (h : Succeeds D calls)
    (ho : (D.sendAll .start calls)[i]? = some o) :
    ∃ media env, calls[i]? = some ⟨.media media, env⟩ ∧
      (packets calls)[i]? = some (.media media) ∧
      o.out.map .ok = if media.header.isConfig then D.configOps (senderOf (packets calls) i) media
        else D.datagrams (senderOf (packets calls) i) media env := by
  obtain ⟨⟨packet, env⟩, hc, hok, rfl⟩ := h.outcome hD ho
  have hp : (packets calls)[i]? = some packet := by simp [packets, hc]
  have hsender := SendDriver.senderOf_eq hp
  have hcodec := h.media _ (List.mem_of_getElem? hc)
  generalize SendDriver.after .start ((packets calls).take i) = s at hok hsender ⊢
  cases packet with
  | codec packet => simp [isCodec] at hcodec
  | hole packet => simp [SendDriver.sendOne, SendDriver.send] at hok
  | media media =>
    refine ⟨media, env, hc, hp, ?_⟩
    obtain ⟨hresult, hout⟩ := D.sendMedia_perform s media env
    have hdone := perform_ok (hresult.symm.trans hok)
    rw [← hout] at hdone
    refine hdone.trans ?_
    rw [hsender, SendDriver.mediaOps, hD.nextGroup]
    cases hconfig : media.header.isConfig <;> simp [AVPacket.isConfig, hconfig]

end Wire

end Kymux.Driver
