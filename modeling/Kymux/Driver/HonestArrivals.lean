import Kymux.Driver.Honest
import Kymux.Driver.Wire
import Kymux.Driver.FecFormat

namespace Kymux.Driver

open Av BigEndian EventLoop Governed Unroll

section

variable {δ δ' σ μ κ τ : Type}

def Arrival.map (f : δ → δ') : Arrival δ κ → Arrival δ' κ
  | .record clock => .record clock
  | .datagram d clock => .datagram (f d) clock
  | .timer => .timer

def Arrival.isRecord : Arrival δ κ → Bool
  | .record _ => true
  | _ => false

def Readers.comap (f : δ → δ') (R : Readers δ' μ) : Readers δ μ where
  recvStreamPacket := R.recvStreamPacket
  recvDatagram datagram := R.recvDatagram (f datagram)

theorem receiver_comap_select (L : Loop σ (Input μ κ) τ Fault) (f : δ → δ') (R : Readers δ' μ)
    (x : Bytes × σ) (a : Arrival δ κ) :
    (receiver L (R.comap f)).select x a = (receiver L R).select x (a.map f) := by
  cases a <;> rfl

end

variable {κ : Type} {D : SendDriver} {calls : List Call} {sent : List AVPacket} {i j : ℕ}

theorem isCodec_of_isConfig {packet : AVPacket} (h : packet.isConfig = true) :
    packet.isCodec = false := by
  cases packet with
  | codec => cases h
  | media | hole => rfl

def recordOf (sent : List AVPacket) (i : ℕ) : Bytes :=
  match sent[i]? with
  | some (.media media) =>
    match media.header.serialize with
    | .ok header => videoSeqs (senderOf sent i) ++ header ++ media.payload
    | .error _ => []
  | _ => []

def recordsOf (sent : List AVPacket) (is : List ℕ) : Bytes := (is.map (recordOf sent)).flatten

theorem flatMap_eq_filter {A B : Type} {as : List A} {n : ℕ} {f : A → List B} {c : ℕ → Bool}
    {r : ℕ → B} (hlen : as.length = n)
    (h : ∀ i a, as[i]? = some a → f a = if c i then [r i] else []) :
    as.flatMap f = ((List.range n).filter c).map r := by
  subst hlen
  induction as using List.reverseRecOn with
  | nil => rfl
  | append_singleton as a ih =>
    rw [List.flatMap_append, ih (fun i a' hi ↦ h i a' ?_), List.length_append,
      List.length_singleton, List.range_succ, List.filter_append, List.map_append,
      List.flatMap_singleton, h as.length a List.getElem?_concat_length]
    · cases hc : c as.length <;> simp [hc]
    · rw [List.getElem?_append_left (List.getElem?_eq_some_iff.mp hi).1, hi]

namespace Succeeds

theorem length (hD : D.IsVideo) (h : Succeeds D calls) :
    (D.sendAll .start calls).length = calls.length := by
  have hget := SendDriver.sendAll_get hD h.media h.ok
  refine Nat.le_antisymm ?_ ?_
  · have hlast := hget calls.length
    rw [List.getElem?_eq_none le_rfl, Option.map_none, List.getElem?_eq_none_iff] at hlast
    exact hlast
  · have hlast := hget (D.sendAll .start calls).length
    rw [List.getElem?_eq_none le_rfl, eq_comm, Option.map_eq_none_iff, List.getElem?_eq_none_iff]
      at hlast
    exact hlast

theorem config (hD : D.IsVideo) (h : Succeeds D calls) {o : Outcome} {media : MediaPacket}
    (ho : (D.sendAll .start calls)[i]? = some o)
    (hpacket : (packets calls)[i]? = some (.media media)) (hc : media.header.isConfig = true) :
    ∃ header, media.header.serialize = .ok header ∧
      o.out = [.writeAll (videoSeqs (senderOf (packets calls) i) ++ header ++ media.payload),
        .flush] := by
  obtain ⟨media', env, -, hpacket', hout⟩ := h.sent hD ho
  obtain rfl : media = media' := by
    have := hpacket.symm.trans hpacket'
    simpa using this
  rw [hc, if_pos rfl, SendDriver.configOps, hD.seqs] at hout
  cases hs : media.header.serialize with
  | error e =>
    rw [hs] at hout
    cases hops : o.out <;> simp [hops] at hout
  | ok header =>
    rw [hs] at hout
    exact ⟨header, rfl, (List.map_injective_iff.mpr fun a b hab ↦ Except.ok.inj hab) hout⟩

theorem datagram (hD : D.IsVideo) (h : Succeeds D calls) {o : Outcome} {bytes : Bytes}
    (ho : (D.sendAll .start calls)[i]? = some o) (hbytes : bytes ∈ o.datagrams) :
    ∃ media env, calls[i]? = some ⟨.media media, env⟩ ∧ media.header.isConfig = false ∧
      .ok (.sendDatagram bytes) ∈ D.datagrams (senderOf (packets calls) i) media env := by
  obtain ⟨media, env, hcall, hpacket, hout⟩ := h.sent hD ho
  obtain ⟨op, hop, hdatagram⟩ := List.mem_filterMap.mp hbytes
  cases op with
  | writeAll | flush => cases hdatagram
  | sendDatagram d =>
    cases hdatagram
    cases hc : media.header.isConfig with
    | true =>
      obtain ⟨header, -, hops⟩ := h.config hD ho hpacket hc
      simp [hops] at hop
    | false =>
      rw [hc, if_neg (by decide)] at hout
      exact ⟨media, env, hcall, hc, hout ▸ List.mem_map_of_mem hop⟩

theorem records (hD : D.IsVideo) (h : Succeeds D calls) {o : Outcome}
    (ho : (D.sendAll .start calls)[i]? = some o) :
    o.records = if configAt AVPacket.isConfig (packets calls) i then [recordOf (packets calls) i]
      else [] := by
  obtain ⟨media, env, -, hpacket, hout⟩ := h.sent hD ho
  have hconfig : configAt AVPacket.isConfig (packets calls) i = media.header.isConfig := by
    rw [configAt, hpacket]
    rfl
  rw [hconfig, Outcome.records]
  cases hc : media.header.isConfig with
  | true =>
    obtain ⟨header, hs, hops⟩ := h.config hD ho hpacket hc
    simp [hops, Op.record, recordOf, hpacket, hs]
  | false =>
    rw [hc, if_neg (by decide)] at hout
    simp only [Bool.false_eq_true, if_false, List.filterMap_eq_nil_iff]
    intro op hop
    obtain ⟨bytes, rfl⟩ := hD.datagrams _ _ _ op (hout ▸ List.mem_map_of_mem hop)
    rfl

theorem recordOf_config (hD : D.IsVideo) (h : Succeeds D calls)
    (hc : configAt AVPacket.isConfig (packets calls) i = true) :
    ∃ media header, (packets calls)[i]? = some (.media media) ∧ media.header.isConfig = true ∧
      media.header.serialize = .ok header ∧
      recordOf (packets calls) i = videoSeqs (senderOf (packets calls) i) ++ header ++
      media.payload := by
  obtain ⟨packet, hpacket, hconfig⟩ := (Option.any_eq_true _ _).mp hc
  have hi : i < (D.sendAll .start calls).length := by
    rw [h.length hD]
    simpa [packets] using (List.getElem?_eq_some_iff.mp hpacket).1
  cases packet with
  | codec | hole => cases hconfig
  | media media =>
    obtain ⟨header, hs, -⟩ := h.config hD (List.getElem?_eq_getElem hi) hpacket hconfig
    exact ⟨media, header, hpacket, hconfig, hs, by simp [recordOf, hpacket, hs]⟩

theorem written_eq (hD : D.IsVideo) (h : Succeeds D calls) :
    written (D.sendAll .start calls) =
      recordsOf (packets calls) (configs AVPacket.isConfig (packets calls)) := by
  rw [written, flatMap_eq_filter (h.length hD) (fun i o ho ↦ h.records hD ho), recordsOf, configs]
  simp [packets]

end Succeeds

def Sized (sent : List AVPacket) : Prop :=
  ∀ media, .media media ∈ sent → media.header.isConfig = true →
    media.header.size.toNat = media.payload.length

/-- How the sender prepares the media packet at a place for its datagrams. -/
structure Coding (calls : List Call) (i : ℕ) where
  media : MediaPacket
  env : Env
  maxDatagramSize : ℕ
  header : Bytes
  call : calls[i]? = some ⟨.media media, env⟩
  size : env.maxDatagramSize = some maxDatagramSize
  serialized : media.header.serialize = .ok header
  isMedia : media.header.isConfig = false

namespace Coding

def data (c : Coding calls i) : Bytes := c.header ++ c.media.payload

theorem unique (c c' : Coding calls i) : c = c' := by
  obtain ⟨media, env, size, header, hcall, hsize, hs, hc⟩ := c
  obtain ⟨media', env', size', header', hcall', hsize', hs', hc'⟩ := c'
  rw [hcall] at hcall'
  cases hcall'
  rw [hsize] at hsize'
  cases hsize'
  rw [hs] at hs'
  cases hs'
  rfl

theorem get (c : Coding calls i) : (packets calls)[i]? = some (.media c.media) := by
  simp [packets, c.call]

theorem placed (c : Coding calls i) :
    Placed (packets calls) false (groupOf (packets calls) i) i := by
  have hplaced := Placed.of_get c.get
  rwa [show AVPacket.isConfig (.media c.media) = false from c.isMedia] at hplaced

end Coding

def Arrival.From (outcomes : List Outcome) : Arrival (ℕ × Bytes) κ → Prop
  | .datagram (i, bytes) _ => ∃ o, outcomes[i]? = some o ∧ bytes ∈ o.datagrams
  | _ => True

/-- The places of the packets that arrive. The records are those of the configs, in order. -/
def trueNumbers : List ℕ → List (Arrival (ℕ × Bytes) κ) → List ℕ
  | _, [] => []
  | [], .record _ :: as => trueNumbers [] as
  | c :: cs, .record _ :: as => c :: trueNumbers cs as
  | cs, .datagram (i, _) _ :: as => i :: trueNumbers cs as
  | cs, .timer :: as => trueNumbers cs as

theorem trueNumbers_append (cs : List ℕ) (as bs : List (Arrival (ℕ × Bytes) κ)) :
    trueNumbers cs (as ++ bs) =
      trueNumbers cs as ++ trueNumbers (cs.drop (as.countP Arrival.isRecord)) bs := by
  induction as generalizing cs with
  | nil => rfl
  | cons a as ih =>
    cases a with
    | record clock =>
      cases cs with
      | nil => simpa [trueNumbers] using ih []
      | cons c cs =>
        rw [List.cons_append, trueNumbers, ih, trueNumbers, List.countP_cons_of_pos rfl,
          List.drop_succ_cons, List.cons_append]
    | datagram d clock => simpa [trueNumbers, Arrival.isRecord] using ih cs
    | timer => simpa [trueNumbers, Arrival.isRecord] using ih cs

theorem trueNumbers_record (i : ℕ) (cs : List ℕ) (clock : κ) :
    trueNumbers (i :: cs) [.record clock] = [i] := rfl

theorem trueNumbers_datagram (cs : List ℕ) (i : ℕ) (bytes : Bytes) (clock : κ) :
    trueNumbers cs [.datagram (i, bytes) clock] = [i] := by
  cases cs <;> rfl

theorem trueNumbers_timer (cs : List ℕ) :
    trueNumbers cs [(.timer : Arrival (ℕ × Bytes) κ)] = [] := by
  cases cs <;> rfl

theorem mem_trueNumbers {cs : List ℕ} {as : List (Arrival (ℕ × Bytes) κ)} {n : ℕ}
    (h : n ∈ trueNumbers cs as) : n ∈ cs ∨ ∃ bytes clock, .datagram (n, bytes) clock ∈ as := by
  induction as generalizing cs with
  | nil => cases cs <;> cases h
  | cons a as ih =>
    have hlater : ∀ cs', (∀ k ∈ cs', k ∈ cs) → n ∈ trueNumbers cs' as →
        n ∈ cs ∨ ∃ bytes clock, .datagram (n, bytes) clock ∈ a :: as := fun cs' hsub hn ↦
      (ih hn).imp (hsub n) (fun ⟨bytes, clock, hmem⟩ ↦ ⟨bytes, clock, List.mem_cons_of_mem _ hmem⟩)
    cases a with
    | record clock =>
      cases cs with
      | nil => exact hlater [] (fun _ ↦ id) h
      | cons c cs =>
        obtain rfl | h := List.mem_cons.mp h
        · exact .inl (by simp)
        · exact hlater cs (fun _ hk ↦ List.mem_cons_of_mem _ hk) h
    | datagram d clock =>
      obtain ⟨i, bytes⟩ := d
      obtain rfl | h := List.mem_cons.mp (show n ∈ i :: trueNumbers cs as by cases cs <;> exact h)
      · exact .inr ⟨bytes, clock, by simp⟩
      · exact hlater cs (fun _ ↦ id) h
    | timer => exact hlater cs (fun _ ↦ id) (by cases cs <;> exact h)

/-- Configs come in order, and datagrams late, often or never, but no packet is further from the
newest one than its numbers can tell. -/
structure Network (sent : List AVPacket) (outcomes : List Outcome)
    (as : List (Arrival (ℕ × Bytes) κ)) : Prop where
  origin : ∀ a ∈ as, a.From outcomes
  kypackets : BoundedDisorder (2 ^ 31) 0 (trueNumbers (configs AVPacket.isConfig sent) as)
  groups : BoundedDisorder (2 ^ 31) 0
    ((trueNumbers (configs AVPacket.isConfig sent) as).map (groupOf sent))

variable {outcomes : List Outcome} {as : List (Arrival (ℕ × Bytes) κ)} {a : Arrival (ℕ × Bytes) κ}

@[simp]
theorem countP_record (as : List (Arrival (ℕ × Bytes) κ)) (clock : κ) :
    (as ++ [Arrival.record clock]).countP Arrival.isRecord = as.countP Arrival.isRecord + 1 := by
  simp [Arrival.isRecord]

@[simp]
theorem countP_datagram (as : List (Arrival (ℕ × Bytes) κ)) (d : ℕ × Bytes) (clock : κ) :
    (as ++ [Arrival.datagram d clock]).countP Arrival.isRecord = as.countP Arrival.isRecord := by
  simp [Arrival.isRecord]

@[simp]
theorem countP_timer (as : List (Arrival (ℕ × Bytes) κ)) :
    (as ++ [Arrival.timer]).countP Arrival.isRecord = as.countP Arrival.isRecord := by
  simp [Arrival.isRecord]

theorem Network.of_append {bs : List (Arrival (ℕ × Bytes) κ)}
    (h : Network sent outcomes (as ++ bs)) :
    Network sent outcomes as where
  origin a ha := h.origin a (List.mem_append_left _ ha)
  kypackets := by
    have := h.kypackets
    rw [trueNumbers_append, boundedDisorder_append] at this
    exact this.1
  groups := by
    have := h.groups
    rw [trueNumbers_append, List.map_append, boundedDisorder_append] at this
    exact this.1

theorem Network.of_lt (hlen : sent.length < 2 ^ 31) (hsame : outcomes.length = sent.length)
    (horigin : ∀ a ∈ as, a.From outcomes) : Network sent outcomes as := by
  have hbound : ∀ n ∈ trueNumbers (configs AVPacket.isConfig sent) as, n < sent.length := by
    intro n hn
    obtain hn | ⟨bytes, clock, hmem⟩ := mem_trueNumbers hn
    · exact List.mem_range.mp (List.mem_filter.mp hn).1
    · obtain ⟨o, ho, -⟩ := horigin _ hmem
      exact hsame ▸ (List.getElem?_eq_some_iff.mp ho).1
  refine ⟨horigin, boundedDisorder_of_lt (by decide) (fun n hn ↦ (hbound n hn).trans hlen),
    boundedDisorder_of_lt (by decide) (fun g hg ↦ ?_)⟩
  obtain ⟨n, -, rfl⟩ := List.mem_map.mp hg
  calc groupOf sent n ≤ (sent.take (n + 1)).length := List.countP_le_length
    _ ≤ sent.length := (List.take_sublist _ _).length_le
    _ < 2 ^ 31 := hlen

structure Tracks {G : Type} (sent : List AVPacket) (as : List (Arrival (ℕ × Bytes) κ))
    (x : Bytes × VideoState G) : Prop where
  stream : x.1 = recordsOf sent ((configs AVPacket.isConfig sent).drop (as.countP Arrival.isRecord))
  kypackets : x.2.kypacketSequencer.newestSeq =
    (trueNumbers (configs AVPacket.isConfig sent) as).foldl max 0
  groups : x.2.groupSequencer.newestSeq =
    ((trueNumbers (configs AVPacket.isConfig sent) as).map (groupOf sent)).foldl max 0

namespace Tracks

variable {G : Type} {stream : Bytes} {s s' : VideoState G}

theorem start (pendingGroups : G) (stats : ProtocolStats) :
    Tracks (κ := κ) sent []
      (recordsOf sent (configs AVPacket.isConfig sent), VideoState.start pendingGroups stats) :=
  ⟨rfl, rfl, rfl⟩

/-- The next record of the stream is that of the next config, if there is one. -/
theorem front (h : Tracks sent as (stream, s)) :
    ((configs AVPacket.isConfig sent).drop (as.countP Arrival.isRecord) = [] ∧ stream = []) ∨
      ∃ i is, (configs AVPacket.isConfig sent)[as.countP Arrival.isRecord]? = some i ∧
        (configs AVPacket.isConfig sent).drop (as.countP Arrival.isRecord) = i :: is ∧
        stream = recordOf sent i ++ recordsOf sent is := by
  have hstream : stream = _ := h.stream
  cases hdrop : (configs AVPacket.isConfig sent).drop (as.countP Arrival.isRecord) with
  | nil =>
    rw [hdrop] at hstream
    exact .inl ⟨rfl, hstream⟩
  | cons i is =>
    rw [hdrop] at hstream
    refine .inr ⟨i, is, ?_, rfl, hstream⟩
    rw [← List.head?_drop, hdrop]
    rfl

theorem numbers (h : Tracks sent as (stream, s)) (hnet : Network sent outcomes (as ++ [a]))
    (ha : trueNumbers ((configs AVPacket.isConfig sent).drop (as.countP Arrival.isRecord))
      [a] = [i]) :
    s.numbers (UInt32.ofNat i) (UInt32.ofNat (groupOf sent i)) =
      ⟨i, groupOf sent i, ⟨max s.kypacketSequencer.newestSeq i⟩,
        ⟨max s.groupSequencer.newestSeq (groupOf sent i)⟩⟩ := by
  have hk := hnet.kypackets
  have hg := hnet.groups
  rw [trueNumbers_append, ha, boundedDisorder_append, ← h.kypackets] at hk
  rw [trueNumbers_append, ha, List.map_append, boundedDisorder_append, ← h.groups] at hg
  have hseq := Sequencer.seq_near (w := 32) (by decide) hk.2.1
  have hseq' := Sequencer.seq_near (w := 32) (by decide) hg.2.1
  rw [VideoState.numbers]
  simp only [show ∀ n, (UInt32.ofNat n).toBitVec = BitVec.ofNat 32 n from fun _ ↦ rfl, hseq, hseq']

theorem arrived {stream' : Bytes} (h : Tracks sent as (stream, s))
    (ha : trueNumbers ((configs AVPacket.isConfig sent).drop (as.countP Arrival.isRecord))
      [a] = [i])
    (hstream : stream' = recordsOf sent
      ((configs AVPacket.isConfig sent).drop ((as ++ [a]).countP Arrival.isRecord)))
    (hk : s'.kypacketSequencer = ⟨max s.kypacketSequencer.newestSeq i⟩)
    (hg : s'.groupSequencer = ⟨max s.groupSequencer.newestSeq (groupOf sent i)⟩) :
    Tracks sent (as ++ [a]) (stream', s') where
  stream := hstream
  kypackets := by rw [hk, trueNumbers_append, ha, List.foldl_append, ← h.kypackets]; rfl
  groups := by rw [hg, trueNumbers_append, ha, List.map_append, List.foldl_append, ← h.groups]; rfl

theorem record {is : List ℕ} {clock : κ} (h : Tracks sent as (stream, s))
    (hdrop : (configs AVPacket.isConfig sent).drop (as.countP Arrival.isRecord) = i :: is)
    (hk : s'.kypacketSequencer = ⟨max s.kypacketSequencer.newestSeq i⟩)
    (hg : s'.groupSequencer = ⟨max s.groupSequencer.newestSeq (groupOf sent i)⟩) :
    Tracks sent (as ++ [.record clock]) (recordsOf sent is, s') := by
  refine h.arrived (hdrop ▸ trueNumbers_record i is clock) ?_ hk hg
  rw [countP_record, ← List.drop_drop, hdrop]
  rfl

theorem datagram {bytes : Bytes} {clock : κ} (h : Tracks sent as (stream, s))
    (hk : s'.kypacketSequencer = ⟨max s.kypacketSequencer.newestSeq i⟩)
    (hg : s'.groupSequencer = ⟨max s.groupSequencer.newestSeq (groupOf sent i)⟩) :
    Tracks sent (as ++ [.datagram (i, bytes) clock]) (stream, s') := by
  refine h.arrived (trueNumbers_datagram _ i bytes clock) ?_ hk hg
  rw [countP_datagram]
  exact h.stream

theorem idle (h : Tracks sent as (stream, s))
    (ha : trueNumbers ((configs AVPacket.isConfig sent).drop (as.countP Arrival.isRecord)) [a] = [])
    (hstream : stream = recordsOf sent
      ((configs AVPacket.isConfig sent).drop ((as ++ [a]).countP Arrival.isRecord))) :
    Tracks sent (as ++ [a]) (stream, s) where
  stream := hstream
  kypackets := by rw [trueNumbers_append, ha, List.append_nil, ← h.kypackets]
  groups := by rw [trueNumbers_append, ha, List.append_nil, ← h.groups]

theorem ended {clock : κ} (h : Tracks sent as (stream, s))
    (hdrop : (configs AVPacket.isConfig sent).drop (as.countP Arrival.isRecord) = []) :
    Tracks sent (as ++ [.record clock]) (stream, s) := by
  refine h.idle (by rw [hdrop]; rfl) ?_
  rw [show stream = _ from h.stream, countP_record, ← List.drop_drop, hdrop]
  rfl

theorem timer (h : Tracks sent as (stream, s)) : Tracks sent (as ++ [.timer]) (stream, s) := by
  refine h.idle (trueNumbers_timer _) ?_
  rw [countP_timer]
  exact h.stream

theorem congr (h : Tracks sent as (stream, s)) (hk : s'.kypacketSequencer = s.kypacketSequencer)
    (hg : s'.groupSequencer = s.groupSequencer) : Tracks sent as (stream, s') where
  stream := h.stream
  kypackets := by rw [hk]; exact h.kypackets
  groups := by rw [hg]; exact h.groups

end Tracks

end Kymux.Driver
