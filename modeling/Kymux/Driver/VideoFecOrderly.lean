import Kymux.Driver.VideoFecAccepted
import Kymux.Driver.VideoFecChecked

namespace Kymux.VideoFec.Checked

open Av BigEndian Driver EventLoop Fec
open Kymux.Checked (each each_ok sum_ok fits_ok)
open Fec.Checked (add sum usizeBits Accepted Orderly accepted_of_ok)

variable {rq : RaptorQ} {s s' : PendingGroups rq} {u : Parts rq} {x : Symbol} {p : Queue rq}
  {groupSeq kypacketSeq now : ℕ} {clock : Clock}

structure Fit (s : PendingGroups rq) : Prop where
  valid : s.Valid
  accepted : s.Accepts

theorem maxVideoPayload_fits : maxVideoPayload + mediaHeader < 2 ^ usizeBits := by decide

theorem newParts_eq (oti : Oti) (created : ℕ) :
    newParts oti created = (Parts.new oti created : Except _ (Parts rq)) := by
  rw [newParts, Fec.Checked.newDecoder_eq maxVideoPayload_fits]
  rfl

theorem addPacket_eq (h : validateOti u.decoder.oti maxVideoPayload = .ok ()) (x : Symbol) :
    addPacket u x = u.addPacket x := by
  rw [addPacket, Fec.Checked.decode_eq h]
  rfl

theorem fecStats_eq (h : validateOti u.decoder.oti maxVideoPayload = .ok ()) :
    fecStats u = .ok u.fecStats := by
  rw [fecStats, Fec.Checked.divCeil, if_neg (accepted_of_ok h).symbol.ne']
  rfl

theorem assemble_eq (h : validateOti u.decoder.oti maxVideoPayload = .ok ()) :
    assemble u = u.assemble := by
  rw [assemble, fecStats_eq h, Parts.assemble]
  simp only [bind, Except.bind]
  cases u.assembled with
  | none => rfl
  | some data => simp only [Fec.Checked.mediaPacket_eq]

theorem insertDatagram_eq_group (hp : p.Ordered) (h : PendingGroups.QueueAccepts p)
    (created assembled : ℕ) :
    p.insertDatagram (reassembly rq) kypacketSeq x created assembled =
      p.insertDatagram (VideoFec.reassembly rq) kypacketSeq x created assembled := by
  refine Pending.insertDatagram_congr hp _ _ _ _ (newParts_eq x.oti created) rfl rfl ?_
  intro parts hparts
  have ha : validateOti parts.decoder.oti maxVideoPayload = .ok () := by
    rcases hparts with hmem | hnew
    · exact h.segments hmem
    · exact Parts.validateOti_of_new hnew
  refine ⟨addPacket_eq ha x, ?_⟩
  intro parts' hadd
  apply assemble_eq
  rw [Parts.addPacket_oti hadd]
  exact ha

open Queue (charge configUsage) in
theorem charged_eq {segments datagrams : List Oti} {configPacket : ConfigPacket} {maxPayload : ℕ}
    (hmax : maxPayload ≤ maxVideoPayload)
    (hsegments : ∀ oti ∈ segments, Accepted oti maxPayload)
    (hdatagrams : ∀ oti ∈ datagrams, Accepted oti maxPayload)
    (hobjects : segments.length + datagrams.length + (configUsage configPacket).1 < 2 ^ usizeBits)
    (hbytes : (segments.map reservation).sum + (datagrams.map reservation).sum +
      (configUsage configPacket).2 < 2 ^ usizeBits) :
    charged segments datagrams configPacket =
      .ok (segments.length + datagrams.length + (configUsage configPacket).1,
        (segments.map reservation).sum + (datagrams.map reservation).sum +
          (configUsage configPacket).2) := by
  have hs := each_ok (fun oti h ↦ Fec.Checked.reservation_eq (hsegments oti h) hmax)
  have hd := each_ok (fun oti h ↦ Fec.Checked.reservation_eq (hdatagrams oti h) hmax)
  have hsums : sum (segments.map reservation) = .ok (segments.map reservation).sum := by
    rw [sum, sum_ok (by omega), Nat.zero_add]
  have hsumd : sum (datagrams.map reservation) = .ok (datagrams.map reservation).sum := by
    rw [sum, sum_ok (by omega), Nat.zero_add]
  have ho : add usizeBits segments.length datagrams.length =
      .ok (segments.length + datagrams.length) := fits_ok (by omega)
  have hb : add usizeBits (segments.map reservation).sum (datagrams.map reservation).sum =
      .ok ((segments.map reservation).sum + (datagrams.map reservation).sum) := fits_ok (by omega)
  simp only [charged, hs, hd, hsums, hsumd, ho, hb, bind, Except.bind]
  split
  · simp only [configUsage] at hobjects hbytes ⊢
    rw [add, fits_ok hobjects, add, fits_ok hbytes]
    rfl
  · next hother =>
    have hnone : configUsage configPacket = (0, 0) := by
      unfold configUsage
      split
      · next media seq => exact (hother media seq rfl).elim
      · rfl
    rw [hnone]
    rfl

theorem usage_eq (h : PendingGroups.QueueAccepts p)
    (hobjects : (Queue.usage p).1 < 2 ^ usizeBits) (hbytes : (Queue.usage p).2 < 2 ^ usizeBits) :
    usage p = .ok (Queue.usage p) := by
  have hfst : (Queue.usage p).1 = (p.segments.map (fun s ↦ s.parts.decoder.oti)).length +
      (p.datagrams.map (fun d ↦ d.object.oti)).length + (Queue.configUsage p.configPacket).1 := by
    rw [Queue.usage_eq, Queue.mediaUsage, Pending.weight, Queue.sum_charge, Queue.sum_charge]
    simp
  have hsnd : (Queue.usage p).2 =
      ((p.segments.map (fun s ↦ s.parts.decoder.oti)).map reservation).sum +
        ((p.datagrams.map (fun d ↦ d.object.oti)).map reservation).sum +
          (Queue.configUsage p.configPacket).2 := by
    rw [Queue.usage_eq, Queue.mediaUsage, Pending.weight, Queue.sum_charge, Queue.sum_charge]
    simp [Function.comp_def]
  rw [usage, charged_eq le_rfl, ← hfst, ← hsnd]
  · intro oti hoti
    obtain ⟨u, hu, rfl⟩ := List.mem_map.mp hoti
    exact accepted_of_ok (h.segments hu)
  · intro oti hoti
    obtain ⟨d, hd, rfl⟩ := List.mem_map.mp hoti
    exact accepted_of_ok (h.datagrams hd)
  · rwa [← hfst]
  · rwa [← hsnd]

theorem checkCapacity_eq (h : Fit s) (additional : ℕ) :
    checkCapacity s additional = s.checkCapacity additional := by
  have hobjects : s.objects < 2 ^ usizeBits := lt_of_le_of_lt h.valid.objects (by decide)
  have hbytes : s.bytes < 2 ^ usizeBits := lt_of_le_of_lt h.valid.bytes (by decide)
  have heach : each (fun g : Group rq ↦ usage g.toPending) s.pendingGroups =
      .ok (s.pendingGroups.map (fun g ↦ Queue.usage g.toPending)) := by
    apply each_ok
    intro g hg
    apply usage_eq (h.accepted.queue g hg)
    · refine lt_of_le_of_lt ?_ hobjects
      exact List.single_le_sum (fun _ _ ↦ Nat.zero_le _) _ (List.mem_map.mpr ⟨g, hg, rfl⟩)
    · refine lt_of_le_of_lt ?_ hbytes
      exact List.single_le_sum (fun _ _ ↦ Nat.zero_le _) _ (List.mem_map.mpr ⟨g, hg, rfl⟩)
  have ho : sum ((s.pendingGroups.map (fun g ↦ Queue.usage g.toPending)).map Prod.fst) =
      .ok s.objects := by
    rw [List.map_map, sum, sum_ok (by rw [Nat.zero_add]; exact hobjects), Nat.zero_add]
    rfl
  have hb : sum ((s.pendingGroups.map (fun g ↦ Queue.usage g.toPending)).map Prod.snd) =
      .ok s.bytes := by
    rw [List.map_map, sum, sum_ok (by rw [Nat.zero_add]; exact hbytes), Nat.zero_add]
    rfl
  simp only [checkCapacity, heach, ho, hb, bind, Except.bind, Fec.Checked.checkPending_eq]
  rfl

theorem removeFront_eq (h : PendingGroups.QueueAccepts p) (isDatagram : Bool) :
    removeFront p isDatagram = PendingGroups.removeFront p isDatagram := by
  unfold removeFront PendingGroups.removeFront PendingGroups.removeFrontWith
  split_ifs
  · rfl
  · cases hs : p.segments with
    | nil => rfl
    | cons segments rest =>
      have hmem : segments ∈ p.segments := by simp [hs]
      simp only [fecStats_eq (h.segments hmem), bind, Except.bind]

theorem retireOldestMedia_eq (h : Fit s) (now : ℕ) :
    retireOldestMedia s now = s.retireOldestMedia now := by
  unfold retireOldestMedia PendingGroups.retireOldestMedia PendingGroups.retireOldestMediaWith
  cases s.oldestMedia with
  | none => rfl
  | some oldest =>
    dsimp only
    cases hget : s.pendingGroups[oldest.index]? with
    | none => rfl
    | some g =>
      dsimp only
      rw [removeFront_eq (h.accepted.queue g (List.mem_of_getElem? hget))]

theorem Fit.retires (h : Fit s) (hret : PendingGroups.Retires now s s') : Fit s' :=
  ⟨h.valid.retires hret, h.accepted.retirements (.single hret)⟩

theorem admitLoopWith_congr {check check' : PendingGroups rq → Except Fault Unit}
    {retire retire' : PendingGroups rq → Except Fault (Bool × PendingGroups rq)}
    {P : PendingGroups rq → Prop} (hcheck : ∀ s, P s → check s = check' s)
    (hretire : ∀ s, P s → retire s = retire' s)
    (hstep : ∀ s s', P s → retire' s = .ok (true, s') → P s') (hs : P s) (n : ℕ) :
    PendingGroups.admitLoopWith check retire n s =
      PendingGroups.admitLoopWith check' retire' n s := by
  induction n generalizing s with
  | zero => rfl
  | succ n ih =>
    simp only [PendingGroups.admitLoopWith, hcheck s hs, hretire s hs]
    cases check' s with
    | ok _ => rfl
    | error error =>
      cases hret : retire' s with
      | error e => rfl
      | ok out =>
        obtain ⟨b, s'⟩ := out
        cases b with
        | false => rfl
        | true => exact ih (hstep s s' hs hret)

theorem admitLoop_eq (h : Fit s) (additional now n : ℕ) :
    admitLoop additional now n s = PendingGroups.admitLoop additional now n s := by
  refine admitLoopWith_congr (P := Fit) (fun s hs ↦ checkCapacity_eq hs additional)
    (fun s hs ↦ retireOldestMedia_eq hs now) ?_ h n
  intro s s' hs hret
  rcases PendingGroups.retireOldestMedia_cases hs.valid.ordered now with
    ⟨hkeep, -⟩ | ⟨s₁, hret₁, hstep⟩
  · cases hkeep.symm.trans hret
  · cases hret₁.symm.trans hret
    exact hs.retires hstep

theorem admitObject_eq (h : Fit s) (additional now : ℕ) :
    admitObject s additional now = s.admitObject additional now := by
  rw [admitObject, admitLoop_eq h, PendingGroups.admitObject]

theorem Fit.admitObject (h : Fit s) {additional : ℕ} {r : Except Fault Unit}
    (hadm : s.admitObject additional now = (r, s')) : Fit s' := by
  obtain ⟨hret, -⟩ := PendingGroups.admitObject_retires h.valid.ordered hadm
  exact ⟨h.valid.retirements hret, h.accepted.retirements hret⟩

theorem insertStreamPacket_eq (h : Fit s) (groupSeq kypacketSeq : ℕ) (packet : AVPacket)
    (clock : Clock) : insertStreamPacket s groupSeq kypacketSeq packet clock =
      s.insertStreamPacket groupSeq kypacketSeq packet clock := by
  unfold insertStreamPacket PendingGroups.insertStreamPacket PendingGroups.insertStreamPacketWith
  cases packet with
  | codec packet | hole packet => rfl
  | media media =>
    dsimp only
    rewrite [admitObject_eq h]
    rfl

theorem storeDatagram_eq (h : Fit s) (groupSeq kypacketSeq : ℕ) (x : Symbol) (clock : Clock) :
    storeDatagram s groupSeq kypacketSeq x clock =
      s.storeDatagram groupSeq kypacketSeq x clock := by
  unfold storeDatagram PendingGroups.storeDatagram PendingGroups.storeDatagramWith
  rcases Groups.preparePendingGroup_cases PendingGroups.room h.valid.ordered.sorted groupSeq with
    ⟨e, hprep, -⟩ | ⟨pre, g, post, hplace, hprep⟩
  · simp only [hprep]
  · have hget : (pre ++ g :: post)[pre.length]? = some g := by simp
    have hg : g.Ordered := hplace.all h.valid.ordered.each Pending.Ordered.new
    simp only [hprep, hget,
      insertDatagram_eq_group hg (hplace.all h.accepted.queue PendingGroups.QueueAccepts.new)]

theorem insertDatagram_eq (h : Fit s) (groupSeq kypacketSeq : ℕ) (x : Symbol) (clock : Clock) :
    insertDatagram s groupSeq kypacketSeq x clock =
      s.insertDatagram groupSeq kypacketSeq x clock := by
  unfold insertDatagram PendingGroups.insertDatagram PendingGroups.insertDatagramWith
  rw [Fec.Checked.validateOti_eq maxVideoPayload_fits]
  cases hv : validateOti x.oti maxVideoPayload with
  | error e => rfl
  | ok _ =>
    simp only [storeDatagram_eq h, admitObject_eq h,
      Fec.Checked.reservation_eq (accepted_of_ok hv) le_rfl]
    split_ifs
    · rfl
    · rfl
    · rfl
    · cases hadm : s.admitObject (reservation x.oti) clock.admission with
      | mk r t =>
        cases r with
        | error e => rfl
        | ok _ => simp only [storeDatagram_eq (h.admitObject hadm)]

theorem discardedFecStats_eq (h : PendingGroups.QueueAccepts p) :
    discardedFecStats p = .ok (Queue.discardedFecStats p) := by
  rw [discardedFecStats, each_ok (fun s hs ↦ fecStats_eq (h.segments hs))]
  rfl

theorem takenStats_eq {b : Bool} {taken : Taken VideoObject (Parts rq)} {q : Queue rq}
    (h : PendingGroups.QueueAccepts p) (htook : Pending.Took p b taken q) :
    takenStats taken = .ok (PendingGroups.takenStats taken) := by
  cases htook with
  | config _ => rfl
  | datagram _ _ hs _ _ =>
    rw [takenStats, each_ok (fun s hm ↦ fecStats_eq (h.segments (by simp [hs, hm])))]
    rfl

theorem takeNextPacket_eq (h : Fit s) (next now : ℕ) :
    takeNextPacket s next now = s.takeNextPacket next now := by
  unfold takeNextPacket PendingGroups.takeNextPacket PendingGroups.takeNextPacketWith
  cases hnext : s.nextPacket next now with
  | none | deadline d => rfl
  | ready ref =>
    obtain ⟨drained, g, rest, taken, p, hgs, -, -, -, htake, href⟩ := Groups.takeRef_of_ready hnext
    have hg : g ∈ s.pendingGroups := by simp [hgs]
    have htook := Pending.takePacket_took (h.valid.ordered.each g hg) htake
    have hdrained : each (fun g : Group rq ↦ discardedFecStats g.toPending) drained =
        .ok (drained.map (fun g ↦ Queue.discardedFecStats g.toPending)) := by
      apply each_ok
      intro k hk
      exact discardedFecStats_eq (h.accepted.queue k (by simp [hgs, hk]))
    simp only [href, hdrained, takenStats_eq (h.accepted.queue g hg) htook, bind, Except.bind, pure,
      Except.pure]

section Errors

variable {r : Except Fault Unit}

theorem orderly_inserted {α β ι : Type} {R : Reassembly α β ι} {p p' : Pending α β} {x : ι}
    {created assembled : ℕ} (h : Pending.Inserted R p kypacketSeq x created assembled r p')
    (hnew : Orderly (R.new p x created)) (hadd : ∀ parts, Orderly (R.addPacket parts x))
    (hasm : ∀ parts, Orderly (R.assemble parts)) (hagain : ∀ object, Orderly (R.again object x)) :
    Orderly r := by
  cases h with
  | again _ _ => exact hagain _
  | refused _ _ he => exact hnew.of_eq_error he
  | failed _ _ he => exact (hadd _).of_eq_error he
  | broken _ _ _ _ he => exact (hasm _).of_eq_error he
  | kept | complete => exact .ok _

theorem orderly_newParts (oti : Oti) (created : ℕ) :
    Orderly (Parts.new oti created : Except _ (Parts rq)) := by
  unfold Parts.new ObjectDecoder.new
  refine Orderly.bind (Orderly.bind (Fec.Checked.orderly_validateOti _ _) ?_) ?_
  · exact fun _ _ ↦ .ok _
  · exact fun _ _ ↦ .ok _

theorem orderly_addPacket (u : Parts rq) (x : Symbol) : Orderly (u.addPacket x) :=
  Orderly.bind (Fec.Checked.orderly_decode _ _ _ _) (fun _ _ ↦ .ok _)

theorem orderly_assemble (u : Parts rq) : Orderly u.assemble := by
  unfold Parts.assemble
  split
  · exact .invalid
  · exact Orderly.bind (Fec.Checked.orderly_mediaPacket _) (fun _ _ ↦ .ok _)

theorem orderly_room (groups : ℕ) : Orderly (PendingGroups.room groups) := by
  unfold PendingGroups.room
  split_ifs <;> simp

theorem orderly_stored (h : PendingGroups.Stored s groupSeq kypacketSeq x clock r s') :
    Orderly r := by
  cases h with
  | full _ hroom => exact (orderly_room _).of_eq_error hroom
  | inserted _ hins =>
    refine orderly_inserted hins (orderly_newParts _ _) (fun parts ↦ orderly_addPacket parts x)
      orderly_assemble (fun object ↦ ?_)
    unfold VideoFec.reassembly
    dsimp only
    split_ifs <;> simp

theorem orderly_datagramStep (h : PendingGroups.DatagramStep s groupSeq kypacketSeq x clock r s') :
    Orderly r := by
  cases h with
  | invalid he => exact (Fec.Checked.orderly_validateOti _ _).of_eq_error he
  | late | overtaken => exact .ok _
  | migrated => exact .invalid
  | known _ _ _ hstored | fresh _ _ _ _ _ hstored => exact orderly_stored hstored
  | rejected _ _ hcap => exact (Fec.Checked.orderly_checkPending _ _ _ _).of_eq_error hcap

theorem orderly_streamStep {packet : AVPacket}
    (h : PendingGroups.StreamStep s groupSeq kypacketSeq packet clock r s') : Orderly r := by
  cases h with
  | unexpected | duplicate => exact .invalid
  | rejected _ _ hcap => exact (Fec.Checked.orderly_checkPending _ _ _ _).of_eq_error hcap
  | full _ _ hroom => exact (orderly_room _).of_eq_error hroom
  | stored => exact .ok _

end Errors

section Run

variable {s s' : State rq} {input : Input Msg Clock} {b : Bool}

theorem Fit.selected (h : Fit s.pendingGroups) (hsel : s.select input = .ok (s', b)) :
    Fit s'.pendingGroups := by
  refine ⟨State.valid_selected h.valid hsel, ?_⟩
  cases State.select_selected h.valid.ordered hsel with
  | timer | codec _ => exact h.accepted
  | lateStream | lateDatagram => simpa using h.accepted
  | stream _ _ _ hstep => simpa using h.accepted.streamStep hstep
  | datagram _ _ hstep => simpa using h.accepted.datagramStep hstep

theorem Fit.drained (h : Fit s.pendingGroups) (hdrain : s.drain now = .ok (s', b)) :
    Fit s'.pendingGroups := by
  obtain ⟨a, hstep⟩ := State.drain_takeStep h.valid.ordered hdrain
  exact ⟨h.valid.takeStep hstep, h.accepted.takeStep hstep⟩

theorem select_eq (h : Fit s.pendingGroups) (input : Input Msg Clock) :
    s.selectWith insertStreamPacket insertDatagram input = s.select input := by
  cases input with
  | timer => rfl
  | message msg clock =>
    cases msg with
    | error e => rfl
    | ok msg =>
      cases msg <;> simp only [State.select, State.selectWith, VideoState.receive,
        VideoState.receiveStream, VideoState.receiveDatagram, insertStreamPacket_eq h,
        insertDatagram_eq h]

theorem drain_eq (h : Fit s.pendingGroups) (now : ℕ) :
    s.drainWith takeNextPacket now = s.drain now := by
  unfold State.drain State.drainWith
  rewrite [takeNextPacket_eq h]
  rfl

theorem orderly_select (h : Fit s.pendingGroups) (input : Input Msg Clock) :
    Orderly (s.select input) := by
  cases input with
  | timer => exact .ok _
  | message msg clock =>
    cases msg with
    | error e => exact .err
    | ok msg =>
      intro m hpanic
      rcases VideoState.receive_error hpanic with ⟨g, k, packet, he⟩ | ⟨g, k, x, he⟩
      · exact orderly_streamStep
          (PendingGroups.insertStreamPacket_step h.valid.ordered g k packet clock)
          m (done_error he)
      · exact orderly_datagramStep (PendingGroups.insertDatagram_step h.valid.ordered g k x clock)
          m (done_error he)

theorem drain_ok (h : Fit s.pendingGroups) (now : ℕ) : ∃ out, s.drain now = .ok out := by
  obtain ⟨a, gs, htake, -⟩ :=
    PendingGroups.takeNextPacket_step h.valid.ordered s.nextKypacketSeq now
  simp only [State.drain, State.drainWith, htake]
  cases a <;> exact ⟨_, rfl⟩

end Run

theorem slice_ok {datagram : Bytes} {i j : ℕ} (hi : i ≤ j) (hj : j ≤ datagram.length) :
    Fec.Checked.slice datagram i j = .ok ((datagram.drop i).take (j - i)) :=
  Kymux.Checked.slice_ok hi hj

theorem parse_eq : parse = VideoFec.parse := by
  funext datagram
  unfold parse VideoFec.parse
  rw [Fec.Checked.parseDatagram_eq datagram (by decide) maxVideoPayload_fits]
  cases hp : parseDatagram datagram datagramHeaderSize maxVideoPayload with
  | error e => rfl
  | ok out =>
    have hlen := Fec.Checked.length_of_parseDatagram hp
    simp only [datagramHeaderSize] at hlen
    simp only [bind, Except.bind]
    rw [slice_ok (by decide) (by omega), slice_ok (by decide) (by omega)]

theorem orderly_parse (datagram : Bytes) : Orderly (VideoFec.parse datagram) :=
  Orderly.bind (Fec.Checked.orderly_parseDatagram _ _ _) (fun _ _ ↦ .ok _)

theorem orderly_recvStreamPacket (stream : Bytes) : Orderly (recvStreamPacket stream) :=
  Orderly.bind (Fec.Checked.orderly_readExact _ _)
    (fun _ _ ↦ Orderly.bind (Fec.Checked.orderly_readStreamPacket _ _) (fun _ _ ↦ .ok _))

theorem Fit.new : Fit (.new : PendingGroups rq) :=
  ⟨PendingGroups.Valid.new, PendingGroups.Accepts.new⟩

theorem receiver_run_eq (rq : RaptorQ) (stats : ProtocolStats) (stream : Bytes)
    (es : List (Event (Arrival Bytes Clock) ℕ)) :
    (receiver rq).run (stream, .start .new stats) es =
      (VideoFec.receiver rq).run (stream, .start .new stats) es := by
  unfold receiver VideoFec.receiver
  rw [parse_eq]
  refine receiver_run_congr (P := fun s ↦ Fit s.pendingGroups) (fun _ ↦ rfl) ?_ ?_ Fit.new
  · exact fun s i h ↦ ⟨select_eq h i, fun s' b ↦ h.selected⟩
  · exact fun s t h ↦ ⟨drain_eq h t, fun s' b ↦ h.drained⟩

theorem orderly_receiver (rq : RaptorQ) (stats : ProtocolStats) (stream : Bytes)
    (es : List (Event (Arrival Bytes Clock) ℕ)) :
    Orderly ((VideoFec.receiver rq).run (stream, .start .new stats) es) := by
  intro m hpanic
  refine receiver_run_error (P := fun s ↦ Fit s.pendingGroups) (Q := fun e ↦ ∀ m, e ≠ .panic m)
    ?_ ?_ ?_ ?_ hpanic Fit.new m rfl
  · rintro bytes e he m rfl
    obtain ⟨m', -, hread⟩ := fecReaders_stream_error he
    exact orderly_recvStreamPacket bytes m' hread
  · rintro datagram e he m rfl
    obtain ⟨m', -, hread⟩ := fecReaders_datagram_error he
    exact orderly_parse datagram m' hread
  · refine fun s i h ↦ ⟨?_, fun s' b ↦ h.selected⟩
    rintro e he m rfl
    exact orderly_select h i m he
  · refine fun s t h ↦ ⟨?_, fun s' b ↦ h.drained⟩
    rintro e he m rfl
    obtain ⟨out, hout⟩ := drain_ok h t
    exact absurd (hout.symm.trans he) (by simp)

end Kymux.VideoFec.Checked
