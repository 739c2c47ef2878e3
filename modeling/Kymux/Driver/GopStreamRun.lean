import Kymux.Driver.GopStreamRead

namespace Kymux.GopStream

open BigEndian Av Keyed Machine

variable {t : Sent} {g g' : SentGop} {i j k : ℕ} {r r' : Receiver} {rest : List AVPacket}
  {msg : RecvMsg} {queue : List RecvMsg} {recv : Bytes} {packet : AVPacket}

/-- A message leaves the queue that is not a packet of the current group of pictures. -/
theorem Inv.popped (h : Inv t r) (hqueue : r.queue = msg :: queue)
    (hmsg : ∀ i g k rest, Reading t r i g k rest → msg.packetOf (gopOf i g).id = none) :
    Inv t { r with queue } := by
  have hmem : ∀ m ∈ queue, m ∈ r.queue := fun m hm ↦ hqueue ▸ List.mem_cons_of_mem _ hm
  refine ⟨fun bs hbs ↦ h.fresh bs (hbs.imp_left (hmem _)),
    fun bs gop hbs ↦ h.announced bs gop (hmem _ hbs), ?_⟩
  obtain hidle | ⟨i, g, k, rest, hreading⟩ := h.state
  · exact .inl (hidle.congr rfl rfl rfl rfl rfl (fun _ _ ↦ hmem _))
  · refine .inr ⟨i, g, k, rest, hreading.congr rfl rfl rfl rfl rfl (fun _ _ ↦ hmem _) ?_⟩
    rw [hqueue, queued, queued, List.filterMap_cons, hmsg i g k rest hreading]

theorem Inv.newStream (h : Inv t r) (hqueue : r.queue = .newStream recv :: queue) :
    Inv t { r with queue, idReaders := r.idReaders ++ [recv] } := by
  have hpop := h.popped hqueue (fun _ _ _ _ _ ↦ rfl)
  refine ⟨?_, hpop.announced, hpop.congr_state rfl rfl rfl rfl rfl (fun _ _ hmem ↦ hmem)
    (fun _ ↦ rfl)⟩
  rintro bs (hbs | hbs)
  · exact hpop.fresh bs (.inl hbs)
  · obtain hbs | hbs := List.mem_append.mp hbs
    · exact hpop.fresh bs (.inr hbs)
    · obtain rfl := List.mem_singleton.mp hbs
      exact h.fresh bs (.inl (by simp [hqueue]))

theorem Idle.first (h : Idle r) (hg : t.gops[i]? = some g) (hcarries : Carries g.packets recv) :
    Reading t { r with
      gop := some (gopOf i g)
      packetReaders := r.packetReaders ++ [⟨some recv, (gopOf i g).id⟩] } i g 0 g.packets where
  gop := rfl
  progress := by
    rw [h.returned, h.lastCodecGen, h.lastConfigGen]
    exact .first hg
  packets := by
    rw [queued_nil_of (fun packet id hmem ↦ absurd hmem (h.queue packet id))]
    rfl
  queue_le packet id hmem := absurd hmem (h.queue packet id)
  readers_le n reader hn := by
    rw [h.readers] at hn
    cases List.mem_singleton.mp (List.mem_of_getElem? hn)
    exact UInt32.le_refl _
  unique m n x y hm hn _ _ := by
    rw [h.readers] at hm hn
    have := (List.getElem?_eq_some_iff.mp hm).1
    have := (List.getElem?_eq_some_iff.mp hn).1
    simp only [List.nil_append, List.length_singleton] at *
    omega
  unread n bs hn := by
    rw [h.readers] at hn
    cases List.mem_singleton.mp (List.mem_of_getElem? hn)
    exact hcarries

theorem Reading.newer (h : Reading t r i g k rest) (ht : Shaped t) (hc : Counted t)
    (hg' : t.gops[j]? = some g') (hlt : (gopOf i g).id < (gopOf j g').id)
    (hcarries : Carries g'.packets recv) :
    Reading t { r with
      gop := some (gopOf j g')
      packetReaders := r.packetReaders ++ [⟨some recv, (gopOf j g').id⟩] } j g' 0 g'.packets := by
  have hij : i < j := by
    have := UInt32.lt_iff_toNat_lt.mp hlt
    rwa [hc.id_toNat h.progress.gop, hc.id_toNat hg'] at this
  have hold : ∀ (n : ℕ) (x : Reader), r.packetReaders[n]? = some x → x.gopId ≠ (gopOf j g').id :=
    fun n x hn ↦ UInt32.ne_of_lt (UInt32.lt_of_le_of_lt (h.readers_le n x hn) hlt)
  refine ⟨rfl, h.progress.newer ht hij hg', ?_, ?_, ?_, ?_, ?_⟩
  · rw [queued_nil_of (fun packet id hmem ↦
      UInt32.ne_of_lt (UInt32.lt_of_le_of_lt (h.queue_le packet id hmem) hlt))]
    rfl
  · exact fun packet id hmem ↦
      UInt32.le_of_lt (UInt32.lt_of_le_of_lt (h.queue_le packet id hmem) hlt)
  · intro n reader hn
    obtain ⟨-, rfl⟩ | hn := get_concat.mp hn
    · exact UInt32.le_refl _
    · exact UInt32.le_of_lt (UInt32.lt_of_le_of_lt (h.readers_le n reader hn) hlt)
  · intro m n x y hm hn hx hy
    obtain ⟨rfl, -⟩ | hm := get_concat.mp hm
    · obtain ⟨rfl, -⟩ | hn := get_concat.mp hn
      · rfl
      · exact absurd hy (hold n y hn)
    · exact absurd hx (hold m x hm)
  · intro n bs hn
    obtain ⟨-, heq⟩ | hn := get_concat.mp hn
    · cases heq
      exact hcarries
    · exact absurd rfl (hold n _ hn)

/-- A stream whose ids were read becomes the current one, or is left. -/
theorem Inv.streamIds {gop : Gop} (h : Inv t r) (ht : Shaped t) (hc : Counted t)
    (hqueue : r.queue = .streamIds recv gop :: queue) (hrecv : r.recv = some r') : Inv t r' := by
  have hpop := h.popped hqueue (fun _ _ _ _ _ ↦ rfl)
  obtain ⟨j, g', hg', rfl, hcarries⟩ := h.announced recv gop (by simp [hqueue])
  simp only [Receiver.recv, hqueue, Receiver.handle] at hrecv
  obtain hidle | ⟨i, g, k, rest, hreading⟩ := hpop.state
  · rw [hidle.gop] at hrecv
    cases hrecv
    exact ⟨hpop.fresh, hpop.announced, .inr ⟨j, g', 0, g'.packets, hidle.first hg' hcarries⟩⟩
  · have hgop : r.gop = some (gopOf i g) := hreading.gop
    simp only [hgop, decide_eq_true_eq] at hrecv
    split_ifs at hrecv with hlt
    · cases hrecv
      exact ⟨hpop.fresh, hpop.announced,
        .inr ⟨j, g', 0, g'.packets, hreading.newer ht hc hg' hlt hcarries⟩⟩
    · cases hrecv
      rwa [hgop] at hpop

/-- The codec packet of a stream is returned unless its generation was. -/
theorem Reading.codec (h : Reading t r i g 0 rest) (ht : Shaped t) (hc : Counted t)
    (hqueue : r.queue = .newPacket packet (gopOf i g).id :: queue) (hrecv : r.recv = some r') :
    Reading t r' i g 1 rest := by
  obtain rfl : .codec g.codec = packet := Option.some.inj (h.head hqueue)
  have hgen := hc.codecGen_toNat ht h.progress.gop
  simp only [Receiver.recv, hqueue, Receiver.handle, h.gop, unwrap, bind, Except.bind, if_true]
    at hrecv
  split_ifs at hrecv with heq
  · cases hrecv
    exact h.handled hqueue h.gop.symm rfl rfl (h.progress.codec_skipped (by rw [← heq, hgen]))
  · cases hrecv
    refine h.handled hqueue h.gop.symm rfl rfl ?_
    have hne : r.lastCodecGen.toNat ≠ g.codecGen :=
      fun h ↦ heq (UInt32.toNat_inj.mp (hgen.trans h.symm))
    have hreturned := h.progress.codec_returned (x := ⟨.codec g.codec, gopOf i g⟩) ht hne
      (by rw [Returned.codec?, hgen]) rfl rfl
    rwa [← hgen] at hreturned

/-- The config packet of a stream is returned unless its generation was. -/
theorem Reading.config (h : Reading t r i g 1 rest) (ht : Shaped t) (hc : Counted t)
    (hqueue : r.queue = .newPacket packet (gopOf i g).id :: queue) (hrecv : r.recv = some r') :
    Reading t r' i g 2 rest := by
  obtain rfl : .media g.config = packet := Option.some.inj (h.head hqueue)
  have hconfig := (ht.configs g.config (List.mem_of_getElem?
    (ht.configGen g (List.mem_of_getElem? h.progress.gop)).2)).1
  have hgen := hc.configGen_toNat ht h.progress.gop
  simp only [Receiver.recv, hqueue, Receiver.handle, h.gop, unwrap, bind, Except.bind, if_true,
    hconfig] at hrecv
  split_ifs at hrecv with heq
  · cases hrecv
    exact h.handled hqueue h.gop.symm rfl rfl (h.progress.config_skipped (by rw [← heq, hgen]))
  · cases hrecv
    refine h.handled hqueue h.gop.symm rfl rfl ?_
    have hne : r.lastConfigGen.toNat ≠ g.configGen :=
      fun h ↦ heq (UInt32.toNat_inj.mp (hgen.trans h.symm))
    have hreturned := h.progress.config_returned (x := ⟨.media g.config, gopOf i g⟩) ht hne rfl
      (by simp only [Returned.config?, hconfig, if_true, hgen])
      (by simp only [Returned.media?, hconfig, if_true])
    rwa [← hgen] at hreturned

theorem Reading.media (h : Reading t r i g (k + 2) rest) (ht : Shaped t) (hc : Counted t)
    (hqueue : r.queue = .newPacket packet (gopOf i g).id :: queue) (hrecv : r.recv = some r') :
    Reading t r' i g (k + 3) rest := by
  have hhead : (g.media.map AVPacket.media)[k]? = some packet := h.head hqueue
  rw [List.getElem?_map] at hhead
  obtain ⟨media, hmedia, rfl⟩ := Option.map_eq_some_iff.mp hhead
  have hconfig :=
    (ht.media g (List.mem_of_getElem? h.progress.gop) media (List.mem_of_getElem? hmedia)).1
  simp only [Receiver.recv, hqueue, Receiver.handle, h.gop, unwrap, bind, Except.bind, if_true,
    hconfig] at hrecv
  cases hrecv
  refine h.handled hqueue h.gop.symm rfl rfl (h.progress.media_returned ht hmedia rfl ?_ ?_)
  · simp [Returned.config?, hconfig]
  · simp [Returned.media?, hconfig, hc.id_toNat h.progress.gop]

theorem handle_newPacket {gopId : UInt32} {x : Option Returned}
    (h : r.handle (.newPacket packet gopId) = .ok (x, r')) :
    r'.queue = r.queue ∧ r'.idReaders = r.idReaders := by
  cases hgop : r.gop with
  | none =>
    simp only [Receiver.handle, hgop] at h
    cases h
  | some gop =>
    simp only [Receiver.handle, hgop, unwrap, bind, Except.bind] at h
    cases packet <;> simp only at h <;> split_ifs at h <;> cases h <;> exact ⟨rfl, rfl⟩

theorem recv_newPacket {gopId : UInt32} (hqueue : r.queue = .newPacket packet gopId :: queue)
    (hrecv : r.recv = some r') : r'.queue = queue ∧ r'.idReaders = r.idReaders := by
  simp only [Receiver.recv, hqueue] at hrecv
  split at hrecv
  · cases hrecv
  all_goals
    cases hrecv
    rename_i hhandle
    exact handle_newPacket hhandle

theorem Inv.newPacket {gopId : UInt32} (h : Inv t r) (ht : Shaped t) (hc : Counted t)
    (hqueue : r.queue = .newPacket packet gopId :: queue) (hrecv : r.recv = some r') :
    Inv t r' := by
  obtain hidle | ⟨i, g, k, rest, hreading⟩ := h.state
  · exact absurd (by simp [hqueue]) (hidle.queue packet gopId)
  by_cases hid : gopId = (gopOf i g).id
  · subst hid
    have hstate : ∃ k', Reading t r' i g k' rest := by
      match k with
      | 0 => exact ⟨1, hreading.codec ht hc hqueue hrecv⟩
      | 1 => exact ⟨2, hreading.config ht hc hqueue hrecv⟩
      | k + 2 => exact ⟨k + 3, hreading.media ht hc hqueue hrecv⟩
    obtain ⟨hqueue', hids⟩ := recv_newPacket hqueue hrecv
    have hmem : ∀ m ∈ r'.queue, m ∈ r.queue :=
      fun m hm ↦ hqueue ▸ List.mem_cons_of_mem _ (hqueue' ▸ hm)
    exact ⟨fun bs hbs ↦ h.fresh bs (hbs.imp (hmem _) (hids ▸ ·)),
      fun bs gop hbs ↦ h.announced bs gop (hmem _ hbs),
        .inr ⟨i, g, hstate.choose, rest, hstate.choose_spec⟩⟩
  · simp only [Receiver.recv, hqueue, Receiver.handle, hreading.gop, unwrap, bind, Except.bind,
      if_neg hid] at hrecv
    cases hrecv
    have hpop := h.popped hqueue (fun i' g' _ _ hreading' ↦ ?_)
    · rwa [hreading.gop] at hpop
    · rw [← Option.some.inj (hreading.gop.symm.trans hreading'.gop)]
      exact if_neg hid

theorem Inv.received (h : Inv t r) (ht : Shaped t) (hc : Counted t) (hrecv : r.recv = some r') :
    Inv t r' := by
  match hqueue : r.queue with
  | [] =>
    rw [Receiver.recv, hqueue] at hrecv
    cases hrecv
  | .newStream recv :: queue =>
    have hpop := h.newStream hqueue
    simp only [Receiver.recv, hqueue, Receiver.handle] at hrecv
    cases hrecv
    exact hpop
  | .streamIds recv gop :: queue => exact h.streamIds ht hc hqueue hrecv
  | .newPacket packet gopId :: queue => exact h.newPacket ht hc hqueue hrecv

theorem Inv.step {sender : Sender} {action : Action} (h : Inv t r) (hr : Refines t sender)
    (ht : Shaped t) (hc : Counted t) (hstep : step sender.streams r action = some r') :
    Inv t r' := by
  cases action with
  | accept number =>
    obtain ⟨stream, hstream, haccept⟩ := Option.bind_eq_some_iff.mp hstep
    exact h.accept hr hstream haccept
  | recv => exact h.received ht hc hstep
  | readIds task => exact h.readIds hstep
  | readPacket task => exact h.readPacket ht hstep
  | endIds task =>
    cases hstep
    exact h.endIds task
  | endPackets task => exact h.endPackets hstep

theorem Inv.faithful (h : Inv t r) : Faithful t r.returned := by
  obtain hidle | ⟨i, g, k, rest, hreading⟩ := h.state
  · rw [hidle.returned]
    exact ⟨.nil, by simp [mediaOf], .nil, .nil, by simp, by simp, by simp⟩
  · exact hreading.progress.faithful

/-- Whatever arrives, and in whichever order, what is returned is what was sent: the media packets
in the order of their groups of pictures and each group from its start on, every codec and config
packet once, and with a media packet those that were current when its group was opened. -/
theorem returned_faithful {packets : List AVPacket} {sender : Sender} {actions : List Action}
    (hsend : Sender.start.sendAll packets = .ok sender)
    (hpackets : ∀ packet ∈ packets, WellFormed packet) (hc : Counted (.ofPackets packets))
    (hrun : run (GopStream.step sender.streams) .start actions = some r) :
    Faithful (.ofPackets packets) r.returned := by
  have hr : Refines (.ofPackets packets) sender := Refines.start.sendAll hsend
  have ht : Shaped (.ofPackets packets) := Shaped.start.foldl hpackets
  exact (run_invariant (Inv.start _) (fun _ _ _ h hstep ↦ h.step hr ht hc hstep) hrun).faithful

def delivered (packets : List AVPacket) (actions : List Action) : Option (List Returned) :=
  match Sender.start.sendAll packets with
  | .error _ => none
  | .ok sender => (run (GopStream.step sender.streams) .start actions).map Receiver.returned

theorem delivered_some {packets : List AVPacket} {actions : List Action} {tr : List Returned}
    (h : delivered packets actions = some tr) :
    ∃ sender r, Sender.start.sendAll packets = .ok sender ∧
      run (GopStream.step sender.streams) .start actions = some r ∧ r.returned = tr := by
  rw [delivered] at h
  split at h
  · cases h
  · obtain ⟨r, hrun, hreturned⟩ := Option.map_eq_some_iff.mp h
    exact ⟨_, r, by assumption, hrun, hreturned⟩

def sampleMedia (isConfig : Bool) (size : UInt32) (payload : Bytes) : MediaPacket :=
  ⟨⟨isConfig, !isConfig, 0, size⟩, payload⟩

def samplePackets (config : Bytes) : List AVPacket :=
  [.codec ⟨⟨1, 0, 0⟩⟩, .media (sampleMedia true 0 config), .media (sampleMedia false 1 [7])]

def sampleRun : List Action :=
  [.accept 0, .recv, .readIds 0, .recv, .readPacket 0, .readPacket 0, .readPacket 0, .recv, .recv,
    .recv]

def twoGops : List AVPacket :=
  samplePackets [] ++ [.media ⟨⟨false, false, 0, 1⟩, [8]⟩, .media (sampleMedia false 1 [9])]

def twoGopsRun : List Action :=
  sampleRun ++ [.accept 1, .recv, .readIds 0, .readPacket 0, .recv, .recv, .readPacket 1,
    .readPacket 1, .readPacket 1, .recv, .recv, .recv]

def twoGopsReturned : List Returned :=
  (samplePackets []).map (⟨·, ⟨0, 1, 1⟩⟩) ++ [⟨.media (sampleMedia false 1 [9]), ⟨1, 1, 1⟩⟩]

theorem returned_faithful_keyframe :
    delivered twoGops twoGopsRun = some twoGopsReturned ∧
      Faithful (.ofPackets twoGops) twoGopsReturned := by
  have hdelivered : delivered twoGops twoGopsRun = some twoGopsReturned := by decide +kernel
  obtain ⟨sender, r, hsend, hrun, hreturned⟩ := delivered_some hdelivered
  refine ⟨hdelivered, ?_⟩
  rw [← hreturned]
  exact returned_faithful hsend (by decide) ⟨by decide, by decide, by decide⟩ hrun

/-- A config packet says that it is empty, and its payload is taken for a media packet. -/
theorem returned_payload :
    ∃ tr, delivered (samplePackets (128 :: .replicate 11 0)) sampleRun = some tr ∧
      mediaOf tr 0 = [⟨⟨false, false, 0, 0⟩, []⟩] ∧
      ¬ Faithful (.ofPackets (samplePackets (128 :: .replicate 11 0))) tr := by
  refine ⟨[⟨.codec ⟨⟨1, 0, 0⟩⟩, ⟨0, 1, 1⟩⟩, ⟨.media (sampleMedia true 0 []), ⟨0, 1, 1⟩⟩,
    ⟨.media ⟨⟨false, false, 0, 0⟩, []⟩, ⟨0, 1, 1⟩⟩], by decide, by decide, fun h ↦ ?_⟩
  have hmedia := h.media 0 _ rfl
  revert hmedia
  decide

end Kymux.GopStream
