import Kymux.Driver.GopStreamRecv

namespace Kymux.GopStream

open BigEndian Av Keyed Machine

variable {t : Sent} {g g' : SentGop} {i j k : ℕ} {r r' : Receiver} {rest : List AVPacket}
  {msg : RecvMsg} {queue : List RecvMsg} {recv : Bytes} {packet : AVPacket} {task : ℕ}

structure Counted (t : Sent) : Prop where
  gops : t.gops.length < 2 ^ 32
  codecs : t.codecs.length < 2 ^ 32
  configs : t.configs.length < 2 ^ 32

theorem Counted.id_toNat (hc : Counted t) (hg : t.gops[i]? = some g) :
    (gopOf i g).id.toNat = i := by
  have := hc.gops
  have := (List.getElem?_eq_some_iff.mp hg).1
  rw [gopOf, UInt32.toNat_ofNat', Nat.mod_eq_of_lt (by omega)]

theorem Counted.codecGen_toNat (hc : Counted t) (ht : Shaped t) (hg : t.gops[i]? = some g) :
    (gopOf i g).codecGen.toNat = g.codecGen := by
  obtain ⟨hpos, hget⟩ := ht.codecGen g (List.mem_of_getElem? hg)
  have := Shaped.gen_le hpos hget
  have := hc.codecs
  rw [gopOf, UInt32.toNat_ofNat', Nat.mod_eq_of_lt (by omega)]

theorem Counted.configGen_toNat (hc : Counted t) (ht : Shaped t) (hg : t.gops[i]? = some g) :
    (gopOf i g).configGen.toNat = g.configGen := by
  obtain ⟨hpos, hget⟩ := ht.configGen g (List.mem_of_getElem? hg)
  have := Shaped.gen_le hpos hget
  have := hc.configs
  rw [gopOf, UInt32.toNat_ofNat', Nat.mod_eq_of_lt (by omega)]

theorem Reading.readers (h : Reading t r i g k rest) (hgop : r'.gop = r.gop)
    (hcodec : r'.lastCodecGen = r.lastCodecGen) (hconfig : r'.lastConfigGen = r.lastConfigGen)
    (hreturned : r'.returned = r.returned) (hqueue : r'.queue = r.queue)
    (hreaders : ∀ (n : ℕ) (reader : Reader), r'.packetReaders[n]? = some reader →
      ∃ old, r.packetReaders[n]? = some old ∧ old.gopId = reader.gopId ∧
        ∀ recv, reader.recv = some recv → old.recv = some recv) :
    Reading t r' i g k rest where
  gop := hgop.trans h.gop
  progress := by
    rw [hcodec, hconfig, hreturned]
    exact h.progress
  packets := by
    rw [hqueue]
    exact h.packets
  queue_le := by
    rw [hqueue]
    exact h.queue_le
  readers_le n reader hn := by
    obtain ⟨old, hold, hid, -⟩ := hreaders n reader hn
    exact hid ▸ h.readers_le n old hold
  unique m n x y hm hn hx hy := by
    obtain ⟨old, hold, hid, -⟩ := hreaders m x hm
    obtain ⟨old', hold', hid', -⟩ := hreaders n y hn
    exact h.unique m n old old' hold hold' (hid.trans hx) (hid'.trans hy)
  unread n recv hn := by
    obtain ⟨⟨old, gopId⟩, hold, hid, hrecv⟩ := hreaders n _ hn
    obtain rfl : old = some recv := hrecv recv rfl
    obtain rfl : gopId = (gopOf i g).id := hid
    exact h.unread n recv hold

theorem Inv.ended {reader : Reader} (h : Inv t r) (htask : r.packetReaders[task]? = some reader) :
    Inv t { r with packetReaders := r.packetReaders.set task ⟨none, reader.gopId⟩ } := by
  refine ⟨h.fresh, h.announced, ?_⟩
  obtain hidle | ⟨i, g, k, rest, hreading⟩ := h.state
  · rw [hidle.readers] at htask
    cases htask
  · refine .inr ⟨i, g, k, rest, hreading.readers rfl rfl rfl rfl rfl (fun n x hx ↦ ?_)⟩
    obtain ⟨rfl, rfl⟩ | ⟨-, hx⟩ := (get_set htask).mp hx
    · exact ⟨reader, htask, rfl, nofun⟩
    · exact ⟨x, hx, rfl, fun _ h ↦ h⟩

theorem Reading.handled (h : Reading t r i g k rest)
    (hqueue : r.queue = .newPacket packet (gopOf i g).id :: queue) (hgop : r'.gop = r.gop)
    (hqueue' : r'.queue = queue) (hreaders : r'.packetReaders = r.packetReaders)
    (hprogress : Progress t i g (k + 1) r'.lastCodecGen.toNat r'.lastConfigGen.toNat r'.returned) :
    Reading t r' i g (k + 1) rest where
  gop := hgop.trans h.gop
  progress := hprogress
  packets := by
    have hpackets := h.packets
    rw [hqueue, queued, List.filterMap_cons] at hpackets
    simp only [RecvMsg.packetOf, if_true, List.cons_append] at hpackets
    rw [hqueue', ← List.drop_drop, hpackets]
    rfl
  queue_le packet id hmem :=
    h.queue_le packet id (by rw [hqueue]; exact List.mem_cons_of_mem _ (hqueue' ▸ hmem))
  readers_le := hreaders ▸ h.readers_le
  unique := hreaders ▸ h.unique
  unread := hreaders ▸ h.unread

theorem Reading.head (h : Reading t r i g k rest)
    (hqueue : r.queue = .newPacket packet (gopOf i g).id :: queue) :
    g.packets[k]? = some packet := by
  have hpackets := h.packets
  rw [hqueue, queued, List.filterMap_cons] at hpackets
  simp only [RecvMsg.packetOf, if_true, List.cons_append] at hpackets
  rw [← List.head?_drop, hpackets]
  rfl

theorem queued_concat (queue : List RecvMsg) (packet : AVPacket) (id gopId : UInt32) :
    queued (queue ++ [.newPacket packet id]) gopId =
      queued queue gopId ++ if id = gopId then [packet] else [] := by
  rw [queued, List.filterMap_append]
  by_cases hid : id = gopId <;> simp [RecvMsg.packetOf, hid, queued]

/-- A reader passes a packet on. That of the current stream has one less to read. -/
theorem Reading.read {rest' : List AVPacket} {recv' : Bytes} {gopId : UInt32}
    (h : Reading t r i g k rest) (htask : r.packetReaders[task]? = some ⟨some recv, gopId⟩)
    (hcurrent : gopId = (gopOf i g).id → rest = packet :: rest' ∧ Carries rest' recv')
    (hother : gopId ≠ (gopOf i g).id → rest' = rest) :
    Reading t { r with
      packetReaders := r.packetReaders.set task ⟨some recv', gopId⟩
      queue := r.queue ++ [.newPacket packet gopId] } i g k rest' := by
  have hold : ∀ (n : ℕ) (x : Reader), (r.packetReaders.set task ⟨some recv', gopId⟩)[n]? = some x →
      ∃ y, r.packetReaders[n]? = some y ∧ y.gopId = x.gopId := by
    intro n x hn
    obtain ⟨rfl, rfl⟩ | ⟨-, hn⟩ := (get_set htask).mp hn
    · exact ⟨_, htask, rfl⟩
    · exact ⟨x, hn, rfl⟩
  refine ⟨h.gop, h.progress, ?_, ?_, ?_, ?_, ?_⟩
  · rw [queued_concat]
    split_ifs with hid
    · rw [List.append_assoc, List.singleton_append, ← (hcurrent hid).1]
      exact h.packets
    · rw [List.append_nil, hother hid]
      exact h.packets
  · intro p id hmem
    obtain hmem | hmem := List.mem_append.mp hmem
    · exact h.queue_le p id hmem
    · cases List.mem_singleton.mp hmem
      exact h.readers_le task _ htask
  · intro n x hn
    obtain ⟨y, hy, hid⟩ := hold n x hn
    exact hid ▸ h.readers_le n y hy
  · intro m n x y hm hn hx hy
    obtain ⟨x', hx', hid⟩ := hold m x hm
    obtain ⟨y', hy', hid'⟩ := hold n y hn
    exact h.unique m n x' y' hx' hy' (hid.trans hx) (hid'.trans hy)
  · intro n bs hn
    obtain ⟨-, heq⟩ | ⟨hne, hn⟩ := (get_set htask).mp hn
    · cases heq
      exact (hcurrent rfl).2
    -- There is one reader of the current stream.
    · have hid : gopId ≠ (gopOf i g).id := fun hid ↦ hne (h.unique n task _ _ hn htask rfl hid)
      rw [hother hid]
      exact h.unread n bs hn

theorem Inv.read {recv' : Bytes} {gopId : UInt32} (h : Inv t r) (ht : Shaped t)
    (htask : r.packetReaders[task]? = some ⟨some recv, gopId⟩)
    (hread : AVPacket.read recv = .ok (some packet, recv')) :
    Inv t { r with
      packetReaders := r.packetReaders.set task ⟨some recv', gopId⟩
      queue := r.queue ++ [.newPacket packet gopId] } := by
  refine ⟨?_, ?_, ?_⟩
  · rintro bs (hmem | hmem)
    · obtain hmem | hmem := List.mem_append.mp hmem
      · exact h.fresh bs (.inl hmem)
      · cases List.mem_singleton.mp hmem
    · exact h.fresh bs (.inr hmem)
  · intro bs gop hmem
    obtain hmem | hmem := List.mem_append.mp hmem
    · exact h.announced bs gop hmem
    · cases List.mem_singleton.mp hmem
  · obtain hidle | ⟨i, g, k, rest, hreading⟩ := h.state
    · rw [hidle.readers] at htask
      cases htask
    · refine .inr ⟨i, g, k, ?_⟩
      by_cases hid : gopId = (gopOf i g).id
      · subst hid
        have hcarries := hreading.unread task recv htask
        cases hcarries with
        | nil => cases hread
        | @cons p ps bs cs hwritten hcarries =>
          have hmem : p ∈ g.packets := by
            refine List.mem_of_mem_drop (i := k) ?_
            rw [hreading.packets]
            simp
          rw [hwritten.read (ht.wellFormed (List.mem_of_getElem? hreading.progress.gop) hmem)]
            at hread
          cases hread
          exact ⟨ps, hreading.read htask (fun _ ↦ ⟨rfl, hcarries⟩) (absurd rfl)⟩
      · exact ⟨rest, hreading.read htask (fun h ↦ absurd h hid) (fun _ ↦ rfl)⟩

theorem Inv.readPacket (h : Inv t r) (ht : Shaped t) (hstep : r.readPacket task = some r') :
    Inv t r' := by
  unfold Receiver.readPacket at hstep
  split at hstep
  · next recv gopId htask =>
    split at hstep
    · next packet recv' hread =>
      rw [Inv.push_some hstep]
      exact h.read ht htask hread
    · cases hstep
      exact h.ended htask
  · cases hstep

theorem Inv.endPackets (h : Inv t r) (hstep : r.endPackets task = some r') : Inv t r' := by
  unfold Receiver.endPackets at hstep
  split at hstep
  · next reader htask =>
    cases hstep
    exact h.ended htask
  · cases hstep

theorem Inv.endIds (h : Inv t r) (task : ℕ) :
    Inv t { r with idReaders := r.idReaders.eraseIdx task } where
  fresh bs hbs := h.fresh bs (hbs.imp_right List.mem_of_mem_eraseIdx)
  announced := h.announced
  state := h.congr_state rfl rfl rfl rfl rfl (fun _ _ hmem ↦ hmem) (fun _ ↦ rfl)

theorem Inv.readIds (h : Inv t r) (hstep : r.readIds task = some r') : Inv t r' := by
  unfold Receiver.readIds at hstep
  split at hstep
  · cases hstep
  · next recv htask =>
    obtain ⟨i, g, bs, hg, rfl, hcarries⟩ := h.fresh recv (.inr (List.mem_of_getElem? htask))
    rw [readStreamIds_ids] at hstep
    rw [Inv.push_some hstep]
    exact h.pushed rfl (.inr ⟨bs, i, g, rfl, hg, hcarries⟩)
      (fun _ hmem ↦ List.mem_of_mem_eraseIdx hmem)
      rfl rfl rfl rfl rfl

theorem Inv.accept {sender : Sender} {number : ℕ} {stream : Bytes} (h : Inv t r)
    (hr : Refines t sender) (hstream : sender.streams[number]? = some stream)
    (hstep : r.accept number stream = some r') :
    Inv t r' := by
  unfold Receiver.accept at hstep
  split at hstep
  · cases hstep
  · rw [Inv.push_some hstep]
    refine h.pushed rfl (.inl ⟨stream, rfl, ?_⟩) (fun _ hmem ↦ hmem) rfl rfl rfl rfl rfl
    have hlt := (List.getElem?_eq_some_iff.mp hstream).1
    obtain ⟨g, hg⟩ : ∃ g, t.gops[number]? = some g :=
      ⟨_, List.getElem?_eq_getElem (hr.length ▸ hlt)⟩
    obtain ⟨bs, hbs, hcarries⟩ := hr.streams number g hg
    exact ⟨number, g, bs, hg, Option.some.inj (hstream.symm.trans hbs), hcarries⟩

end Kymux.GopStream
