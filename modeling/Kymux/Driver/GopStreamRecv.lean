import Kymux.Driver.GopStreamTrace

namespace Kymux.GopStream

open BigEndian Av Keyed

variable {t : Sent} {g g' : SentGop} {i j k : ℕ} {r r' : Receiver} {rest : List AVPacket}
  {msg : RecvMsg} {queue : List RecvMsg} {recv : Bytes} {packet : AVPacket} {task : ℕ}

def gopOf (i : ℕ) (g : SentGop) : Gop :=
  ⟨UInt32.ofNat i, UInt32.ofNat g.codecGen, UInt32.ofNat g.configGen⟩

def RecvMsg.packetOf (gopId : UInt32) : RecvMsg → Option AVPacket
  | .newPacket packet id => if id = gopId then some packet else none
  | _ => none

def queued (queue : List RecvMsg) (gopId : UInt32) : List AVPacket :=
  queue.filterMap (RecvMsg.packetOf gopId)

theorem queued_nil_of {gopId : UInt32}
    (h : ∀ packet id, .newPacket packet id ∈ queue → id ≠ gopId) :
    queued queue gopId = [] := by
  refine List.filterMap_eq_nil_iff.mpr (fun msg hmsg ↦ ?_)
  cases msg with
  | newPacket packet id => exact if_neg (h packet id hmsg)
  | newStream | streamIds => rfl

def Fresh (t : Sent) (recv : Bytes) : Prop :=
  ∃ i g bs, t.gops[i]? = some g ∧ recv = ids i g ++ bs ∧ Carries g.packets bs

theorem readStreamIds_ids (i : ℕ) (g : SentGop) (bs : Bytes) :
    readStreamIds (ids i g ++ bs) = .ok (.streamIds bs (gopOf i g)) := by
  have hofNat : ∀ n, UInt32.ofNat (decode (encode 4 n)) = UInt32.ofNat n := by
    intro n
    rw [decode_encode]
    apply UInt32.toNat_inj.mp
    simp
  have hlen : (ids i g).length = 12 := by simp [ids]
  have hfirst : (ids i g).take 4 = encode 4 i := by
    rw [ids, List.append_assoc]
    exact List.take_left' (length_encode 4 i)
  have hrest : (ids i g).drop 4 = encode 4 g.codecGen ++ encode 4 g.configGen := by
    rw [ids, List.append_assoc]
    exact List.drop_left' (length_encode 4 i)
  have hlast : (ids i g).drop 8 = encode 4 g.configGen := by
    rw [ids]
    exact List.drop_left' (by simp)
  simp only [readStreamIds, readExact_append hlen, bind, Except.bind, pure, Except.pure, hfirst,
    hrest, hlast, List.take_left' (length_encode 4 g.codecGen), hofNat]
  rfl

structure Idle (r : Receiver) : Prop where
  gop : r.gop = none
  returned : r.returned = []
  lastCodecGen : r.lastCodecGen = 0
  lastConfigGen : r.lastConfigGen = 0
  queue : ∀ packet id, .newPacket packet id ∉ r.queue
  readers : r.packetReaders = []

structure Reading (t : Sent) (r : Receiver) (i : ℕ) (g : SentGop) (k : ℕ) (rest : List AVPacket) :
    Prop where
  gop : r.gop = some (gopOf i g)
  progress : Progress t i g k r.lastCodecGen.toNat r.lastConfigGen.toNat r.returned
  packets : g.packets.drop k = queued r.queue (gopOf i g).id ++ rest
  queue_le : ∀ packet id, .newPacket packet id ∈ r.queue → id ≤ (gopOf i g).id
  readers_le : ∀ (n : ℕ) (reader : Reader), r.packetReaders[n]? = some reader →
    reader.gopId ≤ (gopOf i g).id
  unique : ∀ (m n : ℕ) (x y : Reader), r.packetReaders[m]? = some x → r.packetReaders[n]? = some y →
    x.gopId = (gopOf i g).id → y.gopId = (gopOf i g).id → m = n
  unread : ∀ (n : ℕ) (recv : Bytes), r.packetReaders[n]? = some ⟨some recv, (gopOf i g).id⟩ →
    Carries rest recv

structure Inv (t : Sent) (r : Receiver) : Prop where
  fresh : ∀ recv, .newStream recv ∈ r.queue ∨ recv ∈ r.idReaders → Fresh t recv
  announced : ∀ recv gop, .streamIds recv gop ∈ r.queue →
    ∃ i g, t.gops[i]? = some g ∧ gop = gopOf i g ∧ Carries g.packets recv
  state : Idle r ∨ ∃ i g k rest, Reading t r i g k rest

theorem Reading.congr (h : Reading t r i g k rest) (hgop : r'.gop = r.gop)
    (hcodec : r'.lastCodecGen = r.lastCodecGen) (hconfig : r'.lastConfigGen = r.lastConfigGen)
    (hreturned : r'.returned = r.returned)
    (hreaders : r'.packetReaders = r.packetReaders)
    (hqueue : ∀ packet id, .newPacket packet id ∈ r'.queue → .newPacket packet id ∈ r.queue)
    (hqueued : queued r'.queue (gopOf i g).id = queued r.queue (gopOf i g).id) :
    Reading t r' i g k rest where
  gop := hgop.trans h.gop
  progress := by
    rw [hcodec, hconfig, hreturned]
    exact h.progress
  packets := by
    rw [hqueued]
    exact h.packets
  queue_le packet id hmem := h.queue_le packet id (hqueue packet id hmem)
  readers_le := hreaders ▸ h.readers_le
  unique := hreaders ▸ h.unique
  unread := hreaders ▸ h.unread

theorem Idle.congr (h : Idle r) (hgop : r'.gop = r.gop) (hcodec : r'.lastCodecGen = r.lastCodecGen)
    (hconfig : r'.lastConfigGen = r.lastConfigGen) (hreturned : r'.returned = r.returned)
    (hreaders : r'.packetReaders = r.packetReaders)
    (hqueue : ∀ packet id, .newPacket packet id ∈ r'.queue → .newPacket packet id ∈ r.queue) :
    Idle r' where
  gop := hgop.trans h.gop
  returned := hreturned.trans h.returned
  lastCodecGen := hcodec.trans h.lastCodecGen
  lastConfigGen := hconfig.trans h.lastConfigGen
  queue packet id hmem := h.queue packet id (hqueue packet id hmem)
  readers := hreaders.trans h.readers

namespace Inv

theorem start (t : Sent) : Inv t .start where
  fresh := by simp [Receiver.start]
  announced := by simp [Receiver.start]
  state := .inl ⟨rfl, rfl, rfl, rfl, by simp [Receiver.start], rfl⟩

theorem congr_state (h : Inv t r) (hgop : r'.gop = r.gop)
    (hcodec : r'.lastCodecGen = r.lastCodecGen) (hconfig : r'.lastConfigGen = r.lastConfigGen)
    (hreturned : r'.returned = r.returned) (hreaders : r'.packetReaders = r.packetReaders)
    (hqueue : ∀ packet id, .newPacket packet id ∈ r'.queue → .newPacket packet id ∈ r.queue)
    (hqueued : ∀ id, queued r'.queue id = queued r.queue id) :
    Idle r' ∨ ∃ i g k rest, Reading t r' i g k rest := by
  obtain h | ⟨i, g, k, rest, h⟩ := h.state
  · exact .inl (h.congr hgop hcodec hconfig hreturned hreaders hqueue)
  · exact .inr ⟨i, g, k, rest, h.congr hgop hcodec hconfig hreturned hreaders hqueue (hqueued _)⟩

theorem push_some (h : r.push msg = some r') : r' = { r with queue := r.queue ++ [msg] } := by
  unfold Receiver.push at h
  split at h
  · cases h; rfl
  · cases h

theorem pushed (h : Inv t r) (hqueue : r'.queue = r.queue ++ [msg])
    (hmsg : (∃ recv, msg = .newStream recv ∧ Fresh t recv) ∨ ∃ recv i g,
      msg = .streamIds recv (gopOf i g) ∧
      t.gops[i]? = some g ∧ Carries g.packets recv)
    (hids : ∀ recv ∈ r'.idReaders, recv ∈ r.idReaders) (hgop : r'.gop = r.gop)
    (hcodec : r'.lastCodecGen = r.lastCodecGen) (hconfig : r'.lastConfigGen = r.lastConfigGen)
    (hreturned : r'.returned = r.returned) (hreaders : r'.packetReaders = r.packetReaders) :
    Inv t r' := by
  have hpacket : ∀ packet id, msg ≠ .newPacket packet id := by
    rintro packet id rfl
    obtain ⟨_, heq, -⟩ | ⟨_, _, _, heq, -⟩ := hmsg <;> cases heq
  constructor
  case fresh =>
    intro recv hrecv
    rw [hqueue] at hrecv
    obtain hmem | hmem := hrecv
    · obtain hmem | hmem := List.mem_append.mp hmem
      · exact h.fresh recv (.inl hmem)
      · obtain rfl := List.mem_singleton.mp hmem
        obtain ⟨_, heq, hfresh⟩ | ⟨_, _, _, heq, -⟩ := hmsg <;> cases heq
        exact hfresh
    · exact h.fresh recv (.inr (hids recv hmem))
  case announced =>
    intro recv gop hmem
    rw [hqueue] at hmem
    obtain hmem | hmem := List.mem_append.mp hmem
    · exact h.announced recv gop hmem
    · obtain rfl := List.mem_singleton.mp hmem
      obtain ⟨_, heq, -⟩ | ⟨_, i, g, heq, hg, hcarries⟩ := hmsg <;> cases heq
      exact ⟨i, g, hg, rfl, hcarries⟩
  case state =>
    refine h.congr_state hgop hcodec hconfig hreturned hreaders (fun packet id hmem ↦ ?_)
      (fun id ↦ ?_)
    · rw [hqueue] at hmem
      obtain hmem | hmem := List.mem_append.mp hmem
      · exact hmem
      · exact absurd (List.mem_singleton.mp hmem).symm (hpacket packet id)
    · rw [hqueue, queued, List.filterMap_append]
      cases msg with
      | newPacket packet id => exact absurd rfl (hpacket packet id)
      | newStream | streamIds => simp [RecvMsg.packetOf, queued]

end Inv

end Kymux.GopStream
