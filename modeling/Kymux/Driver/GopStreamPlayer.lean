import Kymux.Driver.GopStreamTrace

namespace Kymux.GopStream

open Av

structure Session where
  gop : Gop
  packets : List AVPacket

structure Player where
  returned : List Returned
  lastCodecGen : UInt32
  lastConfigGen : UInt32

namespace Player

def start : Player := ⟨[], 0, 0⟩

/-- A codec or config packet is passed on where its number is another than the last one. -/
def take (p : Player) (gop : Gop) (packet : AVPacket) : Player :=
  match packet with
  | .codec _ =>
    if gop.codecGen = p.lastCodecGen then p
    else { p with returned := p.returned ++ [⟨packet, gop⟩], lastCodecGen := gop.codecGen }
  | .media media =>
    if media.header.isConfig then
      if gop.configGen = p.lastConfigGen then p
      else { p with returned := p.returned ++ [⟨packet, gop⟩], lastConfigGen := gop.configGen }
    else { p with returned := p.returned ++ [⟨packet, gop⟩] }
  | .hole _ => p

def play (p : Player) (s : Session) : Player :=
  s.packets.foldl (fun p packet ↦ p.take s.gop packet) p

def playAll (sessions : List Session) : Player := sessions.foldl play start

theorem play_concat (p : Player) (gop : Gop) (ps : List AVPacket) (packet : AVPacket) :
    p.play ⟨gop, ps ++ [packet]⟩ = (p.play ⟨gop, ps⟩).take gop packet := by
  simp [play]

theorem playAll_concat (sessions : List Session) (s : Session) :
    playAll (sessions ++ [s]) = (playAll sessions).play s := by
  simp [playAll]

end Player

structure Alternates {α : Type} (f : Returned → Option (ℕ × α)) (last : UInt32)
    (tr : List Returned) :
    Prop where
  chain : (0 :: (tr.filterMap f).map Prod.fst).IsChain (· ≠ ·)
  last : (0 :: (tr.filterMap f).map Prod.fst).getLast? = some last.toNat

namespace Alternates

variable {α : Type} {f : Returned → Option (ℕ × α)} {last gen : UInt32} {tr : List Returned}
  {x : Returned} {a : α}

theorem skipped (h : Alternates f last tr) (hx : f x = none) : Alternates f last (tr ++ [x]) := by
  have htr : (tr ++ [x]).filterMap f = tr.filterMap f := by simp [hx]
  refine ⟨?_, ?_⟩ <;> rw [htr]
  · exact h.chain
  · exact h.last

theorem returned (h : Alternates f last tr) (hx : f x = some (gen.toNat, a)) (hne : gen ≠ last) :
    Alternates f gen (tr ++ [x]) := by
  have htr : 0 :: ((tr ++ [x]).filterMap f).map Prod.fst =
      (0 :: (tr.filterMap f).map Prod.fst) ++ [gen.toNat] := by
    simp [hx]
  refine ⟨?_, ?_⟩ <;> rw [htr]
  · refine List.isChain_append.mpr ⟨h.chain, List.isChain_singleton _, ?_⟩
    intro y hy z hz
    rw [h.last] at hy
    cases hy
    cases hz
    exact fun heq ↦ hne (UInt32.toNat_inj.mp heq.symm)
  · exact List.getLast?_concat

end Alternates

namespace Player

structure Told (p : Player) : Prop where
  codecs : Alternates Returned.codec? p.lastCodecGen p.returned
  configs : Alternates Returned.config? p.lastConfigGen p.returned

theorem Told.take {p : Player} (h : p.Told) (gop : Gop) (packet : AVPacket) :
    (p.take gop packet).Told := by
  cases packet with
  | codec codec =>
    simp only [Player.take]
    split_ifs with heq
    · exact h
    · exact ⟨h.codecs.returned rfl heq, h.configs.skipped rfl⟩
  | media media =>
    cases hconfig : media.header.isConfig with
    | true =>
      simp only [Player.take, hconfig, if_true]
      split_ifs with heq
      · exact h
      · have hx : Returned.config? ⟨.media media, gop⟩ = some (gop.configGen.toNat, media) := by
          simp [Returned.config?, hconfig]
        exact ⟨h.codecs.skipped rfl, h.configs.returned hx heq⟩
    | false =>
      simp only [Player.take, hconfig, Bool.false_eq_true, if_false]
      exact ⟨h.codecs.skipped rfl, h.configs.skipped (by simp [Returned.config?, hconfig])⟩
  | hole hole => exact h

theorem Told.play {p : Player} (h : p.Told) (gop : Gop) (ps : List AVPacket) :
    (p.play ⟨gop, ps⟩).Told := by
  induction ps using List.reverseRecOn with
  | nil => exact h
  | append_singleton ps packet ih =>
    rw [play_concat]
    exact ih.take gop packet

theorem told_playAll (sessions : List Session) : (playAll sessions).Told := by
  induction sessions using List.reverseRecOn with
  | nil => exact ⟨⟨List.isChain_singleton _, rfl⟩, ⟨List.isChain_singleton _, rfl⟩⟩
  | append_singleton sessions s ih =>
    rw [playAll_concat]
    exact ih.play s.gop s.packets

theorem take_returned (p : Player) (gop : Gop) (packet : AVPacket) :
    (p.take gop packet).returned = p.returned ∨
      (p.take gop packet).returned = p.returned ++ [⟨packet, gop⟩] := by
  unfold take
  split
  · split_ifs <;> simp
  · split_ifs <;> simp
  · exact .inl rfl

theorem play_returned (p : Player) (gop : Gop) (ps : List AVPacket) :
    ∃ xs, (p.play ⟨gop, ps⟩).returned = p.returned ++ xs ∧ ∀ x ∈ xs, x.gop = gop := by
  induction ps using List.reverseRecOn with
  | nil => exact ⟨[], by simp [play], by simp⟩
  | append_singleton ps packet ih =>
    obtain ⟨xs, hxs, hgop⟩ := ih
    rw [play_concat]
    obtain heq | heq := (p.play ⟨gop, ps⟩).take_returned gop packet
    · exact ⟨xs, heq.trans hxs, hgop⟩
    · refine ⟨xs ++ [⟨packet, gop⟩], by rw [heq, hxs, List.append_assoc], fun x hx ↦ ?_⟩
      obtain hx | hx := List.mem_append.mp hx
      · exact hgop x hx
      · rw [List.mem_singleton.mp hx]

theorem playAll_ordered (sessions : List Session) (h : (sessions.map (·.gop.id)).Pairwise (· < ·)) :
    ((playAll sessions).returned.map (·.gop.id)).Pairwise (· ≤ ·) ∧
      ∀ x ∈ (playAll sessions).returned, ∃ s ∈ sessions, x.gop = s.gop := by
  induction sessions using List.reverseRecOn with
  | nil => exact ⟨.nil, fun x hx ↦ by cases hx⟩
  | append_singleton sessions s ih =>
    rw [List.map_append, List.pairwise_append] at h
    obtain ⟨hsessions, -, hlast⟩ := h
    obtain ⟨hordered, hfrom⟩ := ih hsessions
    obtain ⟨xs, hxs, hgop⟩ := (playAll sessions).play_returned s.gop s.packets
    rw [playAll_concat, hxs]
    refine ⟨?_, fun x hx ↦ ?_⟩
    · rw [List.map_append, List.pairwise_append]
      refine ⟨hordered, List.pairwise_map.mpr ?_, ?_⟩
      · exact List.pairwise_of_forall_mem_list (fun x hx y hy ↦ by
          rw [hgop x hx, hgop y hy]
          exact UInt32.le_refl _)
      · intro i hi j hj
        obtain ⟨x, hx, rfl⟩ := List.mem_map.mp hi
        obtain ⟨y, hy, rfl⟩ := List.mem_map.mp hj
        obtain ⟨s', hs', heq⟩ := hfrom x hx
        rw [heq, hgop y hy]
        exact UInt32.le_of_lt (hlast _ (List.mem_map_of_mem hs') _ (by simp))
    · obtain hx | hx := List.mem_append.mp hx
      · obtain ⟨s', hs', heq⟩ := hfrom x hx
        exact ⟨s', List.mem_append_left _ hs', heq⟩
      · exact ⟨s, by simp, hgop x hx⟩

end Player

end Kymux.GopStream
