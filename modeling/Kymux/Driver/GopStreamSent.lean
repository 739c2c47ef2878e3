import Kymux.Driver.GopStream
import Kymux.Lib.Keyed
import Kymux.Types.AvStream

namespace Kymux.GopStream

open BigEndian Av

variable {packet : AVPacket} {ps : List AVPacket} {bs cs : Bytes} {s s' : Sender}

def WellFormed : AVPacket → Prop
  | .codec packet => packet.header.Tagged
  | .media packet => packet.header.size.toNat = packet.payload.length
  | .hole _ => True

instance : DecidablePred WellFormed
  | .codec packet => inferInstanceAs (Decidable (0 < packet.header.codec.toNat ∧ _))
  | .media packet => inferInstanceAs (Decidable (_ = packet.payload.length))
  | .hole _ => inferInstanceAs (Decidable True)

def Written : AVPacket → Bytes → Prop
  | .codec packet, bs => bs = packet.header.serialize
  | .media packet, bs =>
    ∃ header, packet.header.serialize = .ok header ∧ bs = header ++ packet.payload
  | .hole _, _ => False

theorem Written.read (hp : WellFormed packet) (h : Written packet bs) (rest : Bytes) :
    AVPacket.read (bs ++ rest) = .ok (some packet, rest) := by
  cases packet with
  | codec packet =>
    obtain rfl := h
    exact AVPacket.read_codec hp rest
  | media packet =>
    obtain ⟨header, hs, rfl⟩ := h
    exact AVPacket.read_media hs hp rest
  | hole packet => exact h.elim

inductive Carries : List AVPacket → Bytes → Prop
  | nil : Carries [] []
  | cons {packet packets bs rest} : Written packet bs → Carries packets rest →
    Carries (packet :: packets) (bs ++ rest)

theorem Carries.concat (h : Carries ps cs) (hp : Written packet bs) :
    Carries (ps ++ [packet]) (cs ++ bs) := by
  induction h with
  | nil =>
    have := Carries.cons hp .nil
    rwa [List.append_nil] at this
  | cons hq _ ih =>
    rw [List.append_assoc]
    exact .cons hq ih

/-- A group of pictures: the packets since a keyframe, with the codec and the config packet
that were current then, and their generations. -/
structure SentGop where
  codecGen : ℕ
  configGen : ℕ
  codec : CodecPacket
  config : MediaPacket
  media : List MediaPacket
deriving DecidableEq

def SentGop.packets (g : SentGop) : List AVPacket :=
  .codec g.codec :: .media g.config :: g.media.map .media

structure Sent where
  codecs : List CodecPacket
  configs : List MediaPacket
  gops : List SentGop
deriving DecidableEq

namespace Sent

def start : Sent := ⟨[], [], []⟩

def openGop (t : Sent) : Sent :=
  match t.codecs.getLast?, t.configs.getLast? with
  | some codec, some config =>
    { t with gops := t.gops ++ [⟨t.codecs.length, t.configs.length, codec, config, []⟩] }
  | _, _ => t

def addMedia (t : Sent) (packet : MediaPacket) : Sent :=
  match t.gops.getLast? with
  | none => t
  | some g => { t with gops := t.gops.dropLast ++ [{ g with media := g.media ++ [packet] }] }

def add (t : Sent) : AVPacket → Sent
  | .codec packet => { t with codecs := t.codecs ++ [packet] }
  | .media packet =>
    if packet.header.isConfig then { t with configs := t.configs ++ [packet] }
    else (if packet.header.isKey then t.openGop else t).addMedia packet
  | .hole _ => t

def ofPackets (packets : List AVPacket) : Sent := packets.foldl add start

end Sent

def ids (number : ℕ) (g : SentGop) : Bytes :=
  encode 4 number ++ encode 4 g.codecGen ++ encode 4 g.configGen

structure Refines (t : Sent) (s : Sender) : Prop where
  gopId : s.gopId = UInt32.ofNat t.gops.length
  codecGen : s.codecGen = UInt32.ofNat t.codecs.length
  codec : s.codecPacket = t.codecs.getLast?
  configGen : s.configGen = UInt32.ofNat t.configs.length
  config : s.configPacket = t.configs.getLast?
  length : s.streams.length = t.gops.length
  streams : ∀ (i : ℕ) (g : SentGop), t.gops[i]? = some g →
    ∃ bs, s.streams[i]? = some (ids i g ++ bs) ∧ Carries g.packets bs

theorem unwrap_ok {α : Type} {x : Option α} {a : α} (h : unwrap x = .ok a) : x = some a := by
  cases x with
  | none => cases h
  | some b => cases h; rfl

theorem encode_ofNat (n : ℕ) : encode 4 (UInt32.ofNat n).toNat = encode 4 n := by
  rw [UInt32.toNat_ofNat']
  exact encode_mod 4 n

namespace Refines

theorem start : Refines .start .start where
  gopId := rfl
  codecGen := rfl
  codec := rfl
  configGen := rfl
  config := rfl
  length := rfl
  streams _ _ h := by cases h

theorem newStream {t : Sent} (h : Refines t s) (hs : s.newStream = .ok s') :
    Refines t.openGop s' := by
  obtain ⟨codec, hcodec, hs⟩ := bind_ok hs
  obtain ⟨config, hconfig, hs⟩ := bind_ok hs
  obtain ⟨header, hheader, hs⟩ := bind_ok hs
  cases hs
  have hcodec' := h.codec.symm.trans (unwrap_ok hcodec)
  have hconfig' := h.config.symm.trans (unwrap_ok hconfig)
  have hopen : t.openGop = { t with
      gops := t.gops ++ [⟨t.codecs.length, t.configs.length, codec, config, []⟩] } := by
    simp only [Sent.openGop, hcodec', hconfig']
  rw [hopen]
  constructor
  case gopId => simp [h.gopId, UInt32.ofNat_add]
  case codecGen => exact h.codecGen
  case codec => exact h.codec
  case configGen => exact h.configGen
  case config => exact h.config
  case length => simp [h.length]
  case streams =>
    intro i g hg
    obtain ⟨rfl, rfl⟩ | hg := Keyed.get_concat.mp hg
    · refine ⟨codec.header.serialize ++ (header ++ config.payload), ?_, ?_⟩
      · refine Keyed.get_concat.mpr (.inl ⟨h.length.symm, ?_⟩)
        rw [h.gopId, h.codecGen, h.configGen, encode_ofNat, encode_ofNat, encode_ofNat, ids]
      · have hstart : Carries [.codec codec] codec.header.serialize := by
          simpa using Carries.cons (show Written (.codec codec) _ from rfl) .nil
        exact hstart.concat ⟨header, hheader, rfl⟩
    · obtain ⟨bs, hbs, hcarries⟩ := h.streams i g hg
      exact ⟨bs, Keyed.get_concat.mpr (.inr hbs), hcarries⟩

theorem write {t : Sent} {media : MediaPacket} (h : Refines t s) (hs : s.write media = .ok s') :
    Refines (t.addMedia media) s' := by
  have hlength := h.length
  cases hlast : s.streams.getLast? with
  | none =>
    have hnil : t.gops.getLast? = none := by
      rw [List.getLast?_eq_none_iff] at hlast ⊢
      rw [hlast] at hlength
      exact List.length_eq_zero_iff.mp hlength.symm
    simp only [Sender.write, hlast] at hs
    cases hs
    simpa only [Sent.addMedia, hnil] using h
  | some stream =>
    simp only [Sender.write, hlast] at hs
    obtain ⟨header, hheader, hs⟩ := bind_ok hs
    cases hs
    obtain ⟨init, hinit⟩ := List.getLast?_eq_some_iff.mp hlast
    obtain ⟨gs, g, hgops⟩ : ∃ gs g, t.gops = gs ++ [g] := by
      refine List.eq_nil_or_concat' _ |>.resolve_left (fun hnil ↦ ?_)
      rw [hnil, hinit] at hlength
      simp at hlength
    have hadd : t.addMedia media =
        { t with gops := gs ++ [{ g with media := g.media ++ [media] }] } := by
      simp [Sent.addMedia, hgops]
    rw [hadd]
    rw [hinit, hgops, List.length_append, List.length_append] at hlength
    constructor
    case gopId => simp [h.gopId, hgops]
    case codecGen => exact h.codecGen
    case codec => exact h.codec
    case configGen => exact h.configGen
    case config => exact h.config
    case length => simpa [hinit] using hlength
    case streams =>
      intro i g' hg'
      have hlen : init.length = gs.length := by simpa using hlength
      rw [hinit, List.dropLast_concat]
      obtain ⟨rfl, rfl⟩ | hg' := Keyed.get_concat.mp hg'
      · obtain ⟨bs, hbs, hcarries⟩ := h.streams gs.length g (by simp [hgops])
        obtain rfl : stream = ids gs.length g ++ bs := by
          rw [hinit, ← hlen] at hbs
          simpa [hlen] using hbs
        refine ⟨bs ++ (header ++ media.payload), ?_, ?_⟩
        · rw [← hlen, List.getElem?_concat_length, List.append_assoc]
          rfl
        · have hpackets : ({ g with media := g.media ++ [media] } : SentGop).packets =
              g.packets ++ [.media media] := by simp [SentGop.packets]
          rw [hpackets]
          exact hcarries.concat ⟨header, hheader, rfl⟩
      · have hlt : i < init.length := hlen ▸ (List.getElem?_eq_some_iff.mp hg').1
        obtain ⟨bs, hbs, hcarries⟩ :=
          h.streams i g' (by rw [hgops, Keyed.get_concat]; exact .inr hg')
        refine ⟨bs, ?_, hcarries⟩
        rw [hinit, List.getElem?_append_left hlt] at hbs
        rw [List.getElem?_append_left hlt, hbs]

theorem send {t : Sent} (h : Refines t s) (hs : s.send packet = .ok s') :
    Refines (t.add packet) s' := by
  cases packet with
  | codec packet =>
    cases hs
    exact ⟨h.gopId, by simp [Sent.add, h.codecGen, UInt32.ofNat_add], by simp [Sent.add],
      h.configGen, h.config, h.length, h.streams⟩
  | hole packet => cases hs
  | media media =>
    simp only [Sender.send] at hs
    by_cases hconfig : media.header.isConfig = true
    · rw [if_pos hconfig] at hs
      cases hs
      simp only [Sent.add, if_pos hconfig]
      exact ⟨h.gopId, h.codecGen,
        h.codec, by simp [h.configGen, UInt32.ofNat_add], by simp, h.length, h.streams⟩
    · rw [if_neg hconfig] at hs
      simp only [Sent.add, if_neg hconfig]
      by_cases hkey : media.header.isKey = true
      · rw [if_pos hkey] at hs ⊢
        obtain ⟨s₁, hnew, hwrite⟩ := bind_ok hs
        exact (h.newStream hnew).write hwrite
      · rw [if_neg hkey] at hs ⊢
        exact h.write hs

theorem sendAll {t : Sent} (h : Refines t s) (hs : s.sendAll ps = .ok s') :
    Refines (ps.foldl Sent.add t) s' := by
  induction ps generalizing s t with
  | nil =>
    cases hs
    exact h
  | cons packet packets ih =>
    obtain ⟨s₁, hsend, hrest⟩ := bind_ok hs
    exact ih (h.send hsend) hrest

end Refines

structure Shaped (t : Sent) : Prop where
  codecs : ∀ packet ∈ t.codecs, packet.header.Tagged
  configs : ∀ packet ∈ t.configs, packet.header.isConfig = true ∧ WellFormed (.media packet)
  codecGen : ∀ g ∈ t.gops, 0 < g.codecGen ∧ t.codecs[g.codecGen - 1]? = some g.codec
  configGen : ∀ g ∈ t.gops, 0 < g.configGen ∧ t.configs[g.configGen - 1]? = some g.config
  media : ∀ g ∈ t.gops, ∀ packet ∈ g.media,
    packet.header.isConfig = false ∧ WellFormed (.media packet)
  ordered : t.gops.Pairwise (fun g h ↦ g.codecGen ≤ h.codecGen ∧ g.configGen ≤ h.configGen)

namespace Shaped

variable {t : Sent} {g : SentGop}

theorem start : Shaped .start :=
  ⟨by simp [Sent.start], by simp [Sent.start], by simp [Sent.start], by simp [Sent.start],
    by simp [Sent.start], .nil⟩

theorem wellFormed (h : Shaped t) (hg : g ∈ t.gops) (hp : packet ∈ g.packets) :
    WellFormed packet := by
  obtain rfl | hp := List.mem_cons.mp hp
  · exact h.codecs _ (List.mem_of_getElem? (h.codecGen g hg).2)
  obtain rfl | hp := List.mem_cons.mp hp
  · exact (h.configs _ (List.mem_of_getElem? (h.configGen g hg).2)).2
  · obtain ⟨media, hmedia, rfl⟩ := List.mem_map.mp hp
    exact (h.media g hg media hmedia).2

theorem gen_le {α : Type} {l : List α} {n : ℕ} {x : α} (hn : 0 < n) (h : l[n - 1]? = some x) :
    n ≤ l.length := by
  have := (List.getElem?_eq_some_iff.mp h).1
  omega

/-- A codec or config packet comes, and the groups of pictures stay. -/
theorem append (h : Shaped t) (codecs : List CodecPacket) (configs : List MediaPacket)
    (hcodecs : ∀ packet ∈ codecs, packet.header.Tagged)
    (hconfigs : ∀ packet ∈ configs, packet.header.isConfig = true ∧ WellFormed (.media packet)) :
    Shaped { t with codecs := t.codecs ++ codecs, configs := t.configs ++ configs } where
  codecs packet hp := (List.mem_append.mp hp).elim (h.codecs packet) (hcodecs packet)
  configs packet hp := (List.mem_append.mp hp).elim (h.configs packet) (hconfigs packet)
  codecGen g hg := by
    obtain ⟨hpos, hget⟩ := h.codecGen g hg
    exact ⟨hpos, (List.getElem?_append_left (List.getElem?_eq_some_iff.mp hget).1).trans hget⟩
  configGen g hg := by
    obtain ⟨hpos, hget⟩ := h.configGen g hg
    exact ⟨hpos, (List.getElem?_append_left (List.getElem?_eq_some_iff.mp hget).1).trans hget⟩
  media := h.media
  ordered := h.ordered

/-- The last group of pictures is new, or has a further packet. -/
theorem concat (h : Shaped t) {gs : List SentGop} (hgs : ∀ g ∈ gs, g ∈ t.gops)
    (hordered : gs.Pairwise (fun g h ↦ g.codecGen ≤ h.codecGen ∧ g.configGen ≤ h.configGen))
    (hcodec : 0 < g.codecGen ∧ t.codecs[g.codecGen - 1]? = some g.codec)
    (hconfig : 0 < g.configGen ∧ t.configs[g.configGen - 1]? = some g.config)
    (hmedia : ∀ packet ∈ g.media, packet.header.isConfig = false ∧ WellFormed (.media packet))
    (hlast : ∀ g' ∈ gs, g'.codecGen ≤ g.codecGen ∧ g'.configGen ≤ g.configGen) :
    Shaped { t with gops := gs ++ [g] } where
  codecs := h.codecs
  configs := h.configs
  codecGen := by simpa [or_imp, forall_and, hcodec] using fun g hg ↦ h.codecGen g (hgs g hg)
  configGen := by simpa [or_imp, forall_and, hconfig] using fun g hg ↦ h.configGen g (hgs g hg)
  media g' hg' := by
    obtain hg' | hg' := List.mem_append.mp hg'
    · exact h.media g' (hgs g' hg')
    · obtain rfl := List.mem_singleton.mp hg'
      exact hmedia
  ordered := by
    refine List.pairwise_append.mpr
      ⟨hordered, List.pairwise_singleton _ _, fun g' hg' g'' hg'' ↦ ?_⟩
    obtain rfl := List.mem_singleton.mp hg''
    exact hlast g' hg'

theorem gen_of_getLast? {α : Type} {l : List α} {x : α} (h : l.getLast? = some x) :
    0 < l.length ∧ l[l.length - 1]? = some x := by
  rw [List.getLast?_eq_getElem?] at h
  refine ⟨?_, h⟩
  have := (List.getElem?_eq_some_iff.mp h).1
  omega

theorem openGop (h : Shaped t) : Shaped t.openGop := by
  unfold Sent.openGop
  split
  · next codec config hcodec hconfig =>
    refine h.concat (fun _ hg ↦ hg) h.ordered (gen_of_getLast? hcodec) (gen_of_getLast? hconfig)
      (by simp) (fun g hg ↦ ?_)
    obtain ⟨hpos, hget⟩ := h.codecGen g hg
    obtain ⟨hpos', hget'⟩ := h.configGen g hg
    exact ⟨gen_le hpos hget, gen_le hpos' hget'⟩
  · exact h

theorem addMedia {media : MediaPacket} (h : Shaped t) (hconfig : media.header.isConfig = false)
    (hmedia : WellFormed (.media media)) : Shaped (t.addMedia media) := by
  unfold Sent.addMedia
  split
  · exact h
  · next g hlast =>
    obtain ⟨gs, hgops⟩ := List.getLast?_eq_some_iff.mp hlast
    have hg : g ∈ t.gops := by simp [hgops]
    have hordered := h.ordered
    rw [hgops, List.pairwise_append] at hordered
    rw [hgops, List.dropLast_concat]
    refine h.concat (fun g hg ↦ by simp [hgops, hg]) hordered.1 (h.codecGen g hg)
      (h.configGen g hg) (fun packet hp ↦ ?_) (fun g' hg' ↦ hordered.2.2 g' hg' g (by simp))
    obtain hp | hp := List.mem_append.mp hp
    · exact h.media g hg packet hp
    · obtain rfl := List.mem_singleton.mp hp
      exact ⟨hconfig, hmedia⟩

theorem add (h : Shaped t) (hp : WellFormed packet) : Shaped (t.add packet) := by
  cases packet with
  | codec packet =>
    have hcodec : ∀ p ∈ [packet], p.header.Tagged := by
      intro p hmem
      obtain rfl := List.mem_singleton.mp hmem
      exact hp
    have := h.append [packet] [] hcodec (by simp)
    rw [List.append_nil] at this
    exact this
  | hole packet => exact h
  | media media =>
    simp only [Sent.add]
    by_cases hconfig : media.header.isConfig = true
    · rw [if_pos hconfig]
      have := h.append [] [media] (by simp) (by simpa using ⟨hconfig, hp⟩)
      simpa only [List.append_nil] using this
    · rw [if_neg hconfig]
      have hconfig' : media.header.isConfig = false := by simpa using hconfig
      split_ifs
      · exact h.openGop.addMedia hconfig' hp
      · exact h.addMedia hconfig' hp

theorem foldl (h : Shaped t) (hp : ∀ packet ∈ ps, WellFormed packet) :
    Shaped (ps.foldl Sent.add t) := by
  induction ps generalizing t with
  | nil => exact h
  | cons packet packets ih =>
    exact ih (h.add (hp packet List.mem_cons_self))
      (fun packet' hp' ↦ hp packet' (List.mem_cons_of_mem _ hp'))

end Shaped

end Kymux.GopStream
