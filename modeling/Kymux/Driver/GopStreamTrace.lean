import Kymux.Driver.GopStreamSent
import Kymux.Lib.Generations

namespace Kymux.GopStream

open Av Generations

variable {t : Sent} {g g' : SentGop} {i j k : ℕ} {tr : List Returned} {x : Returned}
  {lastCodec lastConfig : ℕ}

namespace Returned

def codec? (x : Returned) : Option (ℕ × CodecPacket) :=
  match x.packet with
  | .codec packet => some (x.gop.codecGen.toNat, packet)
  | _ => none

def config? (x : Returned) : Option (ℕ × MediaPacket) :=
  match x.packet with
  | .media packet => if packet.header.isConfig then some (x.gop.configGen.toNat, packet) else none
  | _ => none

def media? (x : Returned) : Option (ℕ × MediaPacket) :=
  match x.packet with
  | .media packet => if packet.header.isConfig then none else some (x.gop.id.toNat, packet)
  | _ => none

end Returned

def mediaOf (tr : List Returned) (i : ℕ) : List MediaPacket :=
  ((tr.filterMap Returned.media?).filter (fun x ↦ x.1 = i)).map Prod.snd

def Current (t : Sent) (tr : List Returned) (i : ℕ) : Prop :=
  ∃ g, t.gops[i]? = some g ∧
    (tr.filterMap Returned.codec?).getLast?.map Prod.snd = some g.codec ∧
    (tr.filterMap Returned.config?).getLast?.map Prod.snd = some g.config

structure Faithful (t : Sent) (tr : List Returned) : Prop where
  ordered : (tr.filterMap Returned.media?).Pairwise (fun x y ↦ x.1 ≤ y.1)
  media : ∀ i g, t.gops[i]? = some g → mediaOf tr i <+: g.media
  codecs : (tr.filterMap Returned.codec?).Pairwise (fun x y ↦ x.1 < y.1)
  configs : (tr.filterMap Returned.config?).Pairwise (fun x y ↦ x.1 < y.1)
  codec_sent : ∀ x ∈ tr.filterMap Returned.codec?, t.codecs[x.1 - 1]? = some x.2
  config_sent : ∀ x ∈ tr.filterMap Returned.config?, t.configs[x.1 - 1]? = some x.2
  current : ∀ pre x post, tr = pre ++ x :: post → ∀ i packet, x.media? = some (i, packet) →
    Current t pre i

structure Progress (t : Sent) (i : ℕ) (g : SentGop) (k lastCodec lastConfig : ℕ)
    (tr : List Returned) : Prop where
  gop : t.gops[i]? = some g
  codecs : Latest (fun n ↦ t.codecs[n - 1]?) lastCodec (tr.filterMap Returned.codec?)
  configs : Latest (fun n ↦ t.configs[n - 1]?) lastConfig (tr.filterMap Returned.config?)
  codec_le : lastCodec ≤ g.codecGen
  config_le : lastConfig ≤ g.configGen
  codec_done : 1 ≤ k → lastCodec = g.codecGen
  config_done : 2 ≤ k → lastConfig = g.configGen
  ordered : (tr.filterMap Returned.media?).Pairwise (fun x y ↦ x.1 ≤ y.1)
  media_le : ∀ x ∈ tr.filterMap Returned.media?, x.1 ≤ i
  media_done : mediaOf tr i = g.media.take (k - 2)
  media : ∀ j g', t.gops[j]? = some g' → mediaOf tr j <+: g'.media
  current : ∀ pre x post, tr = pre ++ x :: post → ∀ i packet, x.media? = some (i, packet) →
    Current t pre i

theorem mediaOf_concat_none (h : x.media? = none) (i : ℕ) :
    mediaOf (tr ++ [x]) i = mediaOf tr i := by
  simp [mediaOf, h]

theorem mediaOf_concat_some {packet : MediaPacket} (h : x.media? = some (j, packet)) (i : ℕ) :
    mediaOf (tr ++ [x]) i = mediaOf tr i ++ if j = i then [packet] else [] := by
  by_cases hj : j = i <;> simp [mediaOf, h, hj]

theorem filterMap_concat_none {β : Type} {f : Returned → Option β} (h : f x = none) :
    (tr ++ [x]).filterMap f = tr.filterMap f := by
  simp [h]

theorem filterMap_concat_some {β : Type} {f : Returned → Option β} {b : β} (h : f x = some b) :
    (tr ++ [x]).filterMap f = tr.filterMap f ++ [b] := by
  simp [h]

namespace Progress

theorem faithful (h : Progress t i g k lastCodec lastConfig tr) : Faithful t tr :=
  ⟨h.ordered, h.media, h.codecs.increasing, h.configs.increasing, h.codecs.valued, h.configs.valued,
    h.current⟩

theorem first (hg : t.gops[i]? = some g) : Progress t i g 0 0 0 [] where
  gop := hg
  codecs := .nil
  configs := .nil
  codec_le := Nat.zero_le _
  config_le := Nat.zero_le _
  codec_done h := by cases h
  config_done h := by cases h
  ordered := .nil
  media_le := by simp
  media_done := by simp [mediaOf]
  media _ _ _ := by simp [mediaOf]
  current _ _ _ h := by simp at h

theorem newer (h : Progress t i g k lastCodec lastConfig tr) (ht : Shaped t) (hij : i < j)
    (hg' : t.gops[j]? = some g') : Progress t j g' 0 lastCodec lastConfig tr := by
  have hle : g.codecGen ≤ g'.codecGen ∧ g.configGen ≤ g'.configGen := by
    obtain ⟨hi, rfl⟩ := List.getElem?_eq_some_iff.mp h.gop
    obtain ⟨hj, rfl⟩ := List.getElem?_eq_some_iff.mp hg'
    exact List.pairwise_iff_getElem.mp ht.ordered i j hi hj hij
  have hnone : mediaOf tr j = [] := by
    rw [mediaOf, List.map_eq_nil_iff, List.filter_eq_nil_iff]
    intro x hx
    have := h.media_le x hx
    simp only [decide_eq_true_eq]
    omega
  exact {
    gop := hg'
    codecs := h.codecs
    configs := h.configs
    codec_le := h.codec_le.trans hle.1
    config_le := h.config_le.trans hle.2
    codec_done := by simp
    config_done := by simp
    ordered := h.ordered
    media_le := fun x hx ↦ (h.media_le x hx).trans hij.le
    media_done := by simp [hnone]
    media := h.media
    current := h.current }

theorem current_concat (h : Progress t i g k lastCodec lastConfig tr)
    (hx : ∀ i packet, x.media? = some (i, packet) → Current t tr i) :
    ∀ pre y post, tr ++ [x] = pre ++ y :: post → ∀ i packet, y.media? = some (i, packet) →
      Current t pre i := by
  intro pre y post heq
  obtain rfl | ⟨post, z, rfl⟩ := List.eq_nil_or_concat' post
  · obtain ⟨rfl, hxy⟩ := List.append_inj' heq rfl
    cases hxy
    exact hx
  · rw [← List.cons_append, ← List.append_assoc] at heq
    obtain ⟨htr, -⟩ := List.append_inj' heq rfl
    exact h.current pre y post htr

theorem codec_skipped (h : Progress t i g 0 lastCodec lastConfig tr)
    (heq : lastCodec = g.codecGen) :
    Progress t i g 1 lastCodec lastConfig tr :=
  { h with codec_done := fun _ ↦ heq, config_done := by simp }

theorem concat_other {k' codec' config' : ℕ} (h : Progress t i g k lastCodec lastConfig tr)
    (hmedia : x.media? = none) (hk : k' - 2 = k - 2)
    (codecs : Latest (fun n ↦ t.codecs[n - 1]?) codec' ((tr ++ [x]).filterMap Returned.codec?))
    (configs : Latest (fun n ↦ t.configs[n - 1]?) config' ((tr ++ [x]).filterMap Returned.config?))
    (codec_le : codec' ≤ g.codecGen) (config_le : config' ≤ g.configGen)
    (codec_done : 1 ≤ k' → codec' = g.codecGen) (config_done : 2 ≤ k' → config' = g.configGen) :
    Progress t i g k' codec' config' (tr ++ [x]) where
  gop := h.gop
  codecs := codecs
  configs := configs
  codec_le := codec_le
  config_le := config_le
  codec_done := codec_done
  config_done := config_done
  ordered := by
    rw [filterMap_concat_none hmedia]
    exact h.ordered
  media_le := by
    rw [filterMap_concat_none hmedia]
    exact h.media_le
  media_done := by
    rw [mediaOf_concat_none hmedia, hk]
    exact h.media_done
  media j g' hg' := by
    rw [mediaOf_concat_none hmedia]
    exact h.media j g' hg'
  current := h.current_concat (by simp [hmedia])

theorem codec_returned (h : Progress t i g 0 lastCodec lastConfig tr) (ht : Shaped t)
    (hne : lastCodec ≠ g.codecGen) (hcodec : x.codec? = some (g.codecGen, g.codec))
    (hconfig : x.config? = none) (hmedia : x.media? = none) :
    Progress t i g 1 g.codecGen lastConfig (tr ++ [x]) := by
  refine h.concat_other hmedia rfl ?_ ?_ le_rfl h.config_le (fun _ ↦ rfl) (by simp)
  · rw [filterMap_concat_some hcodec]
    exact h.codecs.concat (lt_of_le_of_ne h.codec_le hne)
      (ht.codecGen g (List.mem_of_getElem? h.gop)).2
  · rw [filterMap_concat_none hconfig]
    exact h.configs

theorem config_skipped (h : Progress t i g 1 lastCodec lastConfig tr)
    (heq : lastConfig = g.configGen) : Progress t i g 2 lastCodec lastConfig tr :=
  { h with codec_done := fun _ ↦ h.codec_done le_rfl, config_done := fun _ ↦ heq }

theorem config_returned (h : Progress t i g 1 lastCodec lastConfig tr) (ht : Shaped t)
    (hne : lastConfig ≠ g.configGen) (hcodec : x.codec? = none)
    (hconfig : x.config? = some (g.configGen, g.config)) (hmedia : x.media? = none) :
    Progress t i g 2 lastCodec g.configGen (tr ++ [x]) := by
  refine h.concat_other hmedia rfl ?_ ?_ h.codec_le le_rfl (fun _ ↦ h.codec_done le_rfl)
    (fun _ ↦ rfl)
  · rw [filterMap_concat_none hcodec]
    exact h.codecs
  · rw [filterMap_concat_some hconfig]
    exact h.configs.concat (lt_of_le_of_ne h.config_le hne)
      (ht.configGen g (List.mem_of_getElem? h.gop)).2

/-- Once the codec and the config packet were handled, those returned last are current. -/
theorem current_of_two (h : Progress t i g (k + 2) lastCodec lastConfig tr) (ht : Shaped t) :
    Current t tr i := by
  have hg := List.mem_of_getElem? h.gop
  obtain ⟨hcodec, hcodec'⟩ := ht.codecGen g hg
  obtain ⟨hconfig, hconfig'⟩ := ht.configGen g hg
  have hlast := h.codecs
  have hlast' := h.configs
  rw [h.codec_done (by omega)] at hlast
  rw [h.config_done (by omega)] at hlast'
  exact ⟨g, h.gop, hlast.getLast? hcodec hcodec', hlast'.getLast? hconfig hconfig'⟩

theorem media_returned {packet : MediaPacket} (h : Progress t i g (k + 2) lastCodec lastConfig tr)
    (ht : Shaped t) (hpacket : g.media[k]? = some packet) (hcodec : x.codec? = none)
    (hconfig : x.config? = none) (hmedia : x.media? = some (i, packet)) :
    Progress t i g (k + 3) lastCodec lastConfig (tr ++ [x]) where
  gop := h.gop
  codecs := by
    rw [filterMap_concat_none hcodec]
    exact h.codecs
  configs := by
    rw [filterMap_concat_none hconfig]
    exact h.configs
  codec_le := h.codec_le
  config_le := h.config_le
  codec_done _ := h.codec_done (by omega)
  config_done _ := h.config_done (by omega)
  ordered := by
    rw [filterMap_concat_some hmedia]
    refine List.pairwise_append.mpr ⟨h.ordered, List.pairwise_singleton _ _, fun y hy z hz ↦ ?_⟩
    obtain rfl := List.mem_singleton.mp hz
    exact h.media_le y hy
  media_le := by
    rw [filterMap_concat_some hmedia]
    intro y hy
    obtain hy | hy := List.mem_append.mp hy
    · exact h.media_le y hy
    · obtain rfl := List.mem_singleton.mp hy
      exact le_rfl
  media_done := by
    rw [mediaOf_concat_some hmedia, if_pos rfl, h.media_done]
    change g.media.take k ++ [packet] = g.media.take (k + 1)
    rw [List.take_add_one, hpacket]
    rfl
  media j g' hg' := by
    rw [mediaOf_concat_some hmedia]
    split_ifs with hj
    · subst hj
      obtain rfl : g = g' := Option.some.inj (h.gop.symm.trans hg')
      have htake : mediaOf tr i ++ [packet] = g.media.take (k + 1) := by
        rw [h.media_done, List.take_add_one, hpacket]
        rfl
      rw [htake]
      exact List.take_prefix _ _
    · rw [List.append_nil]
      exact h.media j g' hg'
  current := by
    refine h.current_concat (fun j packet' hj ↦ ?_)
    rw [hmedia] at hj
    cases hj
    exact h.current_of_two ht

end Progress

end Kymux.GopStream
