import Kymux.Driver.Groups

namespace Kymux.Driver

open Av

/-- What is known of the things that wait in a group of a given number: of a config that is
ready, of one that was sent, and of media packets that are complete or not. -/
structure Law (α β : Type) where
  ready : ℕ → StreamPacket → Prop
  sent : ℕ → Prop
  segments : ℕ → DatagramSegments β → Prop
  datagram : ℕ → DatagramPacket α → Prop

variable {α β ι : Type} {law law' : Law α β} {R : Reassembly α β ι} {p p' : Pending α β}
  {groupSeq kypacketSeq created assembled : ℕ} {x : ι} {r : Except Fault Unit}

structure Pending.Obeys (law : Law α β) (groupSeq : ℕ) (p : Pending α β) : Prop where
  ready : ∀ c, p.configPacket = .ready c → law.ready groupSeq c
  sent : p.configPacket = .sent → law.sent groupSeq
  segments : ∀ s ∈ p.segments, law.segments groupSeq s
  datagrams : ∀ d ∈ p.datagrams, law.datagram groupSeq d

def Groups.Obey (law : Law α β) (gs : Groups α β) : Prop :=
  ∀ g ∈ gs, g.toPending.Obeys law g.groupSeq

def Pending.Before (law : Law α β) (R : Reassembly α β ι) (groupSeq : ℕ) (p : Pending α β)
    (kypacketSeq : ℕ) (x : ι) (created : ℕ) (parts : β) : Prop :=
  ⟨kypacketSeq, parts⟩ ∈ p.segments ∧ law.segments groupSeq ⟨kypacketSeq, parts⟩ ∨
    kypacketSeq ∉ p.seqs ∧ R.new p x created = .ok parts

theorem Pending.Slot.before {pre post : List (DatagramSegments β)} {parts : β}
    (hslot : Slot R p kypacketSeq x created pre parts post) (h : p.Obeys law groupSeq)
    (hd : ∀ d ∈ p.datagrams, d.kypacketSeq ≠ kypacketSeq) :
    p.Before law R groupSeq kypacketSeq x created parts := by
  rcases hslot with hmem | ⟨hsplit, hnew, hlt, hgt⟩
  · exact .inl ⟨by simp [hmem], h.segments _ (by simp [hmem])⟩
  · refine .inr ⟨?_, hnew⟩
    rw [mem_seqs]
    rintro (⟨u, hu, rfl⟩ | ⟨d, hdm, hdk⟩)
    · rcases List.mem_append.mp (hsplit ▸ hu) with hu | hu
      · exact (hlt u hu).ne rfl
      · exact (hgt u hu).ne rfl
    · exact hd d hdm hdk

namespace Pending.Obeys

theorem new : (Pending.new : Pending α β).Obeys law groupSeq where
  ready _ h := by cases h
  sent h := by cases h
  segments := by simp [Pending.new]
  datagrams := by simp [Pending.new]

theorem isNone (h : p.Obeys law groupSeq) (hready : ∀ c, ¬ law.ready groupSeq c)
    (hsent : ¬ law.sent groupSeq) : p.configPacket.isNone = true := by
  cases hc : p.configPacket with
  | none => rfl
  | ready c => exact absurd (h.ready c hc) (hready c)
  | sent => exact absurd (h.sent hc) hsent

theorem setConfig {c : StreamPacket} (h : p.Obeys law groupSeq) (hc : law.ready groupSeq c) :
    (p.setConfig c).Obeys law groupSeq where
  ready c' h' := by cases h'; exact hc
  sent h' := by cases h'
  segments := h.segments
  datagrams := h.datagrams

/-- It is enough to look at the packet that the datagram belongs to, and to see that the
law of all others has not changed. -/
theorem inserted (hp : p.Ordered) (h : p.Obeys law groupSeq)
    (hins : Inserted R p kypacketSeq x created assembled r p') (hr : r = .ok ())
    (hready : ∀ c, law.ready groupSeq c → law'.ready groupSeq c)
    (hsent : law.sent groupSeq → law'.sent groupSeq)
    (hsegments : ∀ u, u.kypacketSeq ≠ kypacketSeq → law.segments groupSeq u →
      law'.segments groupSeq u)
    (hdatagram : ∀ d, law.datagram groupSeq d → law'.datagram groupSeq d)
    (hkept : ∀ parts parts', p.Before law R groupSeq kypacketSeq x created parts →
      R.addPacket parts x = .ok parts' → R.isComplete parts' = false →
      ⟨kypacketSeq, parts'⟩ ∈ p'.segments → law'.segments groupSeq ⟨kypacketSeq, parts'⟩)
    (hcomplete : ∀ parts parts' object packet, p.Before law R groupSeq kypacketSeq x created parts →
      R.addPacket parts x = .ok parts' → R.isComplete parts' = true →
      R.assemble parts' = .ok (object, packet) →
      ⟨object, packet, kypacketSeq, assembled⟩ ∈ p'.datagrams →
      law'.datagram groupSeq ⟨object, packet, kypacketSeq, assembled⟩) :
    p'.Obeys law' groupSeq := by
  have hother : ∀ {pre parts post}, Slot R p kypacketSeq x created pre parts post →
      ∀ u ∈ pre ++ post, law'.segments groupSeq u := fun hslot u hu ↦
    hsegments u (hslot.ne hp.segments u hu) (h.segments u (hslot.subset u hu))
  have hready' : ∀ c, p.configPacket = .ready c → law'.ready groupSeq c :=
    fun c hc ↦ hready c (h.ready c hc)
  have hsent' : p.configPacket = .sent → law'.sent groupSeq := fun hc ↦ hsent (h.sent hc)
  have hdatagrams : ∀ d ∈ p.datagrams, law'.datagram groupSeq d :=
    fun d hd ↦ hdatagram d (h.datagrams d hd)
  cases hins with
  | failed | broken => cases hr
  | refused => cases hr
  | again hd hseq =>
    refine ⟨hready', hsent', fun u hu ↦ hsegments u ?_ (h.segments u hu), hdatagrams⟩
    rw [← hseq]
    exact hp.apart u hu _ hd
  | kept hd hslot hadd hc =>
    refine ⟨hready', hsent', ?_, hdatagrams⟩
    intro u hu
    rcases List.mem_append.mp hu with hu | hu
    · exact hother hslot u (by simp [hu])
    · rcases List.mem_cons.mp hu with rfl | hu
      · exact hkept _ _ (hslot.before h hd) hadd hc (by simp)
      · exact hother hslot u (by simp [hu])
  | complete hslot hadd hc hasm hdat hlt hgt =>
    have hne : ∀ d ∈ p.datagrams, d.kypacketSeq ≠ kypacketSeq := by
      intro d hd
      rcases List.mem_append.mp (hdat ▸ hd) with hd | hd
      · exact (hlt d hd).ne
      · exact (hgt d hd).ne'
    refine ⟨hready', hsent', hother hslot, ?_⟩
    intro d hd
    rcases List.mem_append.mp hd with hd | hd
    · exact hdatagrams d (by simp [hdat, hd])
    · rcases List.mem_cons.mp hd with rfl | hd
      · exact hcomplete _ _ _ _ (hslot.before h hne) hadd hc hasm (by simp)
      · exact hdatagrams d (by simp [hdat, hd])

theorem took {b : Bool} {taken : Taken α β} (h : p.Obeys law groupSeq) (htook : Took p b taken p')
    (hsent : b = true → law.sent groupSeq) : p'.Obeys law groupSeq := by
  cases htook with
  | config _ =>
    refine ⟨?_, fun _ ↦ hsent rfl, h.segments, h.datagrams⟩
    intro c hc
    cases hc
  | datagram _ hd hs _ _ =>
    exact ⟨h.ready, h.sent, fun s hm ↦ h.segments s (by simp [hs, hm]),
      fun d hm ↦ h.datagrams d (by simp [hd, hm])⟩

end Pending.Obeys

namespace Groups

variable {gs pre post : Groups α β} {g : PendingGroup α β} {room : ℕ → Except Fault Unit}

theorem Place.obeys (hplace : Place room gs groupSeq pre g post) (h : Obey law gs) :
    g.toPending.Obeys law groupSeq := by
  have hg := hplace.all (P := fun g ↦ g.toPending.Obeys law g.groupSeq) h .new
  rwa [hplace.groupSeq_eq] at hg

theorem Place.obey (hplace : Place room gs groupSeq pre g post) (h : Obey law gs)
    (hp : p.Obeys law groupSeq) : Obey law (pre ++ ⟨p, groupSeq⟩ :: post) := by
  intro k hk
  rcases List.mem_append.mp hk with hk | hk
  · exact h k (hplace.subset k (by simp [hk]))
  · rcases List.mem_cons.mp hk with rfl | hk
    · exact hp
    · exact h k (hplace.subset k (by simp [hk]))

theorem Obey.imp (h : Obey law gs) (hready : ∀ k c, law.ready k c → law'.ready k c)
    (hsent : ∀ k, law.sent k → law'.sent k)
    (hsegments : ∀ k u, law.segments k u → law'.segments k u)
    (hdatagram : ∀ k d, law.datagram k d → law'.datagram k d) : Obey law' gs := by
  intro g hg
  have hobeys := h g hg
  exact ⟨fun c hc ↦ hready _ c (hobeys.ready c hc), fun hc ↦ hsent _ (hobeys.sent hc),
    fun u hu ↦ hsegments _ u (hobeys.segments u hu),
      fun d hd ↦ hdatagram _ d (hobeys.datagrams d hd)⟩

theorem Obey.took {drained rest : Groups α β} {b : Bool} {taken : Taken α β}
    (h : Obey law (drained ++ g :: rest)) (htook : Pending.Took g.toPending b taken p)
    (hsent : b = true → law.sent g.groupSeq) : Obey law (⟨p, g.groupSeq⟩ :: rest) := by
  intro k hk
  rcases List.mem_cons.mp hk with rfl | hk
  · exact (h g (by simp)).took htook hsent
  · exact h k (by simp [hk])

end Groups

end Kymux.Driver
