import Kymux.Driver.PendingSteps

namespace Kymux.Driver

open Av SortedKeys Timed

structure PendingGroup (α β : Type) extends Pending α β where
  groupSeq : ℕ
deriving DecidableEq

def PendingGroup.new {α β : Type} (groupSeq : ℕ) : PendingGroup α β := ⟨Pending.new, groupSeq⟩

structure PacketRef where
  pendingGroupIndex : ℕ
  configPacket : Bool
deriving DecidableEq

abbrev NextPacket := Next PacketRef

abbrev Groups (α β : Type) := List (PendingGroup α β)

namespace Groups

variable {α β : Type}

def mediaSeqs (gs : Groups α β) : List ℕ := gs.flatMap (fun g ↦ g.seqs)

/-- `room` is the check that a driver makes before it adds a group. -/
def preparePendingGroup (room : ℕ → Except Fault Unit) (gs : Groups α β) (groupSeq : ℕ) :
    Except Fault ℕ × Groups α β :=
  match binarySearchByKey PendingGroup.groupSeq groupSeq gs with
  | .ok index => (.ok index, gs)
  | .error index =>
    match room gs.length with
    | .error e => (.error e, gs)
    | .ok () => (.ok index, gs.insertIdx index (PendingGroup.new groupSeq))

def minInstant (gs : Groups α β) : Option ℕ :=
  (gs.filterMap (fun g ↦ g.toPending.minInstant)).min?

def nextPacketFrom (minInstant : Option ℕ) (maxBuffering next now : ℕ) :
    ℕ → Groups α β → NextPacket
  | _, [] => .none
  | index, g :: gs =>
    match g.poll minInstant maxBuffering next now with
    | .none => nextPacketFrom minInstant maxBuffering next now (index + 1) gs
    | .ready configPacket => .ready ⟨index, configPacket⟩
    | .deadline instant => .deadline instant

def nextPacket (gs : Groups α β) (maxBuffering next now : ℕ) : NextPacket :=
  nextPacketFrom gs.minInstant maxBuffering next now 0 gs

/-- Drops the groups before the chosen one and takes its packet. The groups dropped are
returned too, for the drivers that account for them. -/
def takeRef (gs : Groups α β) (ref : PacketRef) :
    Except Fault (Groups α β × Taken α β × Groups α β) :=
  match gs.drop ref.pendingGroupIndex with
  | [] => .error (.panic "index out of bounds")
  | g :: rest => do
    let (taken, p) ← g.takePacket ref.configPacket
    return (gs.take ref.pendingGroupIndex, taken, ⟨p, g.groupSeq⟩ :: rest)

def takeNextPacket (gs : Groups α β) (maxBuffering next now : ℕ) :
    Except Fault (Action × Groups α β) :=
  match gs.nextPacket maxBuffering next now with
  | .none => .ok (.none, gs)
  | .deadline instant => .ok (.deadline instant, gs)
  | .ready ref => do
    let (_, taken, gs) ← gs.takeRef ref
    return (.packet taken.kypacketSeq taken.packet, gs)

variable {gs : Groups α β} {room : ℕ → Except Fault Unit} {groupSeq : ℕ}
  {maxBuffering next now : ℕ} {m : Option ℕ} {ref : PacketRef}

/-- The place of a group: it is there, or it would come there as a new one. -/
def Place (room : ℕ → Except Fault Unit) (gs : Groups α β) (groupSeq : ℕ) (pre : Groups α β)
    (g : PendingGroup α β) (post : Groups α β) : Prop :=
  gs = pre ++ g :: post ∧ g.groupSeq = groupSeq ∨
    gs = pre ++ post ∧ g = PendingGroup.new groupSeq ∧ room gs.length = .ok () ∧
      (∀ h ∈ pre, h.groupSeq < groupSeq) ∧ ∀ h ∈ post, groupSeq < h.groupSeq

theorem preparePendingGroup_cases (room : ℕ → Except Fault Unit)
    (hs : Sorted PendingGroup.groupSeq gs) (groupSeq : ℕ) :
    (∃ e, gs.preparePendingGroup room groupSeq = (.error e, gs) ∧ room gs.length = .error e ∧
      ∀ g ∈ gs, g.groupSeq ≠ groupSeq) ∨
    ∃ pre g post, Place room gs groupSeq pre g post ∧
      gs.preparePendingGroup room groupSeq = (.ok pre.length, pre ++ g :: post) := by
  unfold preparePendingGroup
  cases hi : binarySearchByKey PendingGroup.groupSeq groupSeq gs with
  | ok index =>
    obtain ⟨pre, g, post, hsplit, rfl, hg⟩ := search_ok hi
    exact .inr ⟨pre, g, post, .inl ⟨hsplit, hg⟩, by rw [hsplit]⟩
  | error index =>
    obtain ⟨pre, post, hsplit, rfl, hlt, hgt⟩ := search_error hs hi
    dsimp only
    cases hr : room gs.length with
    | error e => exact .inl ⟨e, rfl, rfl, search_error_not_mem hs hi⟩
    | ok u =>
      refine .inr ⟨pre, PendingGroup.new groupSeq, post, .inr ⟨hsplit, rfl, hr, hlt, hgt⟩, ?_⟩
      dsimp only
      rw [hsplit, insertIdx_split]

structure Ordered (gs : Groups α β) : Prop where
  sorted : Sorted PendingGroup.groupSeq gs
  each : ∀ g ∈ gs, g.Ordered

section Place

variable {pre post : Groups α β} {g : PendingGroup α β} {p : Pending α β}

theorem Ordered.nil : Ordered ([] : Groups α β) := ⟨.nil, by simp⟩

theorem Ordered.remove (h : Ordered (pre ++ g :: post)) : Ordered (pre ++ post) :=
  ⟨h.sorted.remove, fun k hk ↦ h.each k
    (((List.sublist_cons_self g post).append_left pre).subset hk)⟩

theorem Ordered.suffix (h : Ordered (pre ++ post)) : Ordered post :=
  ⟨h.sorted.suffix, fun k hk ↦ h.each k (by simp [hk])⟩

theorem Ordered.replace (h : Ordered (pre ++ g :: post)) (hp : p.Ordered) :
    Ordered (pre ++ ⟨p, g.groupSeq⟩ :: post) := by
  refine ⟨h.sorted.replace rfl, ?_⟩
  intro k hk
  rcases List.mem_append.mp hk with hk | hk
  · exact h.each k (by simp [hk])
  · rcases List.mem_cons.mp hk with rfl | hk
    · exact hp
    · exact h.each k (by simp [hk])

theorem Place.subset (h : Place room gs groupSeq pre g post) : ∀ k ∈ pre ++ post, k ∈ gs := by
  intro k hk
  rcases h with ⟨rfl, -⟩ | ⟨rfl, -⟩
  · rcases List.mem_append.mp hk with hk | hk <;> simp [hk]
  · exact hk

theorem Place.mem (h : Place room gs groupSeq pre g post) {k : PendingGroup α β} (hk : k ∈ gs) :
    k = g ∨ k ∈ pre ++ post := by
  rcases h with ⟨rfl, -⟩ | ⟨rfl, -⟩
  · rcases List.mem_append.mp hk with hk | hk
    · exact .inr (by simp [hk])
    · rcases List.mem_cons.mp hk with rfl | hk
      · exact .inl rfl
      · exact .inr (by simp [hk])
  · exact .inr hk

theorem Place.ordered (hplace : Place room gs groupSeq pre g post) (h : Ordered gs)
    (hp : p.Ordered) : Ordered (pre ++ ⟨p, groupSeq⟩ :: post) := by
  refine ⟨?_, ?_⟩
  · rcases hplace with ⟨rfl, hg⟩ | ⟨rfl, -, -, hlt, hgt⟩
    · exact h.sorted.replace hg.symm
    · exact h.sorted.insert hlt hgt
  · intro k hk
    rcases List.mem_append.mp hk with hk | hk
    · exact h.each k (hplace.subset k (by simp [hk]))
    · rcases List.mem_cons.mp hk with rfl | hk
      · exact hp
      · exact h.each k (hplace.subset k (by simp [hk]))

theorem Ordered.took {b : Bool} {taken : Taken α β} (h : Ordered (pre ++ g :: post))
    (htook : Pending.Took g.toPending b taken p) : Ordered (⟨p, g.groupSeq⟩ :: post) := by
  have hsuffix : Ordered ([] ++ g :: post) := h.suffix
  exact hsuffix.replace ((h.each g (by simp)).took htook)

theorem Place.groupSeq_eq (h : Place room gs groupSeq pre g post) : g.groupSeq = groupSeq := by
  rcases h with ⟨-, h⟩ | ⟨-, rfl, -⟩
  · exact h
  · rfl

theorem Place.eq (hs : Sorted PendingGroup.groupSeq gs) (h : Place room gs groupSeq pre g post)
    {k : PendingGroup α β} (hk : k ∈ gs) (hseq : k.groupSeq = groupSeq) : k = g := by
  rcases h with ⟨rfl, hg⟩ | ⟨rfl, -, -, hlt, hgt⟩
  · rcases List.mem_append.mp hk with hk | hk
    · exact absurd (hs.before k hk) (by omega)
    · rcases List.mem_cons.mp hk with rfl | hk
      · rfl
      · exact absurd (hs.after k hk) (by omega)
  · rcases List.mem_append.mp hk with hk | hk
    · exact absurd (hlt k hk) (by omega)
    · exact absurd (hgt k hk) (by omega)

/-- What holds of every group and of a new one holds of the group in the place. -/
theorem Place.all {P : PendingGroup α β → Prop} (h : Place room gs groupSeq pre g post)
    (hP : ∀ k ∈ gs, P k) (hnew : P (PendingGroup.new groupSeq)) : P g := by
  rcases h with ⟨rfl, -⟩ | ⟨-, rfl, -⟩
  · exact hP g (by simp)
  · exact hnew

end Place

theorem mem_mediaSeqs {k : ℕ} : k ∈ gs.mediaSeqs ↔ ∃ g ∈ gs, k ∈ g.seqs := by
  simp [mediaSeqs]

def Home (gs : Groups α β) : Prop :=
  ∀ g ∈ gs, ∀ h ∈ gs, ∀ k, k ∈ g.seqs → k ∈ h.seqs → g.groupSeq = h.groupSeq

theorem nodup_mediaSeqs_iff (hs : Sorted PendingGroup.groupSeq gs) :
    gs.mediaSeqs.Nodup ↔ (∀ g ∈ gs, g.seqs.Nodup) ∧ Home gs := by
  unfold mediaSeqs
  rw [List.nodup_flatMap]
  refine and_congr_right (fun _ ↦ ⟨?_, ?_⟩)
  · intro hd g hg h hh k hkg hkh
    by_contra hne
    have : Std.Symm (Function.onFun List.Disjoint (fun g : PendingGroup α β ↦ g.seqs)) :=
      ⟨fun _ _ hab ↦ hab.symm⟩
    have hgh : g ≠ h := by rintro rfl; exact hne rfl
    exact hd.forall hg hh hgh hkg hkh
  · intro hhome
    refine hs.imp_of_mem (fun {g h} hg hh hlt ↦ ?_)
    intro k hkg hkh
    have := hhome g hg h hh k hkg hkh
    omega

theorem nextPacketFrom_oneDeadline (m : Option ℕ) (maxBuffering next index : ℕ) (gs : Groups α β) :
    OneDeadline (fun now ↦ nextPacketFrom m maxBuffering next now index gs) := by
  induction gs generalizing index with
  | nil => exact .inl (fun _ ↦ rfl)
  | cons g gs ih =>
    simp only [nextPacketFrom]
    rcases g.poll_oneDeadline m maxBuffering next with h | ⟨b, h⟩ | ⟨d, b, h⟩
    · simpa only [h] using ih (index + 1)
    · exact .inr (.inl ⟨⟨index, b⟩, fun now ↦ by simp only [h]⟩)
    · refine .inr (.inr ⟨d, ⟨index, b⟩, fun now ↦ ?_⟩)
      by_cases hd : d ≤ now <;> simp [h, hd]

theorem nextPacket_oneDeadline (gs : Groups α β) (maxBuffering next : ℕ) :
    OneDeadline (gs.nextPacket maxBuffering next) :=
  nextPacketFrom_oneDeadline gs.minInstant maxBuffering next 0 gs

theorem nextPacketFrom_ready {index : ℕ}
    (h : nextPacketFrom m maxBuffering next now index gs = .ready ref) :
    ∃ pre g post, gs = pre ++ g :: post ∧ index + pre.length = ref.pendingGroupIndex ∧
      g.poll m maxBuffering next now = .ready ref.configPacket ∧
      ∀ k ∈ pre, k.poll m maxBuffering next now = .none := by
  induction gs generalizing index with
  | nil => cases h
  | cons g gs ih =>
    simp only [nextPacketFrom] at h
    split at h
    · next hskip =>
      obtain ⟨pre, k, post, rfl, hlen, hk, hpre⟩ := ih h
      refine ⟨g :: pre, k, post, rfl, by simp only [List.length_cons]; omega, hk, ?_⟩
      intro k' hk'
      rcases List.mem_cons.mp hk' with rfl | hk'
      · exact hskip
      · exact hpre k' hk'
    · next b hready => cases h; exact ⟨[], g, gs, rfl, rfl, hready, by simp⟩
    · cases h

theorem nextPacket_ready (h : gs.nextPacket maxBuffering next now = .ready ref) :
    ∃ pre g post, gs = pre ++ g :: post ∧ pre.length = ref.pendingGroupIndex ∧
      g.poll gs.minInstant maxBuffering next now = .ready ref.configPacket ∧
      ∀ k ∈ pre, k.poll gs.minInstant maxBuffering next now = .none := by
  obtain ⟨pre, g, post, hsplit, hlen, hg, hpre⟩ := nextPacketFrom_ready h
  exact ⟨pre, g, post, hsplit, by omega, hg, hpre⟩

theorem takeRef_of_ready (h : gs.nextPacket maxBuffering next now = .ready ref) :
    ∃ drained g rest taken p, gs = drained ++ g :: rest ∧ drained.length = ref.pendingGroupIndex ∧
      g.poll gs.minInstant maxBuffering next now = .ready ref.configPacket ∧
      (∀ k ∈ drained, k.poll gs.minInstant maxBuffering next now = .none) ∧
      g.takePacket ref.configPacket = .ok (taken, p) ∧
      gs.takeRef ref = .ok (drained, taken, ⟨p, g.groupSeq⟩ :: rest) := by
  obtain ⟨pre, g, post, hsplit, hlen, hpoll, hskip⟩ := nextPacket_ready h
  obtain ⟨taken, p, htake⟩ := Pending.takePacket_of_ready hpoll
  refine ⟨pre, g, post, taken, p, hsplit, hlen, hpoll, hskip, htake, ?_⟩
  have hdrop : gs.drop ref.pendingGroupIndex = g :: post := by
    rw [hsplit, ← hlen, List.drop_left]
  have htk : gs.take ref.pendingGroupIndex = pre := by
    rw [hsplit, ← hlen, List.take_left]
  simp [takeRef, hdrop, htake, htk, bind, Except.bind, pure, Except.pure]

/-- It comes from the first group that does not skip, and the groups before that one go. -/
theorem takeRef_ready (ho : Ordered gs) (h : gs.nextPacket maxBuffering next now = .ready ref) :
    ∃ drained g rest taken p, gs = drained ++ g :: rest ∧ drained.length = ref.pendingGroupIndex ∧
      g.poll gs.minInstant maxBuffering next now = .ready ref.configPacket ∧
      (∀ k ∈ drained, k.poll gs.minInstant maxBuffering next now = .none) ∧
      Pending.Took g.toPending ref.configPacket taken p ∧
      gs.takeRef ref = .ok (drained, taken, ⟨p, g.groupSeq⟩ :: rest) := by
  obtain ⟨drained, g, rest, taken, p, hgs, hlen, hpoll, hskip, htake, href⟩ := takeRef_of_ready h
  have hg : g.Ordered := ho.each g (by simp [hgs])
  exact ⟨drained, g, rest, taken, p, hgs, hlen, hpoll, hskip, Pending.takePacket_took hg htake,
    href⟩

inductive TakeStep (gs : Groups α β) (maxBuffering next now : ℕ) : Action → Groups α β → Prop
  | none (hnext : gs.nextPacket maxBuffering next now = .none) :
    TakeStep gs maxBuffering next now .none gs
  | deadline {d} (hnext : gs.nextPacket maxBuffering next now = .deadline d) :
    TakeStep gs maxBuffering next now (.deadline d) gs
  | packet {drained g rest b taken p} (hgs : gs = drained ++ g :: rest)
    (hpoll : g.poll gs.minInstant maxBuffering next now = .ready b)
    (hskip : ∀ k ∈ drained, k.poll gs.minInstant maxBuffering next now = .none)
    (htook : Pending.Took g.toPending b taken p) :
    TakeStep gs maxBuffering next now (.packet taken.kypacketSeq taken.packet)
      (⟨p, g.groupSeq⟩ :: rest)

theorem takeNextPacket_step (ho : Ordered gs) (maxBuffering next now : ℕ) :
    ∃ a gs', gs.takeNextPacket maxBuffering next now = .ok (a, gs') ∧
      TakeStep gs maxBuffering next now a gs' := by
  unfold takeNextPacket
  cases hnext : gs.nextPacket maxBuffering next now with
  | none => exact ⟨_, _, rfl, .none hnext⟩
  | deadline d => exact ⟨_, _, rfl, .deadline hnext⟩
  | ready ref =>
    obtain ⟨drained, g, rest, taken, p, hgs, -, hpoll, hskip, htook, href⟩ := takeRef_ready ho hnext
    simp only [href, bind, Except.bind, pure, Except.pure]
    exact ⟨_, _, rfl, .packet hgs hpoll hskip htook⟩

end Groups

end Kymux.Driver
