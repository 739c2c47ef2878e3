import Kymux.Driver.GopStreamPlayer
import Kymux.Driver.GopStreamRead

namespace Kymux.GopStream

open BigEndian Av Keyed Machine

variable {streams : List Bytes} {r r' : Receiver} {msg : RecvMsg} {queue : List RecvMsg}
  {recv recv' : Bytes} {packet : AVPacket} {task : ℕ} {gop : Gop} {gopId : UInt32}
  {waiting : UInt32 → List AVPacket} {readers : List Reader} {ps qs : List AVPacket} {bs cs : Bytes}

inductive ReadsTo : Bytes → List AVPacket → Bytes → Prop
  | nil (bs : Bytes) : ReadsTo bs [] bs
  | cons {bs bs' cs : Bytes} {packet : AVPacket} {ps : List AVPacket}
    (hread : AVPacket.read bs = .ok (some packet, bs')) (hrest : ReadsTo bs' ps cs) :
    ReadsTo bs (packet :: ps) cs

theorem ReadsTo.concat (h : ReadsTo bs ps recv)
    (hread : AVPacket.read recv = .ok (some packet, recv')) :
    ReadsTo bs (ps ++ [packet]) recv' := by
  induction h with
  | nil bs => exact .cons hread (.nil _)
  | cons hfirst _ ih => exact .cons hfirst (ih hread)

theorem ReadsTo.of_append (h : ReadsTo bs (ps ++ qs) cs) : ∃ bs', ReadsTo bs ps bs' := by
  induction ps generalizing bs with
  | nil => exact ⟨bs, .nil bs⟩
  | cons p ps ih =>
    cases h with
    | cons hread hrest =>
      obtain ⟨bs', h'⟩ := ih hrest
      exact ⟨bs', .cons hread h'⟩

theorem ReadsTo.of_nil (h : ps = []) : ReadsTo bs ([] ++ ps) bs := by
  rw [h]
  exact .nil bs

theorem readStreamIds_ok (h : readStreamIds recv = .ok msg) : ∃ recv' gop,
    msg = .streamIds recv' gop := by
  unfold readStreamIds at h
  cases hread : readExact 12 recv with
  | error e =>
    rw [hread] at h
    cases h
  | ok out =>
    rw [hread] at h
    cases h
    exact ⟨_, _, rfl⟩

def Opens (streams : List Bytes) (gop : Gop) (start : Bytes) : Prop :=
  ∃ stream ∈ streams, readStreamIds stream = .ok (.streamIds start gop)

def Session.From (s : Session) (streams : List Bytes) : Prop :=
  ∃ start rest, Opens streams s.gop start ∧ ReadsTo start s.packets rest

/-- The streams that were current, one after another, with the packets of each that were handled.
The first ones that are not yet handled wait in the queue. -/
inductive Follows (streams : List Bytes) (waiting : UInt32 → List AVPacket)
    (readers : List Reader) :
    Option Gop → List Session → Prop
  | idle (hwaiting : ∀ id, waiting id = []) (hreaders : readers = []) :
    Follows streams waiting readers none []
  | on {gop : Gop} {before : List Session} {handled : List AVPacket} {start rest : Bytes} (main : ℕ)
    (hbefore : ∀ s ∈ before, s.gop.id < gop.id) (hopens : Opens streams gop start)
    (hreads : ReadsTo start (handled ++ waiting gop.id) rest)
    (hnewer : ∀ id, gop.id < id → waiting id = [])
    (hreaders : ∀ (n : ℕ) (reader : Reader), readers[n]? = some reader → reader.gopId ≤ gop.id ∧
      (reader.gopId = gop.id → n = main ∧ ∀ recv, reader.recv = some recv → recv = rest)) :
    Follows streams waiting readers (some gop) (before ++ [⟨gop, handled⟩])

structure Plays (streams : List Bytes) (r : Receiver) (sessions : List Session) : Prop where
  fresh : ∀ recv, .newStream recv ∈ r.queue ∨ recv ∈ r.idReaders → recv ∈ streams
  announced : ∀ recv gop, .streamIds recv gop ∈ r.queue → Opens streams gop recv
  ids : (sessions.map (·.gop.id)).Pairwise (· < ·)
  source : ∀ s ∈ sessions, s.From streams
  played : Player.playAll sessions = ⟨r.returned, r.lastCodecGen, r.lastConfigGen⟩
  follows : Follows streams (queued r.queue) r.packetReaders r.gop sessions

theorem queued_cons (msg : RecvMsg) (queue : List RecvMsg) (id : UInt32) :
    queued (msg :: queue) id = (msg.packetOf id).toList ++ queued queue id := by
  rw [queued, List.filterMap_cons]
  cases msg.packetOf id <;> rfl

/-- A message that is not a packet changes nothing of what waits. -/
theorem queued_push (queue : List RecvMsg) (hmsg : ∀ id, msg.packetOf id = none) :
    queued (queue ++ [msg]) = queued queue := by
  funext id
  simp [queued, hmsg id]

theorem queued_pop (hmsg : ∀ id, msg.packetOf id = none) :
    queued (msg :: queue) = queued queue := by
  funext id
  rw [queued_cons, hmsg id]
  rfl

namespace Follows

variable {current : Option Gop} {sessions : List Session}

theorem ended {reader : Reader} (h : Follows streams waiting readers current sessions)
    (htask : readers[task]? = some reader) :
    Follows streams waiting (readers.set task ⟨none, reader.gopId⟩) current sessions := by
  cases h with
  | idle hwaiting hreaders =>
    rw [hreaders] at htask
    cases htask
  | on main hbefore hopens hreads hnewer hreaders =>
    refine .on main hbefore hopens hreads hnewer (fun n x hx ↦ ?_)
    obtain ⟨rfl, rfl⟩ | ⟨-, hx⟩ := (get_set htask).mp hx
    · obtain ⟨hle, hmain⟩ := hreaders n reader htask
      exact ⟨hle, fun heq ↦ ⟨(hmain heq).1, fun _ h ↦ by cases h⟩⟩
    · exact hreaders n x hx

theorem read (h : Follows streams waiting readers current sessions)
    (htask : readers[task]? = some ⟨some recv, gopId⟩)
    (hread : AVPacket.read recv = .ok (some packet, recv')) :
    Follows streams (fun id ↦ waiting id ++ if gopId = id then [packet] else [])
      (readers.set task ⟨some recv', gopId⟩) current sessions := by
  cases h with
  | idle hwaiting hreaders =>
    rw [hreaders] at htask
    cases htask
  | @on gop before handled start rest main hbefore hopens hreads hnewer hreaders =>
    obtain ⟨hle, hmain⟩ := hreaders task _ htask
    have hnewer' : ∀ id, gop.id < id →
        (waiting id ++ if gopId = id then [packet] else []) = [] := by
      intro id hid
      rw [hnewer id hid, if_neg (UInt32.ne_of_lt (UInt32.lt_of_le_of_lt hle hid))]
      rfl
    by_cases heq : gopId = gop.id
    · obtain ⟨rfl, hrest⟩ := hmain heq
      obtain rfl := hrest recv rfl
      have hreads' :
        ReadsTo start (handled ++ (waiting gop.id ++ if gopId = gop.id then [packet] else []))
          recv' := by
        rw [if_pos heq, ← List.append_assoc]
        exact hreads.concat hread
      refine .on task hbefore hopens hreads' hnewer' (fun n x hx ↦ ?_)
      obtain ⟨rfl, rfl⟩ | ⟨hne, hx⟩ := (get_set htask).mp hx
      · exact ⟨hle, fun _ ↦ ⟨rfl, fun _ h ↦ (Option.some.inj h).symm⟩⟩
      · obtain ⟨hle', hmain'⟩ := hreaders n x hx
        exact ⟨hle', fun heq' ↦ absurd (hmain' heq').1 hne⟩
    · have hreads' :
        ReadsTo start (handled ++ (waiting gop.id ++ if gopId = gop.id then [packet] else []))
          rest := by
        rw [if_neg heq, List.append_nil]
        exact hreads
      refine .on main hbefore hopens hreads' hnewer' (fun n x hx ↦ ?_)
      obtain ⟨rfl, rfl⟩ | ⟨-, hx⟩ := (get_set htask).mp hx
      · exact ⟨hle, fun heq' ↦ absurd heq' heq⟩
      · exact hreaders n x hx

/-- A stream that is newer than all before becomes the current one. -/
theorem newer (h : Follows streams waiting readers current sessions)
    (hopens : Opens streams gop recv) (hnewer : ∀ prev, current = some prev → prev.id < gop.id) :
    Follows streams waiting (readers ++ [⟨some recv, gop.id⟩]) (some gop)
      (sessions ++ [⟨gop, []⟩]) ∧
        ∀ s ∈ sessions, s.gop.id < gop.id := by
  cases h with
  | idle hwaiting hreaders =>
    refine ⟨.on 0 (by simp) hopens (.of_nil (hwaiting gop.id)) (fun id _ ↦ hwaiting id) ?_, by simp⟩
    intro n x hx
    rw [hreaders] at hx
    obtain ⟨rfl, rfl⟩ | hx := get_concat.mp hx
    · exact ⟨UInt32.le_refl _, fun _ ↦ ⟨rfl, fun _ h ↦ (Option.some.inj h).symm⟩⟩
    · cases hx
  | @on prev before handled start rest main hbefore hopens' hreads hnewer' hreaders =>
    have hlt := hnewer prev rfl
    have hall : ∀ s ∈ before ++ [⟨prev, handled⟩], s.gop.id < gop.id := by
      intro s hs
      obtain hs | hs := List.mem_append.mp hs
      · exact UInt32.lt_trans (hbefore s hs) hlt
      · obtain rfl := List.mem_singleton.mp hs
        exact hlt
    refine ⟨.on readers.length hall hopens (.of_nil (hnewer' gop.id hlt))
      (fun id hid ↦ hnewer' id (UInt32.lt_trans hlt hid)) (fun n x hx ↦ ?_), hall⟩
    obtain ⟨rfl, rfl⟩ | hx := get_concat.mp hx
    · exact ⟨UInt32.le_refl _, fun _ ↦ ⟨rfl, fun _ h ↦ (Option.some.inj h).symm⟩⟩
    · have hx := UInt32.lt_of_le_of_lt (hreaders n x hx).1 hlt
      exact ⟨UInt32.le_of_lt hx, fun heq ↦ absurd heq (UInt32.ne_of_lt hx)⟩

theorem left (h :
    Follows streams (queued (.newPacket packet gopId :: queue)) readers current sessions)
    (hother : ∀ gop, current = some gop → gopId ≠ gop.id) :
    Follows streams (queued queue) readers current sessions := by
  have hnone : ∀ id, queued (.newPacket packet gopId :: queue) id = [] → queued queue id = [] := by
    intro id hid
    rw [queued_cons] at hid
    exact (List.append_eq_nil_iff.mp hid).2
  cases h with
  | idle hwaiting hreaders => exact .idle (fun id ↦ hnone id (hwaiting id)) hreaders
  | on main hbefore hopens hreads hnewer hreaders =>
    refine .on main hbefore hopens ?_ (fun id hid ↦ hnone id (hnewer id hid)) hreaders
    rw [queued_cons, RecvMsg.packetOf, if_neg (hother _ rfl)] at hreads
    exact hreads

theorem handled
    (h : Follows streams (queued (.newPacket packet gop.id :: queue)) readers (some gop) sessions) :
    ∃ before ps, sessions = before ++ [⟨gop, ps⟩] ∧
      Follows streams (queued queue) readers (some gop) (before ++ [⟨gop, ps ++ [packet]⟩]) ∧
        Session.From ⟨gop, ps ++ [packet]⟩ streams := by
  cases h with
  | @on _ before ps start rest main hbefore hopens hreads hnewer hreaders =>
    rw [queued_cons, RecvMsg.packetOf, if_pos rfl, Option.toList_some, ← List.append_assoc]
      at hreads
    obtain ⟨rest', hsession⟩ := hreads.of_append
    refine ⟨before, ps, rfl, .on main hbefore hopens hreads (fun id hid ↦ ?_) hreaders,
      start, rest', hopens, hsession⟩
    have hid := hnewer id hid
    rw [queued_cons] at hid
    exact (List.append_eq_nil_iff.mp hid).2

theorem current_isSome
    (h : Follows streams (queued (.newPacket packet gopId :: queue)) readers current sessions) :
    ∃ gop, current = some gop := by
  cases h with
  | idle hwaiting hreaders =>
    have hid := hwaiting gopId
    rw [queued_cons, RecvMsg.packetOf, if_pos rfl] at hid
    cases hid
  | on => exact ⟨_, rfl⟩

end Follows

theorem handle_take {x : Option Returned} (hgop : r.gop = some gop)
    (h : r.handle (.newPacket packet gop.id) = .ok (x, r')) :
    r'.queue = r.queue ∧ r'.idReaders = r.idReaders ∧ r'.packetReaders = r.packetReaders ∧
      r'.gop = some gop ∧ (⟨r'.returned ++ x.toList, r'.lastCodecGen, r'.lastConfigGen⟩ : Player) =
        (⟨r.returned, r.lastCodecGen, r.lastConfigGen⟩ : Player).take gop packet := by
  simp only [Receiver.handle, hgop, unwrap, bind, Except.bind, if_true] at h
  cases packet with
  | codec codec =>
    simp only [Player.take]
    split_ifs at h ⊢ <;> cases h <;> simp [hgop]
  | media media =>
    cases hconfig : media.header.isConfig with
    | true =>
      simp only [Player.take, hconfig, if_true] at h ⊢
      split_ifs at h ⊢ <;> cases h <;> simp [hgop]
    | false =>
      simp only [Player.take, hconfig, Bool.false_eq_true, if_false] at h ⊢
      cases h
      simp [hgop]
  | hole hole => cases h

theorem recv_take (hgop : r.gop = some gop) (hqueue : r.queue = .newPacket packet gop.id :: queue)
    (hrecv : r.recv = some r') :
    r'.queue = queue ∧ r'.idReaders = r.idReaders ∧ r'.packetReaders = r.packetReaders ∧
      r'.gop = some gop ∧ (⟨r'.returned, r'.lastCodecGen, r'.lastConfigGen⟩ : Player) =
        (⟨r.returned, r.lastCodecGen, r.lastConfigGen⟩ : Player).take gop packet := by
  have hgop' : ({ r with queue } : Receiver).gop = some gop := hgop
  simp only [Receiver.recv, hqueue] at hrecv
  cases hhandle : ({ r with queue } : Receiver).handle (.newPacket packet gop.id) with
  | error e =>
    rw [hhandle] at hrecv
    cases hrecv
  | ok out =>
    obtain ⟨x, r₁⟩ := out
    obtain ⟨h₁, h₂, h₃, h₄, htake⟩ := handle_take hgop' hhandle
    rw [hhandle] at hrecv
    cases x with
    | none =>
      cases hrecv
      rw [Option.toList_none, List.append_nil] at htake
      exact ⟨h₁, h₂, h₃, h₄, htake⟩
    | some x =>
      cases hrecv
      exact ⟨h₁, h₂, h₃, h₄, htake⟩

namespace Plays

variable {sessions : List Session}

theorem start (streams : List Bytes) : Plays streams .start [] where
  fresh := by simp [Receiver.start]
  announced := by simp [Receiver.start]
  ids := .nil
  source := by simp
  played := rfl
  follows := .idle (fun _ ↦ rfl) rfl

theorem pushed (h : Plays streams r sessions) (hqueue : r'.queue = r.queue ++ [msg])
    (hmsg : (∃ recv ∈ streams, msg = .newStream recv) ∨
      ∃ recv gop, msg = .streamIds recv gop ∧ Opens streams gop recv)
    (hids : ∀ recv ∈ r'.idReaders, recv ∈ r.idReaders)
    (hreaders : r'.packetReaders = r.packetReaders) (hgop : r'.gop = r.gop)
    (hreturned : r'.returned = r.returned) (hcodec : r'.lastCodecGen = r.lastCodecGen)
    (hconfig : r'.lastConfigGen = r.lastConfigGen) :
    Plays streams r' sessions where
  fresh recv hrecv := by
    rw [hqueue, List.mem_append, List.mem_singleton] at hrecv
    obtain (hmem | heq) | hmem := hrecv
    · exact h.fresh recv (.inl hmem)
    · obtain ⟨recv', hrecv', rfl⟩ | ⟨_, _, rfl, -⟩ := hmsg
      · cases heq
        exact hrecv'
      · cases heq
    · exact h.fresh recv (.inr (hids recv hmem))
  announced recv gop hmem := by
    rw [hqueue, List.mem_append, List.mem_singleton] at hmem
    obtain hmem | heq := hmem
    · exact h.announced recv gop hmem
    · obtain ⟨_, -, rfl⟩ | ⟨recv', gop', rfl, hopens⟩ := hmsg
      · cases heq
      · cases heq
        exact hopens
  ids := h.ids
  source := h.source
  played := by
    rw [hreturned, hcodec, hconfig]
    exact h.played
  follows := by
    have hother : ∀ id, msg.packetOf id = none := by
      intro id
      obtain ⟨_, -, rfl⟩ | ⟨_, _, rfl, -⟩ := hmsg <;> rfl
    rw [hqueue, hreaders, hgop, queued_push _ hother]
    exact h.follows

theorem popped (h : Plays streams r sessions) (hqueue : r.queue = msg :: queue)
    (hmsg : ∀ id, msg.packetOf id = none) : Plays streams { r with queue } sessions where
  fresh recv hrecv :=
    h.fresh recv (hrecv.imp_left (fun hmem ↦ hqueue ▸ List.mem_cons_of_mem _ hmem))
  announced recv gop hmem := h.announced recv gop (hqueue ▸ List.mem_cons_of_mem _ hmem)
  ids := h.ids
  source := h.source
  played := h.played
  follows := by
    have hfollows := h.follows
    rwa [hqueue, queued_pop hmsg] at hfollows

theorem accept {number : ℕ} {stream : Bytes} (h : Plays streams r sessions)
    (hstream : streams[number]? = some stream) (hstep : r.accept number stream = some r') :
    Plays streams r' sessions := by
  unfold Receiver.accept at hstep
  split at hstep
  · cases hstep
  · rw [Inv.push_some hstep]
    exact h.pushed rfl (.inl ⟨stream, List.mem_of_getElem? hstream, rfl⟩) (fun _ hmem ↦ hmem)
      rfl rfl rfl rfl rfl

theorem endIds (h : Plays streams r sessions) (task : ℕ) :
    Plays streams { r with idReaders := r.idReaders.eraseIdx task } sessions where
  fresh recv hrecv := h.fresh recv (hrecv.imp_right List.mem_of_mem_eraseIdx)
  announced := h.announced
  ids := h.ids
  source := h.source
  played := h.played
  follows := h.follows

theorem readIds (h : Plays streams r sessions) (hstep : r.readIds task = some r') :
    Plays streams r' sessions := by
  unfold Receiver.readIds at hstep
  split at hstep
  · cases hstep
  · next recv htask =>
    have hmem : recv ∈ streams := h.fresh recv (.inr (List.mem_of_getElem? htask))
    split at hstep
    · cases hstep
      exact h.endIds task
    · next msg hread =>
      rw [Inv.push_some hstep]
      refine h.pushed rfl (.inr ?_) (fun _ hmem ↦ List.mem_of_mem_eraseIdx hmem) rfl rfl rfl rfl rfl
      obtain ⟨recv', gop, rfl⟩ := readStreamIds_ok hread
      exact ⟨recv', gop, rfl, recv, hmem, hread⟩

theorem ended {reader : Reader} (h : Plays streams r sessions)
    (htask : r.packetReaders[task]? = some reader) :
    Plays streams
      { r with packetReaders := r.packetReaders.set task ⟨none, reader.gopId⟩ } sessions :=
  ⟨h.fresh, h.announced, h.ids, h.source, h.played, h.follows.ended htask⟩

theorem readPacket (h : Plays streams r sessions) (hstep : r.readPacket task = some r') :
    Plays streams r' sessions := by
  unfold Receiver.readPacket at hstep
  split at hstep
  · next recv gopId htask =>
    split at hstep
    · next packet recv' hread =>
      rw [Inv.push_some hstep]
      refine ⟨fun bs hbs ↦ ?_, fun bs gop hbs ↦ ?_, h.ids, h.source, h.played, ?_⟩
      · simp only [List.mem_append, List.mem_singleton, reduceCtorEq, or_false] at hbs
        exact h.fresh bs hbs
      · simp only [List.mem_append, List.mem_singleton, reduceCtorEq, or_false] at hbs
        exact h.announced bs gop hbs
      · have hqueued : queued (r.queue ++ [.newPacket packet gopId]) =
            fun id ↦ queued r.queue id ++ if gopId = id then [packet] else [] := by
          funext id
          exact queued_concat r.queue packet gopId id
        rw [hqueued]
        exact h.follows.read htask hread
    · cases hstep
      exact h.ended htask
  · cases hstep

theorem endPackets (h : Plays streams r sessions) (hstep : r.endPackets task = some r') :
    Plays streams r' sessions := by
  unfold Receiver.endPackets at hstep
  split at hstep
  · next reader htask =>
    cases hstep
    exact h.ended htask
  · cases hstep

theorem newStream (h : Plays streams r sessions) (hqueue : r.queue = .newStream recv :: queue) :
    Plays streams { r with queue, idReaders := r.idReaders ++ [recv] } sessions := by
  have hpop := h.popped hqueue (fun _ ↦ rfl)
  refine ⟨fun bs hbs ↦ ?_, hpop.announced, hpop.ids, hpop.source, hpop.played, hpop.follows⟩
  rw [List.mem_append, List.mem_singleton, ← or_assoc] at hbs
  obtain hbs | rfl := hbs
  · exact hpop.fresh bs hbs
  · exact h.fresh bs (.inl (by simp [hqueue]))

/-- A stream whose ids were read becomes the current one, or is left. -/
theorem streamIds (h : Plays streams r sessions) (hqueue : r.queue = .streamIds recv gop :: queue)
    (hrecv : r.recv = some r') : ∃ sessions', Plays streams r' sessions' := by
  have hpop := h.popped hqueue (fun _ ↦ rfl)
  have hopens := h.announced recv gop (by simp [hqueue])
  have hnew : (∀ prev, r.gop = some prev → prev.id < gop.id) → Plays streams { r with
      queue, gop := some gop, packetReaders := r.packetReaders ++ [⟨some recv, gop.id⟩] }
      (sessions ++ [⟨gop, []⟩]) := by
    intro hnewer
    obtain ⟨hfollows, hall⟩ := hpop.follows.newer hopens hnewer
    refine ⟨hpop.fresh, hpop.announced, ?_, ?_, ?_, hfollows⟩
    · rw [List.map_append, List.pairwise_append]
      refine ⟨h.ids, List.pairwise_singleton _ _, ?_⟩
      simpa using hall
    · intro s hs
      obtain hs | hs := List.mem_append.mp hs
      · exact h.source s hs
      · obtain rfl := List.mem_singleton.mp hs
        exact ⟨recv, recv, hopens, .nil recv⟩
    · rw [Player.playAll_concat]
      exact h.played
  simp only [Receiver.recv, hqueue, Receiver.handle] at hrecv
  cases hgop : r.gop with
  | none =>
    rw [hgop] at hrecv
    cases hrecv
    exact ⟨_, hnew (fun _ h ↦ by rw [hgop] at h; cases h)⟩
  | some prev =>
    simp only [hgop, decide_eq_true_eq] at hrecv
    split_ifs at hrecv with hlt
    · cases hrecv
      refine ⟨_, hnew (fun _ h ↦ ?_)⟩
      rw [hgop] at h
      cases h
      exact hlt
    · cases hrecv
      rw [← hgop]
      exact ⟨sessions, hpop⟩

/-- A packet is handled where it is of the current stream, and left otherwise. -/
theorem newPacket (h : Plays streams r sessions)
    (hqueue : r.queue = .newPacket packet gopId :: queue) (hrecv : r.recv = some r') : ∃ sessions',
    Plays streams r' sessions' := by
  have hfollows := h.follows
  rw [hqueue] at hfollows
  have hmem : ∀ m ∈ queue, m ∈ r.queue := fun m hm ↦ hqueue ▸ List.mem_cons_of_mem _ hm
  obtain ⟨gop, hgop⟩ := hfollows.current_isSome
  rw [hgop] at hfollows
  by_cases hid : gopId = gop.id
  · subst hid
    obtain ⟨before, ps, rfl, hfollows', hfrom⟩ := hfollows.handled
    obtain ⟨hqueue', hids, hreaders, hgop', htake⟩ := recv_take hgop hqueue hrecv
    refine ⟨before ++ [⟨gop, ps ++ [packet]⟩], ?_, ?_, ?_, ?_, ?_, ?_⟩
    · intro bs hbs
      rw [hqueue', hids] at hbs
      exact h.fresh bs (hbs.imp_left (hmem _))
    · intro bs gop' hbs
      rw [hqueue'] at hbs
      exact h.announced bs gop' (hmem _ hbs)
    · have := h.ids
      rw [List.map_append] at this ⊢
      exact this
    · intro s hs
      obtain hs | hs := List.mem_append.mp hs
      · exact h.source s (List.mem_append_left _ hs)
      · obtain rfl := List.mem_singleton.mp hs
        exact hfrom
    · rw [Player.playAll_concat, Player.play_concat, ← Player.playAll_concat, h.played]
      exact htake.symm
    · rw [hqueue', hreaders, hgop']
      exact hfollows'
  · have hfollows' := hfollows.left (fun g hg ↦ by cases hg; exact hid)
    simp only [Receiver.recv, hqueue, Receiver.handle, hgop, unwrap, bind, Except.bind, if_neg hid]
      at hrecv
    cases hrecv
    exact ⟨sessions, fun bs hbs ↦ h.fresh bs (hbs.imp_left (hmem _)),
      fun bs gop' hbs ↦ h.announced bs gop' (hmem _ hbs), h.ids, h.source, h.played, hfollows'⟩

theorem step {action : Action} (h : Plays streams r sessions)
    (hstep : GopStream.step streams r action = some r') :
    ∃ sessions', Plays streams r' sessions' := by
  cases action with
  | accept number =>
    obtain ⟨stream, hstream, haccept⟩ := Option.bind_eq_some_iff.mp hstep
    exact ⟨sessions, h.accept hstream haccept⟩
  | recv =>
    cases hqueue : r.queue with
    | nil =>
      simp only [GopStream.step, Receiver.recv, hqueue] at hstep
      cases hstep
    | cons msg queue =>
      cases msg with
      | newStream recv =>
        simp only [GopStream.step, Receiver.recv, hqueue, Receiver.handle] at hstep
        cases hstep
        exact ⟨sessions, h.newStream hqueue⟩
      | streamIds recv gop => exact h.streamIds hqueue hstep
      | newPacket packet gopId => exact h.newPacket hqueue hstep
  | readIds task => exact ⟨sessions, h.readIds hstep⟩
  | readPacket task => exact ⟨sessions, h.readPacket hstep⟩
  | endIds task =>
    cases hstep
    exact ⟨sessions, h.endIds task⟩
  | endPackets task => exact ⟨sessions, h.endPackets hstep⟩

/-- The only message that `recv` panics at is a hole packet on the current stream. -/
theorem handle_error {e : Fault} (h : Plays streams r sessions) (hqueue : r.queue = msg :: queue)
    (herror : ({ r with queue } : Receiver).handle msg = .error e) :
    ∃ gop hole, r.gop = some gop ∧ msg = .newPacket (.hole hole) gop.id ∧
      e = .panic "Unexpected input hole packet" := by
  cases msg with
  | newStream recv => cases herror
  | streamIds recv gop =>
    simp only [Receiver.handle] at herror
    split_ifs at herror
  | newPacket packet gopId =>
    have hfollows := h.follows
    rw [hqueue] at hfollows
    obtain ⟨gop, hgop⟩ := hfollows.current_isSome
    simp only [Receiver.handle, hgop, unwrap, bind, Except.bind] at herror
    by_cases hid : gopId = gop.id
    · rw [if_pos hid] at herror
      cases packet with
      | codec codec =>
        simp only at herror
        split_ifs at herror
      | media media =>
        simp only at herror
        split_ifs at herror
      | hole hole =>
        cases herror
        exact ⟨gop, hole, hgop, by rw [hid], rfl⟩
    · rw [if_neg hid] at herror
      cases herror

end Plays

/-- Whatever the streams of a peer hold, and in whichever order the tasks run, the receiver
returns what a client returns that looks at some of the streams one after another, each newer
than those before and from its start on. It does not go back to an older group of pictures, two
codec packets that it returns one after another have different numbers, and so do two configs.
It panics at nothing but a hole packet. -/
theorem refines_player {actions : List Action} (h : run (step streams) .start actions = some r) :
    ∃ sessions : List Session, (sessions.map (·.gop.id)).Pairwise (· < ·) ∧
      (∀ s ∈ sessions, s.From streams) ∧ r.returned = (Player.playAll sessions).returned ∧
      (r.returned.map (·.gop.id)).Pairwise (· ≤ ·) ∧
      (0 :: (r.returned.filterMap Returned.codec?).map Prod.fst).IsChain (· ≠ ·) ∧
      (0 :: (r.returned.filterMap Returned.config?).map Prod.fst).IsChain (· ≠ ·) ∧
      ∀ msg queue e, r.queue = msg :: queue →
        ({ r with queue } : Receiver).handle msg = .error e →
        ∃ gop hole, r.gop = some gop ∧ msg = .newPacket (.hole hole) gop.id ∧
          e = .panic "Unexpected input hole packet" := by
  obtain ⟨sessions, hplays⟩ : ∃ sessions, Plays streams r sessions :=
    run_invariant (P := fun r ↦ ∃ sessions, Plays streams r sessions) ⟨[], .start streams⟩
      (fun _ _ _ h hstep ↦ h.elim (fun _ h ↦ h.step hstep)) h
  have hreturned : (Player.playAll sessions).returned = r.returned := by rw [hplays.played]
  have htold := Player.told_playAll sessions
  obtain ⟨hordered, -⟩ := Player.playAll_ordered sessions hplays.ids
  rw [hreturned] at hordered
  have hcodecs := htold.codecs.chain
  have hconfigs := htold.configs.chain
  rw [hreturned] at hcodecs hconfigs
  exact ⟨sessions, hplays.ids, hplays.source, hreturned.symm, hordered, hcodecs, hconfigs,
    fun _ _ _ hqueue herror ↦ hplays.handle_error hqueue herror⟩

/-- The streams of two groups of pictures that have the same codec packet, and one with the id
of the second that the peer forged. -/
def peerStreams : List Bytes :=
  let stream (id : ℕ) (media : UInt8) : Bytes := encode 4 id ++ encode 4 1 ++ encode 4 1 ++
    (⟨1, 0, 0⟩ : CodecPacketHeader).serialize ++ (128 :: .replicate 10 0 ++ [1, media])
  [stream 0 7, stream 1 8, stream 1 9]

def overtakenRun : List Action :=
  [.accept 1, .recv, .readIds 0, .recv, .readPacket 0, .readPacket 0, .recv, .accept 0, .accept 2,
    .recv, .recv, .recv, .readIds 1, .readIds 0, .recv, .recv]

theorem refines_player_overtaken :
    ∃ r, run (step peerStreams) .start overtakenRun = some r ∧
      r.returned = [⟨.codec ⟨⟨1, 0, 0⟩⟩, ⟨1, 1, 1⟩⟩,
        ⟨.media ⟨⟨false, false, 0, 1⟩, [8]⟩, ⟨1, 1, 1⟩⟩] ∧
      ∃ sessions : List Session, (sessions.map (·.gop.id)).Pairwise (· < ·) ∧
        (∀ s ∈ sessions, s.From peerStreams) ∧ r.returned = (Player.playAll sessions).returned := by
  obtain ⟨r, hrun, hreturned⟩ := Option.map_eq_some_iff.mp (show
    (run (step peerStreams) .start overtakenRun).map Receiver.returned =
      some [⟨.codec ⟨⟨1, 0, 0⟩⟩, ⟨1, 1, 1⟩⟩, ⟨.media ⟨⟨false, false, 0, 1⟩, [8]⟩, ⟨1, 1, 1⟩⟩] by
    decide +kernel)
  obtain ⟨sessions, hids, hfrom, hplayed, -⟩ := refines_player hrun
  exact ⟨r, hrun, hreturned, sessions, hids, hfrom, hplayed⟩

end Kymux.GopStream
