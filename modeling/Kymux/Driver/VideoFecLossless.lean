import Kymux.Driver.VideoFecCollect
import Kymux.Driver.VideoFecRoom
import Kymux.Driver.VideoFecTurns

namespace Kymux.VideoFec

open Av BigEndian Driver EventLoop Fec Governed

variable {rq : RaptorQ} {calls : List Call} {stats : ProtocolStats} {i j : ℕ}
  {as : List (Arrival (ℕ × Bytes) Clock)} {a : Arrival (ℕ × Bytes) Clock} {clock : Clock}

structure Acceptable (rq : RaptorQ) (calls : List Call) : Prop where
  sized : Sized (packets calls)
  short : ∀ media, .media media ∈ packets calls → media.header.isConfig = true →
    media.payload.length ≤ maxConfigPayload
  accepted : ∀ i (c : Coding calls i), c.Accepted rq

def arrivedKeys (as : List (Arrival (ℕ × Bytes) Clock)) (i : ℕ) : Set SymbolKey :=
  {key | ∃ bytes clock msg, .datagram (i, bytes) clock ∈ as ∧ parse bytes = .ok msg ∧
    msg.content.payloadId.key = key}

theorem arrivedKeys_nil (i : ℕ) : arrivedKeys [] i = ∅ := by
  ext key
  simp [arrivedKeys]

theorem arrivedKeys_other (h : ∀ bytes clock, a ≠ .datagram (i, bytes) clock) :
    arrivedKeys (as ++ [a]) i = arrivedKeys as i := by
  ext key
  constructor
  · rintro ⟨bytes, clock, msg, hmem, hmsg⟩
    obtain hmem | hmem := List.mem_append.mp hmem
    · exact ⟨bytes, clock, msg, hmem, hmsg⟩
    · exact absurd (List.mem_singleton.mp hmem).symm (h bytes clock)
  · rintro ⟨bytes, clock, msg, hmem, hmsg⟩
    exact ⟨bytes, clock, msg, List.mem_append_left _ hmem, hmsg⟩

theorem arrivedKeys_datagram {bytes : Bytes} {msg : DatagramMsg Symbol}
    (h : parse bytes = .ok msg) :
    arrivedKeys (as ++ [.datagram (i, bytes) clock]) i =
      insert msg.content.payloadId.key (arrivedKeys as i) := by
  ext key
  constructor
  · rintro ⟨bytes', clock', msg', hmem, hparse, hkey⟩
    obtain hmem | hmem := List.mem_append.mp hmem
    · exact .inr ⟨bytes', clock', msg', hmem, hparse, hkey⟩
    · cases List.mem_singleton.mp hmem
      cases hparse.symm.trans h
      exact .inl hkey.symm
  · rintro (rfl | ⟨bytes', clock', msg', hmem, hmsg⟩)
    · exact ⟨bytes, clock, msg, by simp, h, rfl⟩
    · exact ⟨bytes', clock', msg', List.mem_append_left _ hmem, hmsg⟩

def payloadLength : AVPacket → ℕ
  | .media media => media.payload.length
  | _ => 0

def State.Fits (s : State rq) : RecvMsg Symbol → Prop
  | .stream msg =>
    let n := s.numbers msg.rawKypacketSeq msg.rawGroupSeq
    s.nextKypacketSeq ≤ n.kypacketSeq →
    s.pendingGroups.HasRoom n.groupSeq (payloadLength msg.packet)
  | .datagram msg =>
    let n := s.numbers msg.rawKypacketSeq msg.rawGroupSeq
    s.nextKypacketSeq ≤ n.kypacketSeq → n.kypacketSeq ∉ s.pendingGroups.pendingGroups.mediaSeqs →
      s.pendingGroups.HasRoom n.groupSeq (reservation msg.content.oti)

instance (s : State rq) : (msg : RecvMsg Symbol) → Decidable (s.Fits msg)
  | .stream _ => inferInstanceAs (Decidable (_ → _))
  | .datagram _ => inferInstanceAs (Decidable (_ → _ → _))

def State.FitsRead (s : State rq) : Except Fault (RecvMsg Symbol) → Prop
  | .ok msg => s.Fits msg
  | .error _ => True

instance (s : State rq) : (r : Except Fault (RecvMsg Symbol)) → Decidable (s.FitsRead r)
  | .ok msg => inferInstanceAs (Decidable (s.Fits msg))
  | .error _ => isTrue trivial

def Fits (x : Bytes × State rq) : Arrival (ℕ × Bytes) Clock → Prop
  | .record _ => x.2.FitsRead ((recvStreamPacket x.1).map (fun r ↦ .stream r.1))
  | .datagram d _ => x.2.FitsRead ((parse d.2).map .datagram)
  | .timer => True

instance (x : Bytes × State rq) : (a : Arrival (ℕ × Bytes) Clock) → Decidable (Fits x a)
  | .record _ => inferInstanceAs (Decidable (x.2.FitsRead _))
  | .datagram _ _ => inferInstanceAs (Decidable (x.2.FitsRead _))
  | .timer => isTrue trivial

/-- A state in which nothing is lost: the first `m` configs were read and these symbols of each
media packet have arrived, everything before the next expected packet was delivered, and the
rest waits. -/
structure Lossless (rq : RaptorQ) (calls : List Call) (stats : ProtocolStats) (m : ℕ)
    (arrived : ℕ → Set SymbolKey) (s : State rq) : Prop where
  coded : s.pendingGroups.pendingGroups.Obey (coded rq calls m)
  unretired : s.pendingGroups.retiredThrough = none
  inTurn : InTurn (packets calls) s.pendingGroups.pendingGroups s.nextKypacketSeq s.txClient
  dropped : s.protocolStats.droppedPackets = stats.droppedPackets
  read : ∀ j ∈ (configs AVPacket.isConfig (packets calls)).take m, s.nextKypacketSeq ≤ j →
    s.pendingGroups.pendingGroups.Any (groupOf (packets calls) j) (Pending.HasConfig j)
  received : ∀ i, (arrived i).Nonempty → s.nextKypacketSeq ≤ i →
    s.pendingGroups.pendingGroups.Any (groupOf (packets calls) i) (Queue.HasSymbols i (arrived i))

theorem numbers_ne_nil_of_hasConfig {p : Queue rq} (h : p.HasConfig j) : p.numbers ≠ [] :=
  List.ne_nil_of_mem (Pending.mem_numbers.mpr (.inl h))

theorem Queue.HasSymbols.numbers_ne_nil {keys : Set SymbolKey} {p : Queue rq}
    (h : Queue.HasSymbols i keys p) : p.numbers ≠ [] := by
  have hmem : i ∈ p.seqs := by
    obtain hdatagram | ⟨parts, hparts, -⟩ := h
    · exact Pending.mem_seqs.mpr (.inr hdatagram)
    · exact Pending.mem_seqs.mpr (.inl ⟨_, hparts, rfl⟩)
  exact List.ne_nil_of_mem (Pending.mem_numbers.mpr (.inr hmem))

theorem coded_mono {m m' : ℕ} {gs : Groups VideoObject (Parts rq)} (hm : m ≤ m')
    (h : gs.Obey (coded rq calls m)) : gs.Obey (coded rq calls m') :=
  h.imp (fun _ _ hle ↦ hle.trans hm) (fun _ hle ↦ hle.trans hm) (fun _ _ ↦ id) (fun _ _ ↦ id)

namespace Lossless

variable {m : ℕ} {arrived : ℕ → Set SymbolKey} {s s' : State rq} {is : List ℕ} {b : Bool}
  {n : VideoState.Numbers}

theorem start (rq : RaptorQ) (calls : List Call) (stats : ProtocolStats) :
    Lossless rq calls stats 0 (arrivedKeys []) (.start .new stats) where
  coded := by simp [Groups.Obey, VideoState.start, PendingGroups.new]
  unretired := rfl
  inTurn := .start _
  dropped := rfl
  read j hj := by simp at hj
  received i hi := by simp [arrivedKeys_nil] at hi

/-- A turn of the drain takes nothing but the packet that comes next. -/
theorem drain {now : ℕ} (h : Lossless rq calls stats m arrived s) (hholds : Holds rq calls s is)
    (hearly : ∀ g ∈ s.pendingGroups.pendingGroups, ∀ d ∈ g.datagrams,
      now < d.instant + maxBuffering) (hdrain : s.drain now = .ok (s', b)) :
      Lossless rq calls stats m arrived s' := by
  cases State.drain_drained hholds.ordered hdrain with
  | none | deadline => exact ⟨h.coded, h.unretired, h.inTurn, h.dropped, h.read, h.received⟩
  | @packet drained g rest c taken p hgs _ hpoll htook =>
    have hg : g ∈ s.pendingGroups.pendingGroups := hgs ▸ List.mem_append_right _ List.mem_cons_self
    have hturn : taken.kypacketSeq = s.nextKypacketSeq := by
      by_contra hne
      obtain ⟨-, ⟨k, hk, d, hd, hlate⟩, -⟩ := Honest.out_of_turn hholds hg hpoll htook hne
      exact absurd (hearly k hk d hd) (not_lt.mpr hlate)
    refine ⟨?_, h.unretired, h.inTurn.took hholds hgs hpoll htook hturn, ?_, ?_, ?_⟩
    · refine Groups.Obey.took (hgs ▸ h.coded) htook (fun hb ↦ ?_)
      cases htook with
      | config hc => exact (h.coded g hg).ready _ hc
      | datagram => cases hb
    · simp only [State.deliver, VideoState.forward, hturn, gt_iff_lt, lt_irrefl, if_false,
        addFec_droppedPackets]
      exact h.dropped
    · intro j hj hle
      have hlt : s.nextKypacketSeq < j := hturn ▸ hle
      refine hholds.any_took hgs hpoll htook hturn (fun _ ↦ numbers_ne_nil_of_hasConfig) ?_
        (h.read j hj hlt.le)
      rintro ⟨c, hc, rfl⟩
      exact absurd ((htook.ready_eq hpoll hc).trans hturn) hlt.ne'
    · intro i hi hle
      have hlt : s.nextKypacketSeq < i := hturn ▸ hle
      refine hholds.any_took hgs hpoll htook hturn (fun _ ↦ Queue.HasSymbols.numbers_ne_nil) ?_
        (h.received i hi hlt.le)
      rintro (⟨d, hd, rfl⟩ | ⟨parts, hparts, hkeys⟩)
      · exact .inl ⟨d, htook.datagram_left hd (hturn ▸ hlt.ne'), rfl⟩
      · exact .inr ⟨parts, htook.segments_left hparts (hturn ▸ hlt.le), hkeys⟩

/-- The next config is read and waits: its group cannot have one. -/
theorem stream {media : MediaPacket} {rawKypacketSeq rawGroupSeq : UInt32}
    (h : Lossless rq calls stats m arrived s) (hholds : Holds rq calls s is)
    (hget : (configs AVPacket.isConfig (packets calls))[m]? = some j)
    (hn : s.numbers rawKypacketSeq rawGroupSeq = n) (hk : n.kypacketSeq = j)
    (hg : n.groupSeq = groupOf (packets calls) j) (hconfig : media.header.isConfig = true)
    (hfits : s.Fits (.stream ⟨.media media, rawKypacketSeq, rawGroupSeq⟩)) (clock : Clock) :
    ∃ s', s.select (.message (.ok (.stream ⟨.media media, rawKypacketSeq, rawGroupSeq⟩)) clock) =
      .ok (s', true) ∧ Lossless rq calls stats (m + 1) arrived s' := by
  have hgroup : groupOf (packets calls) j = m + 1 := group_configs hget
  have hcoded := coded_mono (Nat.le_succ m) h.coded
  have htake : (configs AVPacket.isConfig (packets calls)).take (m + 1) =
      (configs AVPacket.isConfig (packets calls)).take m ++ [j] := by
    rw [List.take_add_one, hget]
    rfl
  simp only [State.Fits, hn, hk, hg, payloadLength] at hfits
  simp only [State.select, State.selectWith, VideoState.receive, AVPacket.isCodec,
    Bool.false_eq_true, if_false, hn, VideoState.receiveStream, hk, hg, ge_iff_le]
  by_cases hge : s.nextKypacketSeq ≤ j
  · obtain ⟨pre, g, post, hplace, hins⟩ :=
      PendingGroups.insertStreamPacket_place hholds.ordered (hfits hge) hconfig j clock
    have hlater : ¬ groupOf (packets calls) j ≤ m := by omega
    have hnone := (hplace.obeys h.coded).isNone (fun _ ↦ hlater) hlater
    rw [if_pos hge, hins hnone]
    refine ⟨_, rfl, ?_, h.unretired, ⟨h.inTurn.delivered, h.inTurn.bounded, fun hpos ↦ ?_⟩,
      h.dropped, ?_, ?_⟩
    · exact hplace.obey hcoded ((hplace.obeys hcoded).setConfig hgroup.le)
    · refine hplace.any (fun _ hsent ↦ ?_) (h.inTurn.current hpos)
      rw [hsent] at hnone
      cases hnone
    · intro k hk hle
      rw [htake] at hk
      obtain hk | hk := List.mem_append.mp hk
      · refine hplace.any ?_ (h.read k hk hle)
        rintro _ ⟨c, hc, -⟩
        rw [hc] at hnone
        cases hnone
      · obtain rfl := List.mem_singleton.mp hk
        exact ⟨_, List.mem_append_right _ List.mem_cons_self, rfl, _, rfl, rfl⟩
    · exact fun i hi hle ↦ hplace.any (fun _ ↦ id) (h.received i hi hle)
  · rw [if_neg hge]
    refine ⟨_, rfl, hcoded, h.unretired, h.inTurn, h.dropped, fun k hk hle ↦ ?_, h.received⟩
    rw [htake] at hk
    obtain hk | hk := List.mem_append.mp hk
    · exact h.read k hk hle
    · obtain rfl := List.mem_singleton.mp hk
      exact absurd hle hge

theorem datagram {msg : DatagramMsg Symbol} (h : Lossless rq calls stats m arrived s)
    (hrq : rq.Genuine) (hholds : Holds rq calls s is)
    (hn : s.numbers msg.rawKypacketSeq msg.rawGroupSeq = n) (hk : n.kypacketSeq = i)
    (hg : n.groupSeq = groupOf (packets calls) i) (haccepted : ∀ c : Coding calls i, c.Accepted rq)
    (hx : OfPacket rq calls i msg.content) (hfits : s.Fits (.datagram msg)) (clock : Clock) :
    ∃ s' b, s.select (.message (.ok (.datagram msg)) clock) = .ok (s', b) ∧
      Lossless rq calls stats m
        (Function.update arrived i (insert msg.content.payloadId.key (arrived i))) s' := by
  obtain ⟨c, hoti, hsymbol⟩ := hx
  have hc := haccepted c
  simp only [State.Fits, hn, hk, hg] at hfits
  simp only [State.select, State.selectWith, VideoState.receive, VideoState.receiveDatagram, hn, hk,
    hg]
  by_cases hlt : i < s.nextKypacketSeq
  · rw [if_pos hlt]
    refine ⟨_, _, rfl, h.coded, h.unretired, h.inTurn, h.dropped, h.read, fun k hk hle ↦ ?_⟩
    have hne : k ≠ i := (hlt.trans_le hle).ne'
    rw [Function.update_of_ne hne] at hk ⊢
    exact h.received k hk hle
  · rw [if_neg hlt]
    have hge := not_lt.mp hlt
    obtain ⟨pre, g, post, p, hplace, hins, hgs⟩ := PendingGroups.insertDatagram_place hholds.ordered
      (groupOf (packets calls) i) i (hc.valid hoti hsymbol).oti h.unretired
      (fun k hk hmem ↦ (honest_seqs (hholds.waits k hk) hmem).group.symm) (hfits hge) clock
    have hobeys := hplace.obeys h.coded
    have hp : g.Ordered := hplace.all hholds.ordered.each Pending.Ordered.new
    have hr := inserted_ok hrq hc hoti hsymbol hobeys hins
    generalize s.pendingGroups.insertDatagram (groupOf (packets calls) i) i msg.content clock = out
      at hins hgs hr ⊢
    obtain ⟨r, gs'⟩ := out
    obtain rfl : r = .ok () := hr
    obtain rfl : gs' = _ := hgs
    have hconfig : p.configPacket = g.configPacket := hins.configPacket_eq
    refine ⟨_, _, rfl, hplace.obey h.coded (coded_inserted hrq hc hoti hsymbol hobeys hins hp),
      h.unretired, ⟨h.inTurn.delivered, h.inTurn.bounded, fun hpos ↦ ?_⟩, h.dropped, ?_, ?_⟩
    · exact hplace.any (fun _ hsent ↦ hconfig.trans hsent) (h.inTurn.current hpos)
    · intro k hk hle
      refine hplace.any ?_ (h.read k hk hle)
      rintro _ ⟨c, hc, hseq⟩
      exact ⟨c, hconfig.trans hc, hseq⟩
    · intro k hk hle
      by_cases hne : k = i
      · subst hne
        rw [Function.update_self]
        refine ⟨⟨p, _⟩, List.mem_append_right _ List.mem_cons_self, rfl,
          hasSymbols_inserted hrq hc hoti hsymbol hobeys hins hp ?_⟩
        refine (Set.eq_empty_or_nonempty (arrived k)).imp id fun hsome ↦ ?_
        obtain ⟨q, hq, hqseq, hhas⟩ := h.received k hsome hle
        rwa [hplace.eq hholds.ordered.sorted hq hqseq] at hhas
      · rw [Function.update_of_ne hne] at hk ⊢
        exact hplace.any (fun _ hhas ↦ Queue.HasSymbols.inserted_other hhas hne hins)
          (h.received k hk hle)

end Lossless

end Kymux.VideoFec
