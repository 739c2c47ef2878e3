import Kymux.Fec
import Kymux.Driver.Groups

namespace Kymux.VideoFec

open Av Driver Fec SortedKeys

/-- Instants and durations count nanoseconds. -/
def maxBuffering : ℕ := 50000000

@[ext]
structure VideoFecStats where
  sourceSymbols : ℕ
  missingSourceSymbols : ℕ
  unrecoveredSourceSymbols : ℕ
deriving DecidableEq

namespace VideoFecStats

instance : Zero VideoFecStats := ⟨⟨0, 0, 0⟩⟩

/-- `accumulate` -/
instance : Add VideoFecStats := ⟨fun a b ↦
  ⟨a.sourceSymbols + b.sourceSymbols, a.missingSourceSymbols + b.missingSourceSymbols,
    a.unrecoveredSourceSymbols + b.unrecoveredSourceSymbols⟩⟩

@[simp] theorem zero_sourceSymbols : (0 : VideoFecStats).sourceSymbols = 0 := rfl

@[simp] theorem add_sourceSymbols (a b : VideoFecStats) :
    (a + b).sourceSymbols = a.sourceSymbols + b.sourceSymbols := rfl

@[simp] theorem zero_missingSourceSymbols : (0 : VideoFecStats).missingSourceSymbols = 0 := rfl

@[simp] theorem add_missingSourceSymbols (a b : VideoFecStats) :
    (a + b).missingSourceSymbols = a.missingSourceSymbols + b.missingSourceSymbols := rfl

@[simp] theorem zero_unrecoveredSourceSymbols :
    (0 : VideoFecStats).unrecoveredSourceSymbols = 0 := rfl

@[simp] theorem add_unrecoveredSourceSymbols (a b : VideoFecStats) :
    (a + b).unrecoveredSourceSymbols =
      a.unrecoveredSourceSymbols + b.unrecoveredSourceSymbols := rfl

instance : AddCommMonoid VideoFecStats where
  add_assoc a b c := by ext <;> simp [add_assoc]
  zero_add a := by ext <;> simp
  add_zero a := by ext <;> simp
  add_comm a b := by ext <;> simp [add_comm]
  nsmul := nsmulRec

end VideoFecStats

structure VideoObject where
  oti : Oti
  fecStats : VideoFecStats
deriving DecidableEq

structure Parts (rq : RaptorQ) where
  decoder : ObjectDecoder rq
  assembled : Option BigEndian.Bytes
  created : ℕ

namespace Parts

variable {rq : RaptorQ}

def new (oti : Oti) (created : ℕ) : Except Fault (Parts rq) := do
  let decoder ← ObjectDecoder.new oti maxVideoPayload
  return ⟨decoder, none, created⟩

def addPacket (s : Parts rq) (x : Symbol) : Except Fault (Parts rq) := do
  let (assembled, decoder) ← s.decoder.decode x.oti x.payloadId x.data
  return { s with decoder, assembled }

def isComplete (s : Parts rq) : Bool := s.assembled.isSome

def fecStats (s : Parts rq) : VideoFecStats :=
  let missing := sourceSymbols s.decoder.oti - s.decoder.receivedSources
  ⟨sourceSymbols s.decoder.oti, missing, if s.isComplete then 0 else missing⟩

def assemble (s : Parts rq) : Except Fault (VideoObject × AVPacket) :=
  match s.assembled with
  | none => .error (invalid "incomplete video object")
  | some data => do
    let packet ← mediaPacket data
    return (⟨s.decoder.oti, s.fecStats⟩, packet)

end Parts

variable {rq : RaptorQ}

def reassembly (rq : RaptorQ) : Reassembly VideoObject (Parts rq) Symbol where
  new _ x created := Parts.new x.oti created
  addPacket := Parts.addPacket
  isComplete := Parts.isComplete
  assemble := Parts.assemble
  again object x :=
    if object.oti ≠ x.oti then .error (invalid "OTI changed for completed video object") else .ok ()

abbrev Group (rq : RaptorQ) := PendingGroup VideoObject (Parts rq)

abbrev Queue (rq : RaptorQ) := Pending VideoObject (Parts rq)

namespace Queue

def contains (g : Queue rq) (seq : ℕ) : Bool :=
  found DatagramSegments.kypacketSeq seq g.segments ||
    found DatagramPacket.kypacketSeq seq g.datagrams

def usage (g : Queue rq) : ℕ × ℕ :=
  let objects := g.segments.length + g.datagrams.length
  let bytes := (g.segments.map (fun s ↦ reservation s.parts.decoder.oti)).sum +
    (g.datagrams.map (fun d ↦ reservation d.object.oti)).sum
  match g.configPacket with
  | .ready ⟨.media media, _⟩ => (objects + 1, bytes + media.payload.length)
  | _ => (objects, bytes)

def discardedFecStats (g : Queue rq) : VideoFecStats :=
  (g.datagrams.map (fun d ↦ d.object.fecStats)).sum +
  (g.segments.map (fun s ↦ s.parts.fecStats)).sum

end Queue

structure PendingGroups (rq : RaptorQ) where
  pendingGroups : Groups VideoObject (Parts rq)
  retiredThrough : Option ℕ
  retiredStats : VideoFecStats

structure Oldest where
  index : ℕ
  isDatagram : Bool
  seq : ℕ
  instant : ℕ

/-- The readings of the clock during one insertion. -/
structure Clock where
  admission : ℕ
  created : ℕ
  assembled : ℕ

inductive Action
  | packet (kypacketSeq : ℕ) (packet : AVPacket) (fecStats : VideoFecStats)
  | deadline (instant : ℕ)
  | none

namespace PendingGroups

def new : PendingGroups rq := ⟨[], none, 0⟩

def room (groups : ℕ) : Except Fault Unit :=
  if groups ≥ maxPendingGroups then .error (invalid "too many pending video groups") else .ok ()

def objects (s : PendingGroups rq) : ℕ :=
  (s.pendingGroups.map (fun g ↦ (Queue.usage g.toPending).1)).sum

def bytes (s : PendingGroups rq) : ℕ :=
  (s.pendingGroups.map (fun g ↦ (Queue.usage g.toPending).2)).sum

def checkCapacity (s : PendingGroups rq) (additional : ℕ) : Except Fault Unit :=
  checkPending s.objects s.bytes additional maxVideoPayload

def candidates (g : Group rq) (index : ℕ) : List Oldest :=
  (g.segments.head?.map (fun s ↦ ⟨index, false, s.kypacketSeq, s.parts.created⟩)).toList ++
    (g.datagrams.head?.map (fun d ↦ ⟨index, true, d.kypacketSeq, d.instant⟩)).toList

def older (oldest : Option Oldest) (c : Oldest) : Option Oldest :=
  if oldest.all (fun o ↦ c.seq < o.seq) then some c else oldest

def oldestMedia (s : PendingGroups rq) : Option Oldest :=
  (s.pendingGroups.zipIdx.flatMap (fun g ↦ candidates g.1 g.2)).foldl older none

/-! The operations take what they compute about objects as a parameter. The numbers are exact
here; `Checked` puts in the arithmetic of the machine. -/

def removeFrontWith (fecStats : Parts rq → Except Fault VideoFecStats) (p : Queue rq)
    (isDatagram : Bool) : Except Fault (VideoFecStats × Queue rq) :=
  if isDatagram then
    .ok ((p.datagrams.head?.map (fun d ↦ d.object.fecStats)).getD 0,
      { p with datagrams := p.datagrams.tail })
  else
    match p.segments with
    | [] => .error (.panic "removal index (is 0) should be < len (is 0)")
    | segments :: rest => do
      let stats ← fecStats segments.parts
      return (stats, { p with segments := rest })

def removeFront (p : Queue rq) (isDatagram : Bool) : Except Fault (VideoFecStats × Queue rq) :=
  removeFrontWith (fun u ↦ .ok u.fecStats) p isDatagram

def retireOldestMediaWith
    (removeFront : Queue rq → Bool → Except Fault (VideoFecStats × Queue rq))
    (s : PendingGroups rq) (now : ℕ) : Except Fault (Bool × PendingGroups rq) :=
  match s.oldestMedia with
  | none => .ok (false, s)
  | some oldest =>
    if oldest.instant + maxBuffering > now then .ok (false, s)
    else
      match s.pendingGroups[oldest.index]? with
      | none => .error (.panic "index out of bounds")
      | some g => do
        let (stats, p) ← removeFront g.toPending oldest.isDatagram
        return (true, {
          pendingGroups :=
            if p.configPacket.isNone ∧ p.segments.isEmpty ∧ p.datagrams.isEmpty then
              s.pendingGroups.eraseIdx oldest.index
            else s.pendingGroups.set oldest.index ⟨p, g.groupSeq⟩
          retiredThrough :=
            some (s.retiredThrough.elim oldest.seq (fun retired ↦ max retired oldest.seq))
          retiredStats := s.retiredStats + stats })

def retireOldestMedia (s : PendingGroups rq) (now : ℕ) : Except Fault (Bool × PendingGroups rq) :=
  retireOldestMediaWith removeFront s now

def mediaCount (s : PendingGroups rq) : ℕ :=
  (s.pendingGroups.map (fun g ↦ g.segments.length + g.datagrams.length)).sum

/-- The retry loop of `admit`, up to a number of turns; `none` when they do not suffice. -/
def admitLoopWith (checkCapacity : PendingGroups rq → Except Fault Unit)
    (retireOldestMedia : PendingGroups rq → Except Fault (Bool × PendingGroups rq)) :
    ℕ → PendingGroups rq → Option (Except Fault Unit × PendingGroups rq)
  | 0, _ => none
  | n + 1, s =>
    match checkCapacity s with
    | .ok () => some (.ok (), s)
    | .error error =>
      match retireOldestMedia s with
      | .error e => some (.error e, s)
      | .ok (false, s) => some (.error error, s)
      | .ok (true, s) => admitLoopWith checkCapacity retireOldestMedia n s

def admitLoop (additional now n : ℕ) (s : PendingGroups rq) :
    Option (Except Fault Unit × PendingGroups rq) :=
  admitLoopWith (fun s ↦ s.checkCapacity additional) (fun s ↦ s.retireOldestMedia now) n s

/-- Every retry removes one object, so there are no more turns than objects and one. -/
def admitObject (s : PendingGroups rq) (additional now : ℕ) :
    Except Fault Unit × PendingGroups rq :=
  (admitLoop additional now (s.mediaCount + 1) s).getD (.error (.panic "unreachable"), s)

def insertStreamPacketWith
    (admitObject : PendingGroups rq → ℕ → ℕ → Except Fault Unit × PendingGroups rq)
    (s : PendingGroups rq) (groupSeq kypacketSeq : ℕ) (packet : AVPacket) (clock : Clock) :
    Except Fault Unit × PendingGroups rq :=
  match packet with
  | .media media =>
    if ¬ media.header.isConfig then (.error (invalid "expected video config"), s)
    else
      match admitObject s media.payload.length clock.admission with
      | (.error e, s) => (.error e, s)
      | (.ok (), s) =>
        match s.pendingGroups.preparePendingGroup room groupSeq with
        | (.error e, gs) => (.error e, { s with pendingGroups := gs })
        | (.ok index, gs) =>
          match gs[index]? with
          | none => (.error (.panic "index out of bounds"), { s with pendingGroups := gs })
          | some g =>
            if ¬ g.configPacket.isNone then
              (.error (invalid "duplicate video group config"), { s with pendingGroups := gs })
            else
              let p := g.setConfig ⟨packet, kypacketSeq⟩
              (.ok (), { s with pendingGroups := gs.set index ⟨p, g.groupSeq⟩ })
  | _ => (.error (invalid "expected video config"), s)

def insertStreamPacket (s : PendingGroups rq) (groupSeq kypacketSeq : ℕ) (packet : AVPacket)
    (clock : Clock) : Except Fault Unit × PendingGroups rq :=
  insertStreamPacketWith admitObject s groupSeq kypacketSeq packet clock

def isRetired (s : PendingGroups rq) (kypacketSeq : ℕ) : Bool :=
  s.retiredThrough.any (fun retired ↦ kypacketSeq ≤ retired)

/-- The end of `insert_datagram`, after admission. -/
def storeDatagramWith (R : Reassembly VideoObject (Parts rq) Symbol) (s : PendingGroups rq)
    (groupSeq kypacketSeq : ℕ) (x : Symbol) (clock : Clock) :
    Except Fault Unit × PendingGroups rq :=
  match s.pendingGroups.preparePendingGroup room groupSeq with
  | (.error e, gs) => (.error e, { s with pendingGroups := gs })
  | (.ok index, gs) =>
    match gs[index]? with
    | none => (.error (.panic "index out of bounds"), { s with pendingGroups := gs })
    | some g =>
      let (r, p) := g.insertDatagram R kypacketSeq x clock.created clock.assembled
      (r, { s with pendingGroups := gs.set index ⟨p, g.groupSeq⟩ })

def storeDatagram (s : PendingGroups rq) (groupSeq kypacketSeq : ℕ) (x : Symbol) (clock : Clock) :
    Except Fault Unit × PendingGroups rq :=
  storeDatagramWith (reassembly rq) s groupSeq kypacketSeq x clock

def insertDatagramWith (validateOti : Oti → ℕ → Except Fault Unit)
    (reservation : Oti → Except Fault ℕ)
    (admitObject : PendingGroups rq → ℕ → ℕ → Except Fault Unit × PendingGroups rq)
    (storeDatagram : PendingGroups rq → ℕ → ℕ → Symbol → Clock →
      Except Fault Unit × PendingGroups rq)
    (s : PendingGroups rq) (groupSeq kypacketSeq : ℕ) (x : Symbol) (clock : Clock) :
    Except Fault Unit × PendingGroups rq :=
  match validateOti x.oti maxVideoPayload with
  | .error e => (.error e, s)
  | .ok () =>
    if s.isRetired kypacketSeq then (.ok (), s)
    else if s.pendingGroups.any
        (fun g ↦ g.groupSeq ≠ groupSeq && Queue.contains g.toPending kypacketSeq) then
      (.error (invalid "object changed video group"), s)
    else if s.pendingGroups.any
        (fun g ↦ g.groupSeq = groupSeq && Queue.contains g.toPending kypacketSeq) then
      storeDatagram s groupSeq kypacketSeq x clock
    else
      match reservation x.oti with
      | .error e => (.error e, s)
      | .ok additional =>
        match admitObject s additional clock.admission with
        | (.error e, s) => (.error e, s)
        | (.ok (), s) =>
          if s.isRetired kypacketSeq then (.ok (), s)
          else storeDatagram s groupSeq kypacketSeq x clock

def insertDatagram (s : PendingGroups rq) (groupSeq kypacketSeq : ℕ) (x : Symbol)
    (clock : Clock) : Except Fault Unit × PendingGroups rq :=
  insertDatagramWith validateOti (fun oti ↦ .ok (reservation oti)) admitObject storeDatagram s
    groupSeq kypacketSeq x clock

def nextPacket (s : PendingGroups rq) (next now : ℕ) : NextPacket :=
  s.pendingGroups.nextPacket maxBuffering next now

def takenStats : Taken VideoObject (Parts rq) → VideoFecStats
  | .config _ => 0
  | .datagram d expired => (expired.map (fun s ↦ s.parts.fecStats)).sum + d.object.fecStats

def takeNextPacketWith (discardedFecStats : List (Group rq) → Except Fault VideoFecStats)
    (takenStats : Taken VideoObject (Parts rq) → Except Fault VideoFecStats)
    (s : PendingGroups rq) (next now : ℕ) : Except Fault (Action × PendingGroups rq) :=
  match s.nextPacket next now with
  | .none => .ok (.none, s)
  | .deadline instant => .ok (.deadline instant, s)
  | .ready ref => do
    let (drained, taken, gs) ← s.pendingGroups.takeRef ref
    let discarded ← discardedFecStats drained
    let last ← takenStats taken
    return (.packet taken.kypacketSeq taken.packet (s.retiredStats + discarded + last),
      { s with pendingGroups := gs, retiredStats := 0 })

def takeNextPacket (s : PendingGroups rq) (next now : ℕ) :
    Except Fault (Action × PendingGroups rq) :=
  takeNextPacketWith
    (fun drained ↦ .ok (drained.map (fun g ↦ Queue.discardedFecStats g.toPending)).sum)
    (fun taken ↦ .ok (takenStats taken)) s next now

end PendingGroups

end Kymux.VideoFec
