import Kymux.Lib.SortedKeys
import Kymux.Lib.Timed
import Kymux.Types.Av

namespace Kymux.Driver

open Av SortedKeys Timed

structure StreamPacket where
  packet : AVPacket
  kypacketSeq : ℕ
deriving DecidableEq

inductive ConfigPacket
  | none
  | ready (packet : StreamPacket)
  | sent
deriving DecidableEq

namespace ConfigPacket

def isReady : ConfigPacket → Bool
  | .ready _ => true
  | _ => false

def isNone : ConfigPacket → Bool
  | .none => true
  | _ => false

def consume : ConfigPacket → Except Fault (StreamPacket × ConfigPacket)
  | .ready packet => .ok (packet, .sent)
  | _ => .error (.panic "self.is_ready()")

def isNext (next : ℕ) : ConfigPacket → Bool
  | .ready packet => packet.kypacketSeq = next
  | _ => false

end ConfigPacket

/-- A packet put together from datagrams. The `object` is what a driver keeps about it
besides: the plain drivers nothing, the others its transmission parameters. -/
structure DatagramPacket (α : Type) where
  object : α
  packet : AVPacket
  kypacketSeq : ℕ
  instant : ℕ
deriving DecidableEq

structure DatagramSegments (β : Type) where
  kypacketSeq : ℕ
  parts : β
deriving DecidableEq

/-- What waits behind one config packet: a `PendingGroup` of an audio driver, and of a
video driver without its number. -/
structure Pending (α β : Type) where
  configPacket : ConfigPacket
  datagrams : List (DatagramPacket α)
  segments : List (DatagramSegments β)
deriving DecidableEq

/-- How a driver puts a packet together from its datagrams, in which it is the drivers
differ. `again` is for a datagram of a packet that is complete already. -/
structure Reassembly (α β ι : Type) where
  new : Pending α β → ι → ℕ → Except Fault β
  addPacket : β → ι → Except Fault β
  isComplete : β → Bool
  assemble : β → Except Fault (α × AVPacket)
  again : α → ι → Except Fault Unit

inductive Taken (α β : Type)
  | config (packet : StreamPacket)
  | datagram (datagram : DatagramPacket α) (expired : List (DatagramSegments β))

namespace Taken

variable {α β : Type}

def kypacketSeq : Taken α β → ℕ
  | .config p => p.kypacketSeq
  | .datagram d _ => d.kypacketSeq

def packet : Taken α β → AVPacket
  | .config p => p.packet
  | .datagram d _ => d.packet

end Taken

inductive Action
  | packet (kypacketSeq : ℕ) (packet : AVPacket)
  | deadline (instant : ℕ)
  | none
deriving DecidableEq

namespace Pending

variable {α β ι : Type}

def new : Pending α β := ⟨.none, [], []⟩

def seqs (p : Pending α β) : List ℕ :=
  p.segments.map DatagramSegments.kypacketSeq ++ p.datagrams.map DatagramPacket.kypacketSeq

def setConfig (p : Pending α β) (packet : StreamPacket) : Pending α β :=
  { p with configPacket := .ready packet }

def prepareDatagramSegments (R : Reassembly α β ι) (p : Pending α β) (kypacketSeq : ℕ) (x : ι)
    (created : ℕ) : Except Fault ℕ × Pending α β :=
  match binarySearchByKey DatagramSegments.kypacketSeq kypacketSeq p.segments with
  | .ok index => (.ok index, p)
  | .error index =>
    match R.new p x created with
    | .error e => (.error e, p)
    | .ok parts =>
      (.ok index, { p with segments := p.segments.insertIdx index ⟨kypacketSeq, parts⟩ })

def insertDatagramPacket (p : Pending α β) (packet : DatagramPacket α) : Pending α β :=
  match binarySearchByKey DatagramPacket.kypacketSeq packet.kypacketSeq p.datagrams with
  | .error index => { p with datagrams := p.datagrams.insertIdx index packet }
  | .ok _ => p

/-- A call that fails still returns the state it leaves. -/
def insertDatagram (R : Reassembly α β ι) (p : Pending α β) (kypacketSeq : ℕ) (x : ι)
    (created assembled : ℕ) : Except Fault Unit × Pending α β :=
  match binarySearchByKey DatagramPacket.kypacketSeq kypacketSeq p.datagrams with
  | .ok index =>
    match p.datagrams[index]? with
    | none => (.error (.panic "index out of bounds"), p)
    | some datagram => (R.again datagram.object x, p)
  | .error _ =>
    match p.prepareDatagramSegments R kypacketSeq x created with
    | (.error e, p) => (.error e, p)
    | (.ok index, p) =>
      match p.segments[index]? with
      | none => (.error (.panic "index out of bounds"), p)
      | some segments =>
        match R.addPacket segments.parts x with
        | .error e => (.error e, p)
        | .ok parts =>
          if R.isComplete parts then
            let p := { p with segments := p.segments.eraseIdx index }
            match R.assemble parts with
            | .error e => (.error e, p)
            | .ok (object, packet) =>
              (.ok (), p.insertDatagramPacket ⟨object, packet, segments.kypacketSeq, assembled⟩)
          else (.ok (), { p with segments := p.segments.set index ⟨segments.kypacketSeq, parts⟩ })

def dropExpiredSegments (p : Pending α β) (untilKypacketSeq : ℕ) :
    List (DatagramSegments β) × Pending α β :=
  let index := match binarySearchByKey DatagramSegments.kypacketSeq untilKypacketSeq p.segments with
    | .ok index => index
    | .error index => index
  (p.segments.take index, { p with segments := p.segments.drop index })

def minInstant (p : Pending α β) : Option ℕ := (p.datagrams.map DatagramPacket.instant).min?

/-- The `next_packet` of an audio driver, and what that of a video driver decides about one
group. What is ready is the config packet or, else, the first of the datagram packets. -/
def poll (p : Pending α β) (minInstant : Option ℕ) (maxBuffering next now : ℕ) : Next Bool :=
  if p.configPacket.isNone then .none
  else if p.configPacket.isNext next then .ready true
  else
    match p.datagrams with
    | [] => .none
    | datagram :: _ =>
      if datagram.kypacketSeq = next then .ready p.configPacket.isReady
      else
        match minInstant with
        | none => .none
        | some instant =>
          if instant + maxBuffering ≤ now then .ready p.configPacket.isReady
          else .deadline (instant + maxBuffering)

/-- The end of `take_next_packet`, on the group it has chosen. -/
def takePacket (p : Pending α β) (configPacket : Bool) :
    Except Fault (Taken α β × Pending α β) := do
  assert (!p.configPacket.isNone) "!pending_group.config_packet.is_none()"
  if configPacket then
    assert p.configPacket.isReady "pending_group.config_packet.is_ready()"
    let (packet, consumed) ← p.configPacket.consume
    return (.config packet, { p with configPacket := consumed })
  else
    match p.datagrams with
    | [] => throw (.panic "Expected a pending datagram")
    | datagram :: datagrams =>
      let (expired, p) :=
        { p with datagrams := datagrams }.dropExpiredSegments datagram.kypacketSeq
      return (.datagram datagram expired, p)

def takeNextPacket (p : Pending α β) (maxBuffering next now : ℕ) :
    Except Fault (Action × Pending α β) :=
  match p.poll p.minInstant maxBuffering next now with
  | .none => .ok (.none, p)
  | .deadline instant => .ok (.deadline instant, p)
  | .ready configPacket => do
    let (taken, p) ← p.takePacket configPacket
    return (.packet taken.kypacketSeq taken.packet, p)

end Pending

end Kymux.Driver
