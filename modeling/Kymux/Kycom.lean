import Kymux.Lib.Machine
import Kymux.Lib.Probe

namespace Kymux.Kycom

structure Connection where
  endpointId : UInt16
  number : ℕ
deriving DecidableEq

inductive ErrorKind
  | connectionAborted
deriving DecidableEq

structure Channel where
  endpointId : UInt16
  results : List (Except ErrorKind Connection)
  dropped : Bool

/-- The sender of a oneshot channel is known by the place of the channel that has its
receiver. -/
structure EndpointMap where
  nextId : UInt16
  map : AList (fun _ : UInt16 ↦ ℕ)

namespace EndpointMap

def default : EndpointMap := ⟨0, ∅⟩

def length (m : EndpointMap) : ℕ := m.map.entries.length

/-- The loop of `register_channel`, up to a number of turns; `none` when they do not
suffice. -/
def searchId (map : AList (fun _ : UInt16 ↦ ℕ)) : ℕ → UInt16 → Option (UInt16 × UInt16)
  | 0, _ => none
  | n + 1, nextId =>
    let endpointId := nextId
    let nextId := nextId + 1
    match map.lookup endpointId with
    | some _ => searchId map n nextId
    | none => some (endpointId, nextId)

end EndpointMap

/-- The server: the mutex with the channels that wait, and whether it is poisoned, the
listener, and whether a panic within a panic has aborted the process. -/
structure KyCom where
  pendingEndpoints : Option EndpointMap
  poisoned : Bool
  listening : Bool
  aborted : Bool
  channels : List Channel

inductive Registration
  | channel (endpointId : UInt16)
  | error (kind : ErrorKind)
  | panic (message : String)
  | loops
deriving DecidableEq

inductive Action
  | registerChannel
  | accept (connection : Connection)
  | stop
  | drop (channel : ℕ)

/-- A send fails, and is ignored, when the receiver was dropped. -/
def Channel.give (result : Except ErrorKind Connection) (c : Channel) : Channel :=
  if c.dropped then c else { c with results := c.results ++ [result] }

namespace KyCom

def new : KyCom := ⟨some .default, false, true, false, []⟩

def send (s : KyCom) (tx : ℕ) (result : Except ErrorKind Connection) : KyCom :=
  { s with channels := s.channels.modify tx (Channel.give result) }

def registerChannel (s : KyCom) : Registration × KyCom :=
  if s.poisoned then (.panic "PoisonError", s)
  else
    match s.pendingEndpoints with
    | none => (.error .connectionAborted, s)
    | some m =>
      if m.length = 2 ^ 16 then
        -- the lock is held
        (.panic "assertion failed: pending_endpoints.map.len() != 1 << 16",
          { s with poisoned := true })
      else
        match EndpointMap.searchId m.map (2 ^ 16) m.nextId with
        | none => (.loops, s)
        | some (endpointId, nextId) =>
          (.channel endpointId, { s with
            pendingEndpoints := some ⟨nextId, m.map.insert endpointId s.channels.length⟩
            channels := s.channels ++ [⟨endpointId, [], false⟩] })

/-- A turn of `listen`. A panic of its own meets that of the guard. -/
def listen (s : KyCom) (connection : Connection) : KyCom :=
  if s.poisoned then { s with aborted := true }
  else
    match s.pendingEndpoints with
    | none => { s with aborted := true }
    | some m =>
      match m.map.lookup connection.endpointId with
      | none => s
      | some tx =>
        let erased := { m with map := m.map.erase connection.endpointId }
        { s with pendingEndpoints := some erased }.send tx (.ok connection)

def dropGuard (s : KyCom) : KyCom :=
  if s.poisoned then { s with listening := false }
  else
    match s.pendingEndpoints with
    | none => { s with listening := false, poisoned := true }
    | some m =>
      (m.map.entries.map Sigma.snd).foldl (fun s tx ↦ s.send tx (.error .connectionAborted))
        { s with pendingEndpoints := none, listening := false }

def step (s : KyCom) (a : Action) : Option KyCom :=
  if s.aborted then none
  else
    match a with
    | .registerChannel => some s.registerChannel.2
    | .accept connection => if s.listening then some (s.listen connection) else none
    | .stop => if s.listening then some s.dropGuard else none
    | .drop channel =>
      some { s with channels := s.channels.modify channel ({ · with dropped := true }) }

end KyCom

end Kymux.Kycom
