import Kymux.Control
import Kymux.Lib.Sized

namespace Kymux.Control

open BigEndian

/-- `rmp_serde` for the messages, of which `send_msg` writes the length before them. -/
abbrev Serde := Sized.Serde 4 ControlMsg

/-- Where the task of `recv_msgs` is: `accept` awaits the dummy byte before it starts it, it
reads, or it has returned. -/
inductive Reading
  | accepting
  | running
  | ended
  | failed
deriving DecidableEq

/-- One side, with the bytes of its control stream: those that `send_msg` has still to write,
those on their way, and those that `recv_msg` has got of the next message. The stream of
messages is not used. -/
structure Wired where
  peer : Peer
  sending : Bytes
  transit : Bytes
  finished : Bool
  reading : Reading
  got : Bytes

namespace Wired

def server : Wired := ⟨.start System.initiatorServer, [], [], false, .accepting, []⟩

def client : Wired := ⟨.start System.initiatorClient, [], [0], false, .running, []⟩

def active (p : Wired) : Bool := !p.finished && p.reading ≠ .accepting

def actPeer (p q : Wired) (a : Action) : Option Wired :=
  match a with
  | .transmit => none
  | .receive => none
  | a => if p.active then (p.peer.act q.peer a).map (fun r ↦ { p with peer := r.1 }) else none

/-- `send_msgs` takes a message, once it has written the one before. -/
def take (serde : Serde) (p : Wired) : Option Wired :=
  match p.peer.queue with
  | [] => none
  | msg :: queue =>
    if p.active && p.sending.isEmpty then
      some { p with peer := { p.peer with queue }, sending := serde.frame msg }
    else none

def write (p : Wired) (n : ℕ) : Option Wired :=
  if p.active then
    some { p with sending := p.sending.drop n, transit := p.transit ++ p.sending.take n }
  else none

/-- The task reads if it does not wait for room for its last answer. -/
def reads (p : Wired) : Bool := p.active && p.reading = .running && !p.peer.blocked

def read (p q : Wired) (n : ℕ) : Option (Wired × Wired) :=
  if p.reads && decide (n ≤ Sized.awaits 4 p.got) then
    some ({ p with got := p.got ++ q.transit.take n }, { q with transit := q.transit.drop n })
  else none

/-- `recv_msg` has read a message, which is handled. An error of `from_slice` is fatal. -/
def handle (serde : Serde) (p : Wired) : Option Wired :=
  if p.reads && Sized.full 4 p.got then
    match serde.fromSlice (p.got.drop 4) with
    | none => some { p with reading := .failed }
    | some msg => some { p with peer := (p.peer.handleMsg msg).2, got := [] }
  else none

/-- The stream ends, also within a message. -/
def finish (p q : Wired) : Option Wired :=
  if p.reads && q.finished && q.transit.isEmpty && 0 < Sized.awaits 4 p.got then
    some { p with reading := .ended }
  else none

def accept (p q : Wired) : Option (Wired × Wired) :=
  match p.reading, q.transit with
  | .accepting, _ :: transit => some ({ p with reading := .running }, { q with transit })
  | _, _ => none

/-- The `Control` is dropped, which cancels its tasks wherever they are. -/
def cancel (p : Wired) : Option Wired :=
  if p.active then some { p with sending := [], finished := true } else none

inductive WireAction
  | peer (a : Action)
  | take
  | write (n : ℕ)
  | read (n : ℕ)
  | handle
  | finish
  | accept
  | cancel
deriving DecidableEq

def act (serde : Serde) (p q : Wired) : WireAction → Option (Wired × Wired)
  | .peer a => (p.actPeer q a).map (·, q)
  | .take => (p.take serde).map (·, q)
  | .write n => (p.write n).map (·, q)
  | .read n => p.read q n
  | .handle => (p.handle serde).map (·, q)
  | .finish => (p.finish q).map (·, q)
  | .accept => p.accept q
  | .cancel => p.cancel.map (·, q)

structure System where
  server : Wired
  client : Wired

namespace System

def start : System := ⟨.server, .client⟩

def step (serde : Serde) (s : System) : Side × WireAction → Option System
  | (.server, a) => (s.server.act serde s.client a).map (fun (p, q) ↦ ⟨p, q⟩)
  | (.client, a) => (s.client.act serde s.server a).map (fun (p, q) ↦ ⟨q, p⟩)

end System

end Wired

end Kymux.Control
