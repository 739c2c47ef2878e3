import Kymux.Lib.I64
import Kymux.Lib.Machine
import Kymux.Types.Av

namespace Kymux.ClockSync

open BigEndian Machine

def addOverflow : Fault := .panic "attempt to add with overflow"

def subOverflow : Fault := .panic "attempt to subtract with overflow"

def add (x y : ℤ) : Except Fault ℤ := I64.fits addOverflow (x + y)

def sub (x y : ℤ) : Except Fault ℤ := I64.fits subOverflow (x - y)

structure ClockSyncResult where
  t1 : ℤ
  t2 : ℤ
  t3 : ℤ
  t4 : ℤ
deriving DecidableEq

namespace ClockSyncResult

def offsetMicros (r : ClockSyncResult) : Except Fault ℤ := do
  let forward ← sub r.t2 r.t1
  let sum ← add forward r.t3
  let twice ← sub sum r.t4
  return twice.tdiv 2

def delayMicros (r : ClockSyncResult) : Except Fault ℤ := do
  let roundTrip ← sub r.t4 r.t1
  let processing ← sub r.t3 r.t2
  sub roundTrip processing

end ClockSyncResult

def validateSyncResponse (response : Bytes) (expectedEndpointId : UInt16) : Except Fault Unit := do
  if response.length ≠ 30 then
    throw (.err ⟨s!"expected 30 byte clock sync response, got {response.length}"⟩)
  let endpointId := UInt16.ofNat (decode (response.take 2))
  if endpointId ≠ expectedEndpointId then
    throw (.err ⟨s!"clock sync endpoint id mismatch: " ++
      s!"expected {expectedEndpointId}, got {endpointId}"⟩)

def validateSyncRequest (datagram : Bytes) : Except Fault Unit := do
  if datagram.length ≠ 14 then
    throw (.err ⟨s!"expected 14 byte clock sync request, got {datagram.length}"⟩)

def syncRequest (endpointId : UInt16) (reqId : UInt32) (t1 : ℤ) : Bytes :=
  encode 2 endpointId.toNat ++ encode 4 reqId.toNat ++ I64.encode t1

/-- What a turn of `sync` does with a response: it returns, or waits for another. -/
def syncResponse (endpointId : UInt16) (reqId : UInt32) (response : Bytes) (t4 : ℤ) :
    Except Fault (Option ClockSyncResult) := do
  validateSyncResponse response endpointId
  let id := UInt32.ofNat (decode ((response.drop 2).take 4))
  if reqId = id then
    return some {
      t1 := I64.decode ((response.drop 6).take 8)
      t2 := I64.decode ((response.drop 14).take 8)
      t3 := I64.decode ((response.drop 22).take 8)
      t4 }
  else return none

def serve (datagram : Bytes) (t2 t3 : ℤ) : Except Fault Bytes := do
  validateSyncRequest datagram
  return datagram ++ I64.encode t2 ++ I64.encode t3

structure ClockSyncAverage where
  offsetMicros : ℤ
  delayMicros : ℤ
deriving DecidableEq

def accumulate (offsetSum delaySum : ℤ) (res : ClockSyncResult) : Except Fault (ℤ × ℤ) := do
  let offset ← res.offsetMicros
  let offsetSum ← add offsetSum offset
  let delay ← res.delayMicros
  let delaySum ← add delaySum delay
  return (offsetSum, delaySum)

/-- The loop of `sync_average`, over what the calls of `sync` return. -/
def averageLoop (times : ℕ) : ℤ → ℤ → ℕ → List (Except Fault (Option ClockSyncResult)) →
    Option (Except Fault (ℤ × ℤ × ℕ))
  | offsetSum, delaySum, count, [] =>
    if count < times then none else some (.ok (offsetSum, delaySum, count))
  | offsetSum, delaySum, count, out :: outs =>
    if count < times then
      match out with
      | .error e => some (.error e)
      | .ok none => averageLoop times offsetSum delaySum count outs
      | .ok (some res) =>
        match accumulate offsetSum delaySum res with
        | .error e => some (.error e)
        | .ok (offsetSum, delaySum) => averageLoop times offsetSum delaySum (count + 1) outs
    else some (.ok (offsetSum, delaySum, count))

/-- What `sync_average` returns, if it has returned after these calls of `sync`. -/
def syncAverage (times : ℕ) (outs : List (Except Fault (Option ClockSyncResult))) :
    Option (Except Fault ClockSyncAverage) :=
  if times = 0 then some (.error (.panic "assertion failed: times > 0"))
  else
    (averageLoop times 0 0 0 outs).map (Except.map (fun (offsetSum, delaySum, count) ↦
      ⟨offsetSum.tdiv count, delaySum.tdiv count⟩))

inductive Phase
  | idle
  | head (reqId : UInt32) (deadline : ℤ)
  | waiting (reqId : UInt32) (deadline : ℤ)

structure Request where
  call : ℕ
  sentAt : ℤ
  datagram : Bytes

structure Answer where
  call : ℕ
  receivedAt : ℤ
  emittedAt : ℤ
  datagram : Bytes

structure Return where
  call : ℕ
  returnedAt : ℤ
  outcome : Except Fault (Option ClockSyncResult)

/-- A client and a server, with all that was sent. Times are those of the client's clock. -/
structure State where
  clock : ℤ
  nextId : UInt32
  phase : Phase
  calls : ℕ
  requests : List Request
  answers : List Answer
  returns : List Return

def State.start (clock : ℤ) : State := ⟨clock, 0, .idle, 0, [], [], []⟩

inductive Event
  /-- The client calls `sync`, and its datagram is sent or not. -/
  | sync (now : ℤ) (sent : Except ProtocolError Unit)
  /-- The server answers a request that was sent. -/
  | serve (request : ℕ) (receivedAt emittedAt : ℤ)
  /-- The client looks at its deadline. -/
  | check (now : ℤ)
  /-- The client gets an answer that was sent. -/
  | recv (answer : ℕ) (t4 : ℤ)
  /-- The time for a datagram is over. -/
  | timeout
  /-- The clock or the channel fails. -/
  | fail (e : ProtocolError)

def Event.readings (theta : ℤ) : Event → List ℤ
  | .sync now _ => [now]
  | .serve _ receivedAt emittedAt => [receivedAt + theta, emittedAt + theta]
  | .check now => [now]
  | .recv _ t4 => [t4]
  | _ => []

namespace State

def finish (s : State) (outcome : Except Fault (Option ClockSyncResult)) : State :=
  { s with phase := .idle, returns := s.returns ++ [⟨s.calls - 1, s.clock, outcome⟩] }

def sync (s : State) (endpointId : UInt16) (now : ℤ) (sent : Except ProtocolError Unit) : State :=
  let reqId := s.nextId
  let s := { s with clock := now, nextId := s.nextId + 1, calls := s.calls + 1 }
  match sent with
  | .error e => s.finish (.error (.err e))
  | .ok () =>
    let request : Request := ⟨s.calls - 1, now, syncRequest endpointId reqId now⟩
    let s := { s with requests := s.requests ++ [request] }
    match add now 200000 with
    | .error e => s.finish (.error e)
    | .ok deadline => { s with phase := .head reqId deadline }

/-- A step of the client or of the server, whose clock is ahead by `theta`. Time does not go
back. -/
def step (theta : ℤ) (endpointId : UInt16) (s : State) : Event → Option State
  | .sync now sent =>
    match s.phase with
    | .idle => if s.clock ≤ now then some (s.sync endpointId now sent) else none
    | _ => none
  | .serve request receivedAt emittedAt =>
    match s.requests[request]? with
    | none => none
    | some r =>
      if r.sentAt ≤ receivedAt ∧ receivedAt ≤ emittedAt ∧ s.clock ≤ emittedAt then
        match ClockSync.serve r.datagram (receivedAt + theta) (emittedAt + theta) with
        | .error _ => none
        | .ok datagram =>
          some { s with
            clock := emittedAt
            answers := s.answers ++ [⟨r.call, receivedAt, emittedAt, datagram⟩] }
      else none
  | .check now =>
    match s.phase with
    | .head reqId deadline =>
      if s.clock ≤ now then
        if now ≥ deadline then some ({ s with clock := now }.finish (.ok none))
        else some { s with clock := now, phase := .waiting reqId deadline }
      else none
    | _ => none
  | .recv answer t4 =>
    match s.phase, s.answers[answer]? with
    | .waiting reqId deadline, some a =>
      if s.clock ≤ t4 then
        let s := { s with clock := t4 }
        match syncResponse endpointId reqId a.datagram t4 with
        | .error e => some (s.finish (.error e))
        | .ok (some res) => some (s.finish (.ok (some res)))
        | .ok none => some { s with phase := .head reqId deadline }
      else none
    | _, _ => none
  | .timeout =>
    match s.phase with
    | .waiting _ _ => some (s.finish (.ok none))
    | _ => none
  | .fail e =>
    match s.phase with
    | .idle => none
    | _ => some (s.finish (.error (.err e)))

end State

end Kymux.ClockSync
