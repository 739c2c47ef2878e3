import Kymux.Driver.AudioFecRun
import Kymux.Driver.Receiver

namespace Kymux.AudioFec

open Av BigEndian Driver EventLoop Fec Timed

variable {rq : RaptorQ}

def isMedia : AVPacket → Bool
  | .media _ => true
  | _ => false

@[simp] theorem isMedia_codec (packet : CodecPacket) : isMedia (.codec packet) = false := rfl

@[simp] theorem isMedia_media (packet : MediaPacket) : isMedia (.media packet) = true := rfl

@[simp] theorem isMedia_hole (packet : HolePacket) : isMedia (.hole packet) = false := rfl

/-- A packet that is sent to the client: its number and the one that was expected, whether
it is the config, and the numbers of the complete packets that are left. -/
structure Forwarded where
  kypacketSeq : ℕ
  packet : AVPacket
  expected : ℕ
  isConfig : Bool
  left : List ℕ
deriving DecidableEq

namespace State

variable {s s' : State rq} {now : ℕ} {b : Bool}

def forwards (s : State rq) (now : ℕ) : List Forwarded :=
  match s.pendingGroup.takeNextPacket maxBuffering s.nextKypacketSeq now with
  | .ok (.packet kypacketSeq packet, p) =>
    [⟨kypacketSeq, packet, s.nextKypacketSeq, s.pendingGroup.configPacket.isReady,
      p.datagrams.map DatagramPacket.kypacketSeq⟩]
  | _ => []

inductive Forwards (s : State rq) (now : ℕ) : List Forwarded → State rq → Prop
  | idle {deadline} : Forwards s now [] { s with deadline }
  | packet {c taken p t} (hpoll : s.pendingGroup.poll s.pendingGroup.minInstant maxBuffering
      s.nextKypacketSeq now = .ready c)
    (htook : Pending.Took s.pendingGroup c taken p)
    (hfwd : { s with pendingGroup := p }.forward (invalid "audio before codec") taken.kypacketSeq
      taken.packet = .ok t) :
    Forwards s now [⟨taken.kypacketSeq, taken.packet, s.nextKypacketSeq, c,
      p.datagrams.map DatagramPacket.kypacketSeq⟩] t

theorem drain_forwards (ho : s.pendingGroup.Ordered) (h : s.drain now = .ok (s', b)) :
    Forwards s now (s.forwards now) s' := by
  obtain ⟨a, p, htake, hstep⟩ := Pending.takeNextPacket_step ho maxBuffering s.nextKypacketSeq now
  simp only [drain, forwards, htake] at h ⊢
  cases hstep with
  | none | deadline => cases h; exact .idle
  | @packet c _ _ hpoll htook =>
    have hc : s.pendingGroup.configPacket.isReady = c := by
      rcases Pending.poll_ready hpoll with ⟨rfl, config, hc⟩ | ⟨rfl, hc, -⟩ <;> rw [hc] <;> rfl
    rw [hc]
    dsimp only at h
    split at h
    · cases h
    · next hfwd => cases h; exact .packet hpoll htook hfwd

end State

def traced (rq : RaptorQ) :
    Loop ((Bytes × State rq) × List Forwarded) (Arrival Bytes ℕ) ℕ Fault :=
  (receiver rq).observed (fun tr _ _ _ ↦ tr) (fun tr x now _ ↦ tr ++ x.2.forwards now)

inductive Arrived (stream : Bytes) (s : State rq) : Arrival Bytes ℕ → Bytes → State rq → Prop
  | timer : Arrived stream s .timer stream s
  | record {msg rest clock s' b} (hread : recvStreamPacket stream = .ok (msg, rest))
    (hsel : State.Selected s (.message (.ok (.stream msg)) clock) s' b) :
    Arrived stream s (.record clock) rest s'
  | datagram {msg bytes clock s' b} (hparse : parse bytes = .ok msg)
    (hsel : State.Selected s (.message (.ok (.datagram msg)) clock) s' b) :
    Arrived stream s (.datagram bytes clock) stream s'

theorem receiver_arrived {stream rest : Bytes} {s s' : State rq} {a : Arrival Bytes ℕ} {b : Bool}
    (ho : s.pendingGroup.Ordered)
    (h : (receiver rq).select (stream, s) a = .ok ((rest, s'), b)) :
    Arrived stream s a rest s' := by
  have hsel := fecReceiver_select (fun _ _ _ ↦ rfl) h
  cases a with
  | timer =>
    obtain ⟨rfl, hsel⟩ := hsel
    cases State.select_selected ho (show s.select .timer = .ok (s', b) from hsel)
    exact .timer
  | record clock =>
    obtain ⟨msg, hread, hsel⟩ := hsel
    exact .record hread (State.select_selected ho hsel)
  | datagram bytes clock =>
    obtain ⟨rfl, msg, hparse, hsel⟩ := hsel
    exact .datagram hparse (State.select_selected ho hsel)

/-- The induction rule of traced runs: one case for an arrival and one for a turn of the
drain, both from a valid state. -/
theorem traced_induction {stream₀ stream : Bytes} {stats : ProtocolStats}
    {es : List (Event (Arrival Bytes ℕ) ℕ)} {s : State rq} {tr : List Forwarded}
    {P : List (Event (Arrival Bytes ℕ) ℕ) → Bytes → State rq → List Forwarded → Prop}
    (hstart : P [] stream₀ (.start .new stats) [])
    (harrived : ∀ pre e stream rest s s' tr, PendingGroup.Valid s.pendingGroup → P pre stream s tr →
      Arrived stream s e.input rest s' → P (pre ++ [e]) rest s' tr)
    (hforwards : ∀ es stream s s' now tr fs, PendingGroup.Valid s.pendingGroup → P es stream s tr →
      State.Forwards s now fs s' → P es stream s' (tr ++ fs))
    (h : (traced rq).At ((stream₀, .start .new stats), []) es ((stream, s), tr)) :
    P es stream s tr := by
  refine (At.induction (motive := fun es w ↦ PendingGroup.Valid w.1.2.pendingGroup ∧
    P es w.1.1 w.1.2 w.2) ?_ ?_ ?_ h).2
  · exact ⟨PendingGroup.Valid.new, hstart⟩
  · rintro pre e ⟨⟨stream, s⟩, tr⟩ ⟨⟨rest, s'⟩, tr'⟩ b ⟨hv, hP⟩ hturn
    obtain ⟨hsel, rfl⟩ := observed_select hturn
    refine ⟨?_, harrived _ _ _ _ _ _ _ hv hP (receiver_arrived hv.ordered hsel)⟩
    exact receiver_keeps (P := fun s : State rq ↦ PendingGroup.Valid s.pendingGroup)
      (fun _ _ _ _ ↦ State.valid_selected) hv hsel
  · rintro pre e ⟨⟨stream, s⟩, tr⟩ now ⟨⟨rest, s'⟩, tr'⟩ b ⟨hv, hP⟩ hturn
    obtain ⟨hinner, rfl⟩ := observed_inner hturn
    obtain ⟨hstream, hdrain⟩ := receiver_inner hinner
    obtain rfl : rest = stream := hstream
    exact ⟨State.valid_drained hv hdrain,
      hforwards _ _ _ _ _ _ _ hv hP (State.drain_forwards hv.ordered hdrain)⟩

end Kymux.AudioFec
