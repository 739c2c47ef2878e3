import Kymux.Lib.Machine
import Kymux.Types.Av

namespace Kymux.CancelSafe

open Machine

variable {T : Type}

inductive Task (T : Type)
  | receiving
  | sending (packet : ℕ × T)
  | reporting (err : ProtocolError)
  | ended

inductive Outcome
  | ok
  | err (err : ProtocolError)
  | disconnected (err : ProtocolError)
  | cancelled
deriving DecidableEq

def Outcome.error : Outcome → Option ProtocolError
  | .err e => some e
  | _ => none

def disconnected : Outcome := .disconnected ⟨"send task disconnected"⟩

def capacity : ℕ := 1

/-- The two channels, the background task, and the call under way, which is asleep from when it is
found pending until it is woken up. A packet has the number of the call that sends it. The rest
tells what has happened: how the calls ended, what was handed to the inner driver and which errors
that returned. -/
structure State (T : Type) where
  queue : List (ℕ × T)
  errors : List ProtocolError
  task : Task T
  call : Option (ℕ × T)
  asleep : Bool
  dropped : Bool
  calls : ℕ
  results : List ((ℕ × T) × Outcome)
  handed : List (ℕ × T)
  failures : List ProtocolError

def State.start : State T := ⟨[], [], .receiving, none, false, false, 0, [], [], []⟩

inductive Event (T : Type)
  /-- The caller calls `send`. -/
  | send (packet : T)
  /-- The call under way is polled. -/
  | poll
  /-- The call under way is dropped. -/
  | cancel
  /-- The wrapped sender is dropped. -/
  | drop
  /-- The task takes a packet and calls the inner driver. -/
  | recv
  /-- The inner driver returns. -/
  | inner (res : Except ProtocolError Unit)
  /-- The task passes an error on. -/
  | report
  /-- The task is aborted, or the inner driver panics. -/
  | abort

namespace State

/-- A poll of the `select!`: first the errors, then the channel of packets. -/
def pollSend (s : State T) (packet : ℕ × T) : Option Outcome × State T :=
  match s.errors, s.task with
  | err :: errors, _ => (some (.err err), { s with errors })
  | [], .ended => (some disconnected, s)
  | [], _ =>
    if s.queue.length < capacity then (some .ok, { s with queue := s.queue ++ [packet] })
    else (none, s)

def ends (s : State T) (packet : ℕ × T) (outcome : Outcome) : State T :=
  { s with call := none, asleep := false, results := s.results ++ [(packet, outcome)] }

/-- The task ends. Its ends of the channels are dropped, and with them the packets left there. -/
def exit (s : State T) : State T := { s with task := .ended, queue := [], asleep := false }

def step (s : State T) : Event T → Option (State T)
  | .send packet =>
    if s.call.isNone ∧ s.dropped = false then
      some { s with call := some (s.calls, packet), asleep := false, calls := s.calls + 1 }
    else none
  | .poll =>
    match s.call with
    | none => none
    | some packet =>
      match s.pollSend packet with
      | (some outcome, s') => some (s'.ends packet outcome)
      | (none, s') => some { s' with asleep := true }
  | .cancel => s.call.map (fun packet ↦ s.ends packet .cancelled)
  | .drop => if s.call.isNone then some { s with dropped := true } else none
  | .recv =>
    match s.task, s.queue with
    | .receiving, packet :: queue =>
      some { s with
        queue, task := .sending packet, handed := s.handed ++ [packet], asleep := false }
    | .receiving, [] => if s.dropped then some s.exit else none
    | _, _ => none
  | .inner res =>
    match s.task, res with
    | .sending _, .ok () => some { s with task := .receiving }
    | .sending _, .error err =>
      some { s with task := .reporting err, failures := s.failures ++ [err] }
    | _, _ => none
  | .report =>
    match s.task with
    | .reporting err =>
      if s.dropped then some s.exit
      else if s.errors.length < capacity then
        some { s with errors := s.errors ++ [err], task := .receiving, asleep := false }
      else none
    | _ => none
  | .abort =>
    match s.task with
    | .ended => none
    | _ => some s.exit

def accepted (s : State T) : List (ℕ × T) :=
  (s.results.filter (fun r ↦ r.2 = .ok)).map Prod.fst

def reported (s : State T) : List ProtocolError := s.results.filterMap (fun r ↦ r.2.error)

def TaskBlocked (s : State T) : Prop :=
  ∃ err, s.task = .reporting err ∧ s.dropped = false ∧ ¬ s.errors.length < capacity

/-- The call under way waits for room: it sleeps, or it would be found pending again. -/
def CallBlocked (s : State T) : Prop :=
  ∃ packet, s.call = some packet ∧ (s.asleep = true ∨ (s.pollSend packet).1 = none)

end State

open State

def Task.unreported : Task T → List ProtocolError
  | .reporting err => [err]
  | _ => []

/-- What holds in every state. Packets and errors are lost only once the task has ended. -/
structure Consistent (s : State T) : Prop where
  packets : ∃ lost, s.accepted = s.handed ++ s.queue ++ lost ∧ (s.task ≠ .ended → lost = [])
  errors : ∃ lost, s.failures = s.reported ++ s.errors ++ s.task.unreported ++ lost ∧
    (s.task ≠ .ended → lost = [])
  numbers : s.results.map (fun r ↦ r.1.1) ++ s.call.toList.map Prod.fst = List.range s.calls
  asleep : s.asleep = true → s.errors = [] ∧ s.queue ≠ [] ∧ s.task ≠ .ended

variable {s s' : State T} {packet : ℕ × T} {outcome : Outcome} {e : Event T} {es : List (Event T)}

theorem accepted_ends (s : State T) (packet : ℕ × T) (outcome : Outcome) :
    (s.ends packet outcome).accepted = s.accepted ++ if outcome = .ok then [packet] else [] := by
  by_cases h : outcome = .ok <;> simp [accepted, ends, h]

theorem reported_ends (s : State T) (packet : ℕ × T) (outcome : Outcome) :
    (s.ends packet outcome).reported = s.reported ++ outcome.error.toList := by
  cases outcome <;> simp [reported, ends, Outcome.error]

theorem State.pollSend_cases (s : State T) (packet : ℕ × T) :
    (∃ err errors, s.errors = err :: errors ∧
      s.pollSend packet = (some (.err err), { s with errors })) ∨
    (s.errors = [] ∧ s.task = .ended ∧ s.pollSend packet = (some disconnected, s)) ∨
    (s.errors = [] ∧ s.task ≠ .ended ∧ s.queue = [] ∧
      s.pollSend packet = (some .ok, { s with queue := [packet] })) ∨
    (s.errors = [] ∧ s.task ≠ .ended ∧ s.queue ≠ [] ∧ s.pollSend packet = (none, s)) := by
  unfold pollSend
  split
  · next err errors herrors => exact .inl ⟨err, errors, herrors, rfl⟩
  · next herrors htask => exact .inr (.inl ⟨herrors, htask, rfl⟩)
  · next herrors htask =>
    refine .inr (.inr ?_)
    cases hqueue : s.queue with
    | nil => exact .inl ⟨herrors, htask, rfl, if_pos Nat.one_pos⟩
    | cons x xs => exact .inr ⟨herrors, htask, by simp, if_neg (by simp [capacity])⟩

namespace Consistent

theorem alive (h : Consistent s) (htask : s.task ≠ .ended) :
    s.accepted = s.handed ++ s.queue ∧
    s.failures = s.reported ++ s.errors ++ s.task.unreported := by
  obtain ⟨lost, hlost, hnone⟩ := h.packets
  obtain ⟨lost', hlost', hnone'⟩ := h.errors
  rw [hnone htask, List.append_nil] at hlost
  rw [hnone' htask, List.append_nil] at hlost'
  exact ⟨hlost, hlost'⟩

theorem of_alive (haccepted : s.accepted = s.handed ++ s.queue)
    (hfailures : s.failures = s.reported ++ s.errors ++ s.task.unreported)
    (numbers : s.results.map (fun r ↦ r.1.1) ++ s.call.toList.map Prod.fst = List.range s.calls)
    (asleep : s.asleep = true → s.errors = [] ∧ s.queue ≠ [] ∧ s.task ≠ .ended) : Consistent s :=
  ⟨⟨[], by rw [haccepted, List.append_nil], fun _ ↦ rfl⟩,
    ⟨[], by rw [hfailures, List.append_nil], fun _ ↦ rfl⟩, numbers, asleep⟩

theorem start : Consistent (State.start : State T) where
  packets := ⟨[], rfl, fun _ ↦ rfl⟩
  errors := ⟨[], rfl, fun _ ↦ rfl⟩
  numbers := rfl
  asleep h := by cases h

theorem send (h : Consistent s) (hcall : s.call = none) (packet : T) :
    Consistent
      { s with call := some (s.calls, packet), asleep := false, calls := s.calls + 1 } where
  packets := h.packets
  errors := h.errors
  numbers := by
    have hnumbers := h.numbers
    rw [hcall, Option.toList_none, List.map_nil, List.append_nil] at hnumbers
    rw [hnumbers, List.range_succ]
    rfl
  asleep h := by cases h

theorem ends (h : Consistent s) (hcall : s.call = some packet) (hok : outcome ≠ .ok)
    (herror : outcome.error = none) : Consistent (s.ends packet outcome) where
  packets := by
    rw [accepted_ends, if_neg hok, List.append_nil]
    exact h.packets
  errors := by
    rw [reported_ends, herror, Option.toList_none, List.append_nil]
    exact h.errors
  numbers := by
    rw [← show _ = List.range (s.ends packet outcome).calls from h.numbers, hcall]
    simp [State.ends]
  asleep h := by cases h

theorem poll (h : Consistent s) (hcall : s.call = some packet) (hstep : s.step .poll = some s') :
    Consistent s' := by
  simp only [step, hcall] at hstep
  rcases s.pollSend_cases packet with ⟨err, errors, herrors, hpoll⟩ | ⟨herrors, htask, hpoll⟩ |
    ⟨herrors, htask, hqueue, hpoll⟩ | ⟨herrors, htask, hqueue, hpoll⟩
  · rw [hpoll] at hstep
    cases hstep
    obtain ⟨lost, hlost, hnone⟩ := h.errors
    refine ⟨?_, ⟨lost, ?_, hnone⟩, ?_, fun h ↦ by cases h⟩
    · rw [accepted_ends, if_neg (by simp), List.append_nil]
      exact h.packets
    · rw [reported_ends]
      simpa [herrors, Outcome.error, State.ends, reported] using hlost
    · simpa [hcall, State.ends] using h.numbers
  · rw [hpoll] at hstep
    cases hstep
    exact h.ends hcall Outcome.noConfusion rfl
  · rw [hpoll] at hstep
    cases hstep
    obtain ⟨haccepted, hfailures⟩ := h.alive htask
    refine .of_alive ?_ ?_ ?_ (fun h ↦ by cases h)
    · rw [accepted_ends, if_pos rfl]
      simpa [hqueue, State.ends, accepted] using haccepted
    · rw [reported_ends, show Outcome.ok.error = none from rfl, Option.toList_none, List.append_nil]
      exact hfailures
    · simpa [hcall, State.ends] using h.numbers
  · rw [hpoll] at hstep
    cases hstep
    exact ⟨h.packets, h.errors, h.numbers, fun _ ↦ ⟨herrors, hqueue, htask⟩⟩

/-- The packets in the channel are lost, and the error that was not passed on. -/
theorem exit (h : Consistent s) : Consistent s.exit where
  packets := by
    obtain ⟨lost, hlost, -⟩ := h.packets
    refine ⟨s.queue ++ lost, ?_, fun hne ↦ absurd rfl hne⟩
    simpa [State.exit, accepted] using hlost
  errors := by
    obtain ⟨lost, hlost, -⟩ := h.errors
    refine ⟨s.task.unreported ++ lost, ?_, fun hne ↦ absurd rfl hne⟩
    simpa [State.exit, reported, Task.unreported] using hlost
  numbers := h.numbers
  asleep h := by cases h

theorem recv (h : Consistent s) (hstep : s.step .recv = some s') : Consistent s' := by
  simp only [step] at hstep
  split at hstep
  · next packet queue htask hqueue =>
    cases hstep
    obtain ⟨haccepted, hfailures⟩ := h.alive (by simp [htask])
    refine .of_alive ?_ ?_ h.numbers (fun h ↦ by cases h)
    · simpa [hqueue, accepted] using haccepted
    · simpa [htask, reported, Task.unreported] using hfailures
  · next htask hqueue =>
    split_ifs at hstep
    cases hstep
    exact h.exit
  · cases hstep

theorem inner {res : Except ProtocolError Unit} (h : Consistent s)
    (hstep : s.step (.inner res) = some s') :
    Consistent s' := by
  simp only [step] at hstep
  split at hstep
  · next packet htask =>
    cases hstep
    obtain ⟨haccepted, hfailures⟩ := h.alive (by simp [htask])
    refine .of_alive haccepted ?_ h.numbers fun hasleep ↦ ?_
    · simpa [htask, reported, Task.unreported] using hfailures
    · exact ⟨(h.asleep hasleep).1, (h.asleep hasleep).2.1, by simp⟩
  · next packet err htask =>
    cases hstep
    obtain ⟨haccepted, hfailures⟩ := h.alive (by simp [htask])
    refine .of_alive haccepted ?_ h.numbers fun hasleep ↦ ?_
    · rw [hfailures, htask]
      simp [reported, Task.unreported]
    · exact ⟨(h.asleep hasleep).1, (h.asleep hasleep).2.1, by simp⟩
  · cases hstep

theorem report (h : Consistent s) (hstep : s.step .report = some s') : Consistent s' := by
  simp only [step] at hstep
  split at hstep
  · next err htask =>
    split_ifs at hstep with hdropped hroom
    · cases hstep
      exact h.exit
    · cases hstep
      obtain ⟨haccepted, hfailures⟩ := h.alive (by simp [htask])
      refine .of_alive haccepted ?_ h.numbers (fun h ↦ by cases h)
      simpa [htask, reported, Task.unreported] using hfailures
  · cases hstep

theorem step (h : Consistent s) (hstep : s.step e = some s') : Consistent s' := by
  cases e with
  | send packet =>
    simp only [State.step] at hstep
    split_ifs at hstep with hfree
    cases hstep
    exact h.send (Option.isNone_iff_eq_none.mp hfree.1) packet
  | poll =>
    cases hcall : s.call with
    | none => simp [State.step, hcall] at hstep
    | some packet => exact h.poll hcall hstep
  | cancel =>
    obtain ⟨packet, hcall, rfl⟩ := Option.map_eq_some_iff.mp hstep
    exact h.ends hcall (by simp) rfl
  | drop =>
    simp only [State.step] at hstep
    split_ifs at hstep
    cases hstep
    exact ⟨h.packets, h.errors, h.numbers, h.asleep⟩
  | recv => exact h.recv hstep
  | inner res => exact h.inner hstep
  | report => exact h.report hstep
  | abort =>
    simp only [State.step] at hstep
    split at hstep
    · cases hstep
    · cases hstep
      exact h.exit

theorem nodup (h : Consistent s) : (s.results.map (fun r ↦ r.1.1)).Nodup := by
  have hrange := List.nodup_range (n := s.calls)
  rw [← h.numbers] at hrange
  exact hrange.of_append_left

end Consistent

theorem accepted_sublist (s : State T) : s.accepted.Sublist (s.results.map Prod.fst) :=
  List.filter_sublist.map _

/-- A call that did not return `Ok` has another number than those that did. -/
theorem notMem_accepted (h : Consistent s) {r : (ℕ × T) × Outcome} (hr : r ∈ s.results)
    (hok : r.2 ≠ .ok) :
    r.1 ∉ s.accepted := by
  intro hmem
  obtain ⟨r', hr', heq⟩ := List.mem_map.mp hmem
  obtain ⟨hmem', hok'⟩ := List.mem_filter.mp hr'
  have hsame : r' = r := List.inj_on_of_nodup_map h.nodup hmem' hr (by rw [heq])
  rw [hsame] at hok'
  exact hok (of_decide_eq_true hok')

/-- In every run the inner driver gets the packets whose call returned `Ok`, in order, each once
and no others, and the caller gets the errors of the inner driver, in order and each once. The
task and a call never wait for each other. -/
theorem cancel_safe (es : List (Event T)) (s : State T) (h : run State.step .start es = some s) :
    s.handed <+: s.accepted ∧ s.handed.Nodup ∧
    (∀ r ∈ s.results, r.2 ≠ .ok → r.1 ∉ s.handed) ∧
    s.reported <+: s.failures ∧
    ¬ (s.TaskBlocked ∧ s.CallBlocked) := by
  have hs : Consistent s := run_invariant .start (fun _ _ _ h hstep ↦ h.step hstep) h
  obtain ⟨lost, hlost, -⟩ := hs.packets
  obtain ⟨lost', hlost', -⟩ := hs.errors
  have hbegin : s.handed <+: s.accepted := ⟨s.queue ++ lost, by rw [hlost, List.append_assoc]⟩
  refine ⟨hbegin, ?_, fun r hr hok hmem ↦ ?_, ⟨s.errors ++ (s.task.unreported ++ lost'), ?_⟩, ?_⟩
  · have hnodup : (s.results.map Prod.fst).Nodup := by
      refine List.Nodup.of_map Prod.fst ?_
      rw [List.map_map]
      exact hs.nodup
    exact ((accepted_sublist s).nodup hnodup).sublist hbegin.sublist
  · exact notMem_accepted hs hr hok (hbegin.subset hmem)
  · rw [hlost']
    simp only [List.append_assoc]
  · rintro ⟨⟨err, -, -, hfull⟩, packet, hcall, hblocked⟩
    -- A full channel of errors is what the call looks at first.
    have herrors : s.errors ≠ [] := by
      rintro hnil
      simp [hnil, capacity] at hfull
    rcases hblocked with hasleep | hpending
    · exact herrors (hs.asleep hasleep).1
    · rcases s.pollSend_cases packet with ⟨_, _, -, hpoll⟩ | ⟨hnil, -⟩ | ⟨hnil, -⟩ | ⟨hnil, -⟩
      · rw [hpoll] at hpending
        cases hpending
      · exact herrors hnil
      · exact herrors hnil
      · exact herrors hnil

def failedEvents : List (Event ℕ) :=
  [.send 7, .poll, .recv, .send 8, .cancel, .inner (.error ⟨"connection lost"⟩), .report,
    .send 9, .poll]

theorem cancel_safe_failed : ∃ s, run State.step .start failedEvents = some s ∧
    s.handed = [(0, 7)] ∧ s.reported = [⟨"connection lost"⟩] ∧
    s.handed <+: s.accepted ∧ (∀ r ∈ s.results, r.2 ≠ .ok → r.1 ∉ s.handed) ∧
    s.reported <+: s.failures :=
  have hsafe := cancel_safe failedEvents _ rfl
  ⟨_, rfl, rfl, rfl, hsafe.1, hsafe.2.2.1, hsafe.2.2.2.1⟩

end Kymux.CancelSafe
