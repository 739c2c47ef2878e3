import Kymux.CancelSafe

namespace Kymux.CancelSafeRecv

open CancelSafe (capacity)
open Machine

variable {T : Type}

/-- `Result<Option<T>, E>::transpose`. -/
def transpose : Except ProtocolError (Option T) → Option (Except ProtocolError T)
  | .ok none => none
  | .ok (some packet) => some (.ok packet)
  | .error err => some (.error err)

inductive Task (T : Type)
  | receiving
  | sending (item : Except ProtocolError T)
  | ended

inductive Outcome (T : Type)
  | returned (res : Option (Except ProtocolError T))
  | cancelled

def Outcome.item : Outcome T → Option (Except ProtocolError T)
  | .returned res => res
  | .cancelled => none

/-- The channel, the background task, and the call under way, which is asleep from when it is found
pending until it is woken up. The rest tells what has happened: what the inner driver returned, how
the calls ended, and whether the task was stopped from outside. -/
structure State (T : Type) where
  queue : List (Except ProtocolError T)
  task : Task T
  call : Bool
  asleep : Bool
  dropped : Bool
  aborted : Bool
  inner : List (Except ProtocolError (Option T))
  results : List (Outcome T)

def State.start : State T := ⟨[], .receiving, false, false, false, false, [], []⟩

inductive Event (T : Type)
  /-- The caller calls `recv`. -/
  | recv
  /-- The call under way is polled. -/
  | poll
  /-- The call under way is dropped. -/
  | cancel
  /-- The wrapped receiver is dropped. -/
  | drop
  /-- The inner driver returns to the task. -/
  | inner (res : Except ProtocolError (Option T))
  /-- The task passes on what it got. -/
  | send
  /-- The task is aborted, or the inner driver panics. -/
  | abort

namespace State

/-- A poll of the channel. Where the task has ended, what is left in it comes first. -/
def pollRecv (s : State T) : Option (Outcome T) × State T :=
  match s.queue, s.task with
  | item :: queue, _ => (some (.returned (some item)), { s with queue })
  | [], .ended => (some (.returned none), s)
  | [], _ => (none, s)

def ends (s : State T) (outcome : Outcome T) : State T :=
  { s with call := false, asleep := false, results := s.results ++ [outcome] }

def exit (s : State T) : State T := { s with task := .ended, asleep := false }

def step (s : State T) : Event T → Option (State T)
  | .recv =>
    if s.call = false ∧ s.dropped = false then some { s with call := true, asleep := false }
    else none
  | .poll =>
    if s.call then
      match s.pollRecv with
      | (some outcome, s') => some (s'.ends outcome)
      | (none, s') => some { s' with asleep := true }
    else none
  | .cancel => if s.call then some (s.ends .cancelled) else none
  | .drop => if s.call then none else some { s with dropped := true }
  | .inner res =>
    match s.task with
    | .receiving =>
      match transpose res with
      | some item => some { s with inner := s.inner ++ [res], task := .sending item }
      | none => some { s with inner := s.inner ++ [res] }.exit
    | _ => none
  | .send =>
    match s.task with
    | .sending item =>
      if s.dropped then some s.exit
      else if s.queue.length < capacity then
        some { s with queue := s.queue ++ [item], task := .receiving, asleep := false }
      else none
    | _ => none
  | .abort =>
    match s.task with
    | .ended => none
    | _ => some { s with aborted := true }.exit

def items (s : State T) : List (Except ProtocolError T) := s.inner.filterMap transpose

def returned (s : State T) : List (Except ProtocolError T) := s.results.filterMap Outcome.item

end State

open State

def Task.held : Task T → List (Except ProtocolError T)
  | .sending item => [item]
  | _ => []

/-- What holds in every state. What the task holds is lost where it is stopped or finds the receiver
dropped. -/
structure Consistent (s : State T) : Prop where
  items : ∃ lost, s.items = s.returned ++ s.queue ++ s.task.held ++ lost ∧ lost.length ≤ 1 ∧
    (lost ≠ [] → s.task = .ended ∧ (s.aborted = true ∨ s.dropped = true))
  room : s.queue.length ≤ 1
  asleep : s.asleep = true → s.call = true ∧ s.queue = [] ∧ s.task ≠ .ended
  ended : s.task = .ended → s.aborted = true ∨ s.dropped = true ∨ s.inner.getLast? = some (.ok none)
  finished : .returned none ∈ s.results → s.task = .ended ∧ s.queue = [] ∧
    (s.aborted = true ∨ s.inner.getLast? = some (.ok none) ∧ s.returned = s.items)
  dropped : s.dropped = true → s.call = false

variable {s s' : State T} {outcome : Outcome T} {e : Event T} {es : List (Event T)}

theorem returned_ends (s : State T) (outcome : Outcome T) :
    (s.ends outcome).returned = s.returned ++ outcome.item.toList := by
  cases h : outcome.item <;> simp [returned, ends, h]

theorem items_concat (s : State T) (res : Except ProtocolError (Option T)) :
    (s.inner ++ [res]).filterMap transpose = s.items ++ (transpose res).toList := by
  cases h : transpose res <;> simp [items, h]

theorem State.pollRecv_cases (s : State T) :
    (∃ item queue, s.queue = item :: queue ∧
      s.pollRecv = (some (.returned (some item)), { s with queue })) ∨
    (s.queue = [] ∧ s.task = .ended ∧ s.pollRecv = (some (.returned none), s)) ∨
    (s.queue = [] ∧ s.task ≠ .ended ∧ s.pollRecv = (none, s)) := by
  unfold pollRecv
  split
  · next item queue hqueue => exact .inl ⟨item, queue, hqueue, rfl⟩
  · next hqueue htask => exact .inr (.inl ⟨hqueue, htask, rfl⟩)
  · next hqueue htask => exact .inr (.inr ⟨hqueue, htask, rfl⟩)

namespace Consistent

theorem alive (h : Consistent s) (htask : s.task ≠ .ended) :
    s.items = s.returned ++ s.queue ++ s.task.held := by
  obtain ⟨lost, hlost, -, hwhy⟩ := h.items
  have hnil : lost = [] := by
    by_contra hne
    exact htask (hwhy hne).1
  rw [hlost, hnil, List.append_nil]

theorem not_finished (h : Consistent s) (htask : s.task ≠ .ended) : .returned none ∉ s.results :=
  fun hmem ↦ htask (h.finished hmem).1

theorem start : Consistent (State.start : State T) where
  items := ⟨[], rfl, Nat.zero_le 1, fun h ↦ absurd rfl h⟩
  room := Nat.zero_le 1
  asleep h := by cases h
  ended h := by cases h
  finished h := by cases h
  dropped h := by cases h

theorem recv (h : Consistent s) (hdropped : s.dropped = false) :
    Consistent { s with call := true, asleep := false } where
  items := h.items
  room := h.room
  asleep h := by cases h
  ended := h.ended
  finished := h.finished
  dropped h := by
    rw [show s.dropped = true from h] at hdropped
    cases hdropped

theorem cancel (h : Consistent s) : Consistent (s.ends .cancelled) where
  items := by
    rw [returned_ends, Outcome.item, Option.toList_none, List.append_nil]
    exact h.items
  room := h.room
  asleep h := by cases h
  ended := h.ended
  finished hmem := by
    rw [returned_ends, Outcome.item, Option.toList_none, List.append_nil]
    refine h.finished ?_
    simpa [State.ends] using hmem
  dropped _ := rfl

theorem taken {item : Except ProtocolError T} {queue : List (Except ProtocolError T)}
    (h : Consistent s) (hqueue : s.queue = item :: queue) :
    Consistent (({ s with queue } : State T).ends (.returned (some item))) where
  items := by
    obtain ⟨lost, hlost, hone⟩ := h.items
    refine ⟨lost, ?_, hone⟩
    rw [hqueue] at hlost
    rw [returned_ends]
    simpa [State.ends, State.items, State.returned, Outcome.item] using hlost
  room := by
    have hroom := h.room
    rw [hqueue, List.length_cons] at hroom
    exact Nat.le_of_succ_le hroom
  asleep h := by cases h
  ended := h.ended
  finished hmem := by
    have hmem : .returned none ∈ s.results := by simpa [State.ends] using hmem
    rw [(h.finished hmem).2.1] at hqueue
    cases hqueue
  dropped _ := rfl

/-- Where the task has ended and the channel is empty, all was returned that the inner driver
had. -/
theorem complete (h : Consistent s) (hcall : s.call = true) (htask : s.task = .ended)
    (hqueue : s.queue = []) :
    s.aborted = true ∨ s.inner.getLast? = some (.ok none) ∧ s.returned = s.items := by
  have hdropped : ¬ s.dropped = true := by
    intro hdropped
    rw [h.dropped hdropped] at hcall
    cases hcall
  obtain ⟨lost, hlost, -, hwhy⟩ := h.items
  obtain haborted | hdropped' | hlast := h.ended htask
  · exact .inl haborted
  · exact absurd hdropped' hdropped
  · by_cases hne : lost = []
    · rw [hqueue, htask, hne] at hlost
      exact .inr ⟨hlast, by simpa [Task.held] using hlost.symm⟩
    · exact .inl ((hwhy hne).2.resolve_right hdropped)

theorem poll (h : Consistent s) (hstep : s.step .poll = some s') : Consistent s' := by
  simp only [State.step] at hstep
  split_ifs at hstep with hcall
  obtain ⟨item, queue, hqueue, hpoll⟩ | ⟨hqueue, htask, hpoll⟩ | ⟨hqueue, htask, hpoll⟩ :=
    s.pollRecv_cases
  · rw [hpoll] at hstep
    cases hstep
    exact h.taken hqueue
  · rw [hpoll] at hstep
    cases hstep
    refine ⟨?_, h.room, (fun h ↦ by cases h), h.ended, fun _ ↦ ⟨htask, hqueue, ?_⟩, fun _ ↦ rfl⟩
    · rw [returned_ends, Outcome.item, Option.toList_none, List.append_nil]
      exact h.items
    · rw [returned_ends, Outcome.item, Option.toList_none, List.append_nil]
      exact h.complete hcall htask hqueue
  · rw [hpoll] at hstep
    cases hstep
    exact ⟨h.items, h.room, fun _ ↦ ⟨hcall, hqueue, htask⟩, h.ended, h.finished, h.dropped⟩

theorem exit (h : Consistent s) (htask : s.task ≠ .ended)
    (hwhy : s.aborted = true ∨ s.dropped = true ∨ s.task.held = [] ∧
      s.inner.getLast? = some (.ok none)) :
    Consistent s.exit where
  items := by
    refine ⟨s.task.held, ?_, ?_, fun hne ↦ ⟨rfl, ?_⟩⟩
    · simpa [State.exit, State.items, State.returned, Task.held] using h.alive htask
    · cases s.task <;> simp [Task.held]
    · obtain haborted | hdropped | ⟨hheld, -⟩ := hwhy
      · exact .inl haborted
      · exact .inr hdropped
      · exact absurd hheld hne
  room := h.room
  asleep h := by cases h
  ended _ := hwhy.imp_right (Or.imp_right And.right)
  finished hmem := absurd hmem (h.not_finished htask)
  dropped := h.dropped

theorem inner {res : Except ProtocolError (Option T)} (h : Consistent s)
    (hstep : s.step (.inner res) = some s') : Consistent s' := by
  simp only [State.step] at hstep
  split at hstep
  · next htask =>
    have halive := h.alive (by simp [htask])
    have hitems := items_concat s res
    rw [htask] at halive
    split at hstep
    · next item hitem =>
      cases hstep
      refine ⟨⟨[], ?_, Nat.zero_le 1, fun h ↦ absurd rfl h⟩, h.room, fun hasleep ↦ ?_,
        (fun h ↦ by cases h),
        fun hmem ↦ absurd hmem (h.not_finished (by simp [htask])), h.dropped⟩
      · rw [hitem, halive] at hitems
        rw [State.items, hitems]
        simp [Task.held, State.returned]
      · exact ⟨(h.asleep hasleep).1, (h.asleep hasleep).2.1, by simp⟩
    · next hitem =>
      cases hstep
      have hlast : res = .ok none := by
        cases res with
        | error err => cases hitem
        | ok packet =>
          cases packet with
          | none => rfl
          | some packet => cases hitem
      refine exit (s := { s with inner := s.inner ++ [res] }) ?_ (by simp [htask])
        (.inr (.inr ⟨by simp [htask, Task.held], by simp [hlast]⟩))
      refine ⟨⟨[], ?_, Nat.zero_le 1, fun h ↦ absurd rfl h⟩, h.room, h.asleep, fun h ↦ ?_,
        fun hmem ↦ absurd hmem (h.not_finished (by simp [htask])), h.dropped⟩
      · rw [hitem, halive] at hitems
        rw [State.items, hitems]
        simp [Task.held, State.returned, htask]
      · exact absurd h (by simp [htask])
  · cases hstep

theorem send (h : Consistent s) (hstep : s.step .send = some s') : Consistent s' := by
  simp only [State.step] at hstep
  split at hstep
  · next item htask =>
    split_ifs at hstep with hdropped hroom
    · cases hstep
      exact h.exit (by simp [htask]) (.inr (.inl hdropped))
    · cases hstep
      have halive := h.alive (by simp [htask])
      refine ⟨⟨[], ?_, Nat.zero_le 1, fun h ↦ absurd rfl h⟩, ?_, (fun h ↦ by cases h),
        (fun h ↦ by cases h),
        fun hmem ↦ absurd hmem (h.not_finished (by simp [htask])), h.dropped⟩
      · simpa [htask, Task.held, State.items, State.returned] using halive
      · rw [List.length_append]
        simp only [capacity] at hroom
        simp only [List.length_singleton]
        omega
  · cases hstep

theorem step (h : Consistent s) (hstep : s.step e = some s') : Consistent s' := by
  cases e with
  | recv =>
    simp only [State.step] at hstep
    split_ifs at hstep with hfree
    cases hstep
    exact h.recv hfree.2
  | poll => exact h.poll hstep
  | cancel =>
    simp only [State.step] at hstep
    split_ifs at hstep
    cases hstep
    exact h.cancel
  | drop =>
    simp only [State.step] at hstep
    split_ifs at hstep with hcall
    cases hstep
    obtain ⟨lost, hlost, hone, hwhy⟩ := h.items
    exact ⟨⟨lost, hlost, hone, fun hne ↦ ⟨(hwhy hne).1, .inr rfl⟩⟩, h.room, h.asleep,
      fun _ ↦ .inr (.inl rfl), h.finished, fun _ ↦ by simpa using hcall⟩
  | inner res => exact h.inner hstep
  | send => exact h.send hstep
  | abort =>
    simp only [State.step] at hstep
    split at hstep
    · cases hstep
    · next htask =>
      cases hstep
      refine exit (s := { s with aborted := true }) ?_ htask (.inl rfl)
      obtain ⟨lost, hlost, hone, hwhy⟩ := h.items
      exact ⟨⟨lost, hlost, hone, fun hne ↦ ⟨(hwhy hne).1, .inl rfl⟩⟩, h.room, h.asleep,
        fun _ ↦ .inl rfl,
        fun hmem ↦ absurd hmem (h.not_finished htask), h.dropped⟩

end Consistent

/-- In every run the calls return what the inner driver returned, in order, each packet and
error once and however many calls are cancelled. The inner driver is at most two results ahead.
A call that sleeps has nothing to return, and `None` comes once the inner driver is through and
all else was returned, unless the task was stopped. -/
theorem recv_cancel_safe (es : List (Event T)) (s : State T)
    (h : run State.step .start es = some s) :
    s.returned <+: s.items ∧ s.items.length ≤ s.returned.length + 2 ∧
      (s.asleep = true → s.queue = [] ∧ s.task ≠ .ended) ∧
        (.returned none ∈ s.results → s.aborted = true ∨
          s.inner.getLast? = some (.ok none) ∧ s.returned = s.items) := by
  have hs : Consistent s := run_invariant .start (fun _ _ _ h hstep ↦ h.step hstep) h
  obtain ⟨lost, hlost, hone, hwhy⟩ := hs.items
  refine ⟨⟨s.queue ++ s.task.held ++ lost, ?_⟩, ?_, fun hasleep ↦ (hs.asleep hasleep).2,
    fun hmem ↦ (hs.finished hmem).2.2⟩
  · rw [hlost]
    simp only [List.append_assoc]
  · have hroom := hs.room
    have hheld : s.task.held.length + lost.length ≤ 1 := by
      by_cases hne : lost = []
      · rw [hne]
        cases s.task <;> simp [Task.held]
      · rw [(hwhy hne).1]
        simpa [Task.held] using hone
    rw [hlost]
    simp only [List.length_append]
    omega

def interruptedEvents : List (Event ℕ) :=
  [.recv, .poll, .inner (.ok (some 7)), .cancel, .send, .inner (.error ⟨"reset"⟩), .recv, .poll,
    .send, .inner (.ok none), .recv, .poll, .recv, .poll]

def interruptedResults : List (Outcome ℕ) :=
  [.cancelled, .returned (some (.ok 7)), .returned (some (.error ⟨"reset"⟩)), .returned none]

theorem recv_cancel_safe_interrupted : ∃ s, run State.step .start interruptedEvents = some s ∧
    s.results = interruptedResults ∧ s.returned <+: s.items ∧
      s.items.length ≤ s.returned.length + 2 ∧
      (s.aborted = true ∨ s.inner.getLast? = some (.ok none) ∧ s.returned = s.items) :=
  have hsafe := recv_cancel_safe interruptedEvents _ rfl
  have hnone : .returned none ∈ interruptedResults := by simp [interruptedResults]
  ⟨_, rfl, rfl, hsafe.1, hsafe.2.1, hsafe.2.2.2 hnone⟩

end Kymux.CancelSafeRecv
