import Kymux.Auth
import Kymux.Lib.Machine

namespace Kymux.Auth

open BigEndian Machine

inductive Client
  | openBi
  | writeSize
  | writeAuth
  | flush
  | confirm
  | done (result : Except ConnectionError Unit)
deriving DecidableEq

/-- What `accept_with_auth` awaits or, once the caller has the `UnauthenticatedConnection`,
what it does with it. -/
inductive Server
  | acceptBi
  | readSize
  | readAuth (len : ℕ)
  | unauthenticated (auth : ClientAuth)
  | writeByte
  | flushByte
  | accepted
  | rejected
  | dropped
  | failed (e : ConnectionError)
deriving DecidableEq

/-- Both ends and the stream between them. What was written before the connection is closed
may still be read, and nothing is written after. -/
structure Handshake where
  client : Client
  server : Server
  toServer : Bytes
  toClient : Bytes
  /-- The server's half of the stream has come to its end. -/
  ended : Bool
  closed : Bool
  /-- `accept_authentication` has written its byte. -/
  confirmed : Bool
deriving DecidableEq

/-- An operation that one end awaits is done or fails; the caller of the server chooses; the
control task of an accepted connection writes to the stream or ends; the connection is lost. -/
inductive Action
  | client (result : Except ConnectionError Unit)
  | server (result : Except ConnectionError Unit)
  | accept
  | reject
  | drop
  | control (bytes : Bytes)
  | finish
  | lose

namespace Handshake

def start : Handshake := ⟨.openBi, .acceptBi, [], [], false, false, false⟩

def dropStream (s : Handshake) : Handshake := { s with ended := s.ended || !s.closed }

def fail (s : Handshake) (e : ConnectionError) : Handshake :=
  { s.dropStream with server := .failed e }

def clientFails (s : Handshake) (e : ConnectionError) : Option Handshake :=
  match s.client with
  | .openBi => some { s with client := .done (.error e) }
  | .writeSize => some { s with client := .done (.error ⟨"Could not write auth ClientAuth size"⟩) }
  | .writeAuth => some { s with client := .done (.error ⟨"Could not write ClientAuth"⟩) }
  | .flush => some { s with client := .done (.error ⟨"Could not flush ClientAuth"⟩) }
  | .confirm => some { s with client := .done (.error ⟨"Authentication confirmation failed"⟩) }
  | .done _ => none

def writes (s t : Handshake) : Option Handshake := if s.closed then none else some t

/-- The read of the confirmation returns how many bytes it has read, and is waited for if
there is none and the stream goes on. The client does not look at the number. -/
def clientDone (size buf : Bytes) (s : Handshake) : Option Handshake :=
  match s.client with
  | .openBi => s.writes { s with client := .writeSize }
  | .writeSize => s.writes { s with client := .writeAuth, toServer := s.toServer ++ size }
  | .writeAuth => s.writes { s with client := .flush, toServer := s.toServer ++ buf }
  | .flush => s.writes { s with client := .confirm }
  | .confirm =>
    match s.toClient with
    | _ :: rest => some { s with client := .done (.ok ()), toClient := rest }
    | [] => if s.ended then some { s with client := .done (.ok ()) } else none
  | .done _ => none

def serverFails (s : Handshake) (e : ConnectionError) : Option Handshake :=
  match s.server with
  | .acceptBi => some (s.fail e)
  | .readSize => some (s.fail ⟨"Failed to read ClientAuth size"⟩)
  | .readAuth _ => some (s.fail ⟨"Failed to read ClientAuth"⟩)
  | .writeByte => some (s.fail ⟨"Dummy byte write failed"⟩)
  | .flushByte => some (s.fail ⟨"Dummy byte flush failed"⟩)
  | _ => none

def serverDone (fromSlice : Bytes → Option ClientAuth) (s : Handshake) : Option Handshake :=
  match s.server with
  | .acceptBi => if s.toServer = [] then none else some { s with server := .readSize }
  | .readSize =>
    if s.toServer.length < 2 then none
    else
      match checkSize (s.toServer.take 2) with
      -- `reject_authentication` closes the connection before the stream is dropped.
      | .error e => some ({ s with closed := true }.fail e)
      | .ok len => some { s with server := .readAuth len, toServer := s.toServer.drop 2 }
  | .readAuth len =>
    if s.toServer.length < len then none
    else
      match deserializeAuth fromSlice (s.toServer.take len) with
      | .error e => some (s.fail e)
      | .ok auth => some { s with server := .unauthenticated auth, toServer := s.toServer.drop len }
  | .writeByte =>
    s.writes { s with server := .flushByte, toClient := s.toClient ++ [0], confirmed := true }
  | .flushByte => s.writes { s with server := .accepted }
  | _ => none

def choose (s t : Handshake) : Option Handshake :=
  match s.server with
  | .unauthenticated _ => some t
  | _ => none

def whenAccepted (s t : Handshake) : Option Handshake :=
  match s.server with
  | .accepted => some t
  | _ => none

def step (fromSlice : Bytes → Option ClientAuth) (size buf : Bytes) (s : Handshake) :
    Action → Option Handshake
  | .client (.ok ()) => s.clientDone size buf
  | .client (.error e) => s.clientFails e
  | .server (.ok ()) => s.serverDone fromSlice
  | .server (.error e) => s.serverFails e
  | .accept => s.choose { s with server := .writeByte }
  | .reject => s.choose { { s with closed := true }.dropStream with server := .rejected }
  | .drop => s.choose { s.dropStream with server := .dropped }
  | .control bytes => s.whenAccepted { s with toClient := s.toClient ++ bytes }
  | .finish => s.whenAccepted s.dropStream
  | .lose => some { s with closed := true }

variable {fromSlice : Bytes → Option ClientAuth} {size buf : Bytes} {s s' : Handshake} {a : Action}

def confirms : Server → Bool
  | .flushByte | .accepted => true
  | _ => false

inductive Effect (s : Handshake) : Handshake → Prop
  | other {t} (hclient : t.client = .done (.ok ()) ↔ s.client = .done (.ok ()))
    (htoClient : t.toClient = s.toClient) (hconfirmed : t.confirmed = s.confirmed)
    (hserver : confirms t.server = true → confirms s.server = true) : Effect s t
  | read {t} (hclient : s.client = .confirm) (hdone : t.client = .done (.ok ()))
    (hconfirmed : t.confirmed = s.confirmed) (hserver : t.server = s.server) : Effect s t
  | write {t} (hclient : t.client = s.client) (htoClient : t.toClient = s.toClient ++ [0])
    (hconfirmed : t.confirmed = true) : Effect s t
  | control {t bytes} (hserver : s.server = .accepted) (hclient : t.client = s.client)
    (htoClient : t.toClient = s.toClient ++ bytes) (hconfirmed : t.confirmed = s.confirmed) :
    Effect s t

theorem clientFails_effect {e : ConnectionError} (h : s.clientFails e = some s') : Effect s s' := by
  unfold clientFails at h
  split at h
  case h_6 => cases h
  all_goals
    next hclient =>
      cases h
      exact .other (by simp [hclient]) rfl rfl id

theorem clientDone_effect (h : s.clientDone size buf = some s') : Effect s s' := by
  unfold clientDone writes at h
  split at h
  case h_5 hclient =>
    split at h
    · cases h
      exact .read hclient rfl rfl rfl
    · split at h <;> cases h
      exact .read hclient rfl rfl rfl
  case h_6 => cases h
  all_goals
    next hclient =>
      split at h <;> cases h
      exact .other (by simp [hclient]) rfl rfl id

theorem fail_effect (s : Handshake) (e : ConnectionError) : Effect s (s.fail e) :=
  .other .rfl rfl rfl (fun hserver ↦ by cases hserver)

theorem serverFails_effect {e : ConnectionError} (h : s.serverFails e = some s') : Effect s s' := by
  unfold serverFails at h
  split at h <;> cases h <;> exact fail_effect s _

theorem serverDone_effect (h : s.serverDone fromSlice = some s') : Effect s s' := by
  unfold serverDone writes at h
  split at h
  · split at h <;> cases h
    exact .other .rfl rfl rfl (fun hserver ↦ by cases hserver)
  · split at h
    · cases h
    · split at h <;> cases h <;> exact .other .rfl rfl rfl (fun hserver ↦ by cases hserver)
  · split at h
    · cases h
    · split at h <;> cases h <;> exact .other .rfl rfl rfl (fun hserver ↦ by cases hserver)
  · split at h <;> cases h
    exact .write rfl rfl rfl
  · next hserver =>
    split at h <;> cases h
    exact .other .rfl rfl rfl (fun _ ↦ by rw [hserver]; rfl)
  · cases h

theorem step_effect (h : step fromSlice size buf s a = some s') : Effect s s' := by
  unfold step choose whenAccepted at h
  split at h
  · exact clientDone_effect h
  · exact clientFails_effect h
  · exact serverDone_effect h
  · exact serverFails_effect h
  · split at h <;> cases h
    exact .other .rfl rfl rfl (fun hserver ↦ by cases hserver)
  · split at h <;> cases h
    exact .other .rfl rfl rfl (fun hserver ↦ by cases hserver)
  · split at h <;> cases h
    exact .other .rfl rfl rfl (fun hserver ↦ by cases hserver)
  · split at h
    · next hserver => cases h; exact .control hserver rfl rfl rfl
    · cases h
  · split at h <;> cases h
    exact .other .rfl rfl rfl id
  · cases h
    exact .other .rfl rfl rfl id

/-- As long as the client waits, the stream has something for it exactly if the confirmation
was written. -/
structure Sound (s : Handshake) : Prop where
  confirms : confirms s.server = true → s.confirmed = true
  unread : s.client ≠ .done (.ok ()) → (s.toClient ≠ [] ↔ s.confirmed = true)

theorem Sound.start : start.Sound := ⟨by decide, by decide⟩

theorem Sound.step (h : s.Sound) (hstep : s.step fromSlice size buf a = some s') : s'.Sound := by
  cases step_effect hstep with
  | other hclient htoClient hconfirmed hserver =>
    refine ⟨fun hs ↦ hconfirmed ▸ h.confirms (hserver hs), fun hc ↦ ?_⟩
    rw [htoClient, hconfirmed]
    exact h.unread (fun hdone ↦ hc (hclient.mpr hdone))
  | read _ hdone hconfirmed hserver =>
    refine ⟨?_, fun hc ↦ absurd hdone hc⟩
    rw [hserver, hconfirmed]
    exact h.confirms
  | write _ htoClient hconfirmed =>
    exact ⟨fun _ ↦ hconfirmed, fun _ ↦ by simp [htoClient, hconfirmed]⟩
  | control hserver hclient htoClient hconfirmed =>
    have hs : s.confirmed = true := h.confirms (by rw [hserver]; rfl)
    refine ⟨fun _ ↦ hconfirmed.trans hs, fun hc ↦ ?_⟩
    have hne := (h.unread (hclient ▸ hc)).mpr hs
    simp [htoClient, hconfirmed, hs, hne]

/-- When `connect_with_auth` returns successfully, the server has confirmed the token exactly
if the client has read a byte, and not the end of the stream. -/
theorem connected_iff (fromSlice : Bytes → Option ClientAuth) (size buf : Bytes) (as : List Action)
    (a : Action) (s s' : Handshake) (hrun : run (step fromSlice size buf) start as = some s)
    (hstep : s.step fromSlice size buf a = some s') (hwaits : s.client ≠ .done (.ok ()))
    (hdone : s'.client = .done (.ok ())) : s'.confirmed = true ↔ s.toClient ≠ [] := by
  have hs : s.Sound := run_invariant .start (fun _ _ _ h ↦ h.step) hrun
  cases step_effect hstep with
  | other hclient => exact absurd (hclient.mp hdone) hwaits
  | read _ _ hconfirmed => rw [hconfirmed, hs.unread hwaits]
  | write hclient | control _ hclient => exact absurd (hclient ▸ hdone) hwaits

def tokenRead : List Action :=
  List.replicate 4 (.client (.ok ())) ++ List.replicate 3 (.server (.ok ()))

def kymuxToken : ClientAuth := ⟨"kymux"⟩

def kymuxStep : Handshake → Action → Option Handshake :=
  step messagePack.fromSlice (encode 2 (messagePack.toVec kymuxToken).length)
    (messagePack.toVec kymuxToken)

theorem connected_accepted : ∃ s s',
    run kymuxStep start (tokenRead ++ [.accept, .server (.ok ())]) = some s ∧
    kymuxStep s (.client (.ok ())) = some s' ∧ s'.client = .done (.ok ()) ∧
    s'.confirmed = true := by
  have hrun : run kymuxStep start (tokenRead ++ [.accept, .server (.ok ())]) =
      some ⟨.confirm, .flushByte, [], [0], false, false, true⟩ := by decide +kernel
  refine ⟨_, _, hrun, rfl, rfl, ?_⟩
  exact (connected_iff _ _ _ _ (.client (.ok ())) _ _ hrun rfl (by decide) rfl).mpr (by decide)

/-- The caller of the server drops the `UnauthenticatedConnection`: the stream ends, and the
client takes the end for the confirmation. -/
theorem connected_unconfirmed : ∃ s, kymuxToken.request messagePack =
      .ok (encode 2 (messagePack.toVec kymuxToken).length, messagePack.toVec kymuxToken) ∧
    run kymuxStep start (tokenRead ++ [.drop, .client (.ok ())]) = some s ∧
    s.client = .done (.ok ()) ∧ s.server = .dropped ∧ s.confirmed = false :=
  ⟨⟨.done (.ok ()), .dropped, [], [], true, false, false⟩, request_ok messagePack (by decide),
    by decide +kernel, rfl, rfl, rfl⟩

end Handshake

end Kymux.Auth
