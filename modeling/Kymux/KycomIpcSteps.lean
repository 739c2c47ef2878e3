import Kymux.KycomIpc
import Kymux.KycomMatching

namespace Kymux.Kycom

open BigEndian Keyed

variable {k k' : KyCom} {i n : ℕ} {connection : Connection} {a : Action} {x x' : TcpStream}

namespace KyCom

def Holds (k : KyCom) (i : ℕ) (connection : Connection) : Prop :=
  ∃ c, k.channels[i]? = some c ∧ .ok connection ∈ c.results

/-- In the states of a server a channel that holds a connection holds nothing else, and the
connection carries its id. -/
theorem Holds.fair (h : k.Holds i connection) (hk : Matched k) :
    ∃ c, k.channels[i]? = some c ∧ c.results = [.ok connection] ∧
    connection.endpointId = c.endpointId := by
  obtain ⟨c, hc, hmem⟩ := h
  refine ⟨c, hc, ?_⟩
  obtain hnil | ⟨connection', hone, hid⟩ | herror := hk.fair c (List.mem_of_getElem? hc)
  · rw [hnil] at hmem
    cases hmem
  · rw [hone, List.mem_singleton] at hmem
    cases hmem
    exact ⟨hone, hid⟩
  · rw [herror, List.mem_singleton] at hmem
    cases hmem

theorem mem_give {c : Channel} {result : Except ErrorKind Connection}
    (h : .ok connection ∈ (c.give result).results) :
    .ok connection ∈ c.results ∨ result = .ok connection := by
  unfold Channel.give at h
  split_ifs at h
  · exact .inl h
  · obtain h | h := List.mem_append.mp h
    · exact .inl h
    · exact .inr (List.mem_singleton.mp h).symm

theorem mem_of_mem_give {c : Channel} (result : Except ErrorKind Connection)
    (h : .ok connection ∈ c.results) :
    .ok connection ∈ (c.give result).results := by
  unfold Channel.give
  split_ifs
  · exact h
  · exact List.mem_append_left _ h

/-- What the channels hold changes where a connection is accepted, for one channel. -/
structure Passes (k k' : KyCom) (a : Action) : Prop where
  kept : ∀ i connection, k.Holds i connection → k'.Holds i connection
  given : ∃ tx, ∀ i connection, k'.Holds i connection → k.Holds i connection ∨ i = tx ∧
    a = .accept connection

theorem Passes.of_channels (h : k'.channels = k.channels) : Passes k k' a where
  kept i connection hold := by
    unfold Holds
    rw [h]
    exact hold
  given := by
    refine ⟨0, fun i connection hold ↦ .inl ?_⟩
    unfold Holds at hold
    rwa [h] at hold

/-- Each channel is what it was, or was given the result of the step. -/
theorem Passes.of_get {f : ℕ → Channel → Channel}
    (hget : ∀ i, k'.channels[i]? = k.channels[i]?.map (f i))
    (hkept : ∀ i c connection, .ok connection ∈ c.results → .ok connection ∈ (f i c).results)
    (tx : ℕ) (hgiven : ∀ i c connection, .ok connection ∈ (f i c).results →
      .ok connection ∈ c.results ∨ i = tx ∧ a = .accept connection) : Passes k k' a where
  kept i connection hold := by
    obtain ⟨c, hc, hmem⟩ := hold
    exact ⟨f i c, by rw [hget, hc]; rfl, hkept i c connection hmem⟩
  given := by
    refine ⟨tx, fun i connection hold ↦ ?_⟩
    obtain ⟨c', hc', hmem⟩ := hold
    rw [hget] at hc'
    obtain ⟨c, hc, rfl⟩ := Option.map_eq_some_iff.mp hc'
    exact (hgiven i c connection hmem).imp_left (fun hmem ↦ ⟨c, hc, hmem⟩)

theorem passes_register (k : KyCom) : Passes k k.registerChannel.2 .registerChannel := by
  cases hp : k.poisoned with
  | true =>
    rw [registerChannel_poisoned hp]
    exact .of_channels rfl
  | false =>
    cases hm : k.pendingEndpoints with
    | none =>
      rw [registerChannel_ended hp hm]
      exact .of_channels rfl
    | some m =>
      rcases eq_or_ne m.length (2 ^ 16) with hlen | hlen
      · rw [registerChannel_full hp hm hlen]
        exact .of_channels rfl
      · obtain ⟨endpointId, -, -, hreg⟩ :=
          registerChannel_free hp hm (lt_of_le_of_ne m.length_le hlen)
        rw [hreg]
        refine ⟨fun i connection hold ↦ ?_, 0, fun i connection hold ↦ .inl ?_⟩
        · obtain ⟨c, hc, hmem⟩ := hold
          exact ⟨c, get_concat.mpr (.inr hc), hmem⟩
        · obtain ⟨c, hc, hmem⟩ := hold
          obtain ⟨-, rfl⟩ | hc := get_concat.mp hc
          · cases hmem
          · exact ⟨c, hc, hmem⟩

theorem passes_listen (hk : Matched k) (hl : k.listening = true) (connection : Connection) :
    Passes k (k.listen connection) (.accept connection) := by
  cases hp : k.poisoned with
  | true =>
    rw [listen_poisoned hp]
    exact .of_channels rfl
  | false =>
    obtain ⟨m, hm⟩ := Option.isSome_iff_exists.mp ((hk.listening hp).mp hl)
    cases hlook : m.map.lookup connection.endpointId with
    | none =>
      rw [listen_unknown hp hm hlook]
      exact .of_channels rfl
    | some tx =>
      rw [listen_known hp hm hlook]
      refine .of_get (f := fun i c ↦ if tx = i then c.give (.ok connection) else c)
        (fun i ↦ List.getElem?_modify ..)
        (fun i c connection' hmem ↦ ?_) tx (fun i c connection' hmem ↦ ?_)
      · split_ifs
        · exact mem_of_mem_give _ hmem
        · exact hmem
      · split_ifs at hmem with htx
        · exact (mem_give hmem).imp_right (fun heq ↦ ⟨htx.symm, by rw [Except.ok.inj heq]⟩)
        · exact .inl hmem

theorem passes_stop (hk : Matched k) (hl : k.listening = true) : Passes k k.dropGuard .stop := by
  cases hp : k.poisoned with
  | true =>
    rw [dropGuard_poisoned hp]
    exact .of_channels rfl
  | false =>
    obtain ⟨m, hm⟩ := Option.isSome_iff_exists.mp ((hk.listening hp).mp hl)
    have hnodup := hk.senders_nodup hm
    rw [dropGuard_pending hp hm]
    refine .of_get (f := fun i c ↦
        if i ∈ m.map.entries.map Sigma.snd then c.give (.error .connectionAborted) else c)
      (fun i ↦ ?_) (fun i c connection' hmem ↦ ?_) 0 (fun i c connection' hmem ↦ ?_)
    · ext c'
      rw [giveAll_get hnodup, Option.map_eq_some_iff]
    · split_ifs
      · exact mem_of_mem_give _ hmem
      · exact hmem
    · split_ifs at hmem
      · exact .inl ((mem_give hmem).resolve_right (fun h ↦ by cases h))
      · exact .inl hmem

theorem passes_step (hk : Matched k) (h : k.step a = some k') : Passes k k' a := by
  have hcases := step_cases h
  cases a with
  | registerChannel =>
    rw [hcases]
    exact passes_register k
  | accept connection =>
    rw [hcases.2]
    exact passes_listen hk hcases.1 connection
  | stop =>
    rw [hcases.2]
    exact passes_stop hk hcases.1
  | drop channel =>
    rw [hcases]
    refine .of_get (f := fun i c ↦ if channel = i then { c with dropped := true } else c)
      (fun i ↦ List.getElem?_modify ..)
      (fun i c connection' hmem ↦ ?_) 0 (fun i c connection' hmem ↦ ?_)
    · split_ifs <;> exact hmem
    · split_ifs at hmem <;> exact .inl hmem

end KyCom

namespace TcpStream

def got (x : TcpStream) : Bytes :=
  match x.server with
  | .reading got => got
  | _ => encode 2 x.endpointId.toNat

/-- What is on the way in each direction. The server reads what the client sends right behind
the id, and the client what the server sends right behind its byte. -/
structure Sound (x : TcpStream) : Prop where
  up : x.got ++ (x.serverReceived ++ (x.toServer ++ x.idLeft)) =
    encode 2 x.endpointId.toNat ++ x.clientSent
  got_le : x.got.length ≤ 2
  unready : x.isReady = false → x.serverSent = [] ∧ x.serverReceived = []
  unsent : x.clientReady = false → x.clientSent = [] ∧ x.clientReceived = [] ∧
    x.toClient = if x.isReady then 0 :: x.serverSent else []
  down : x.clientReady = true → x.idLeft = [] ∧ x.isReady = true ∧
    x.clientReceived ++ x.toClient = x.serverSent

namespace Sound

theorem connect (endpointId : UInt16) : Sound (.connect endpointId) where
  up := by simp [TcpStream.connect, got]
  got_le := Nat.zero_le 2
  unready _ := ⟨rfl, rfl⟩
  unsent _ := ⟨rfl, rfl, rfl⟩
  down h := by cases h

theorem writeId (h : Sound x) (hstep : x.writeId n = some x') : Sound x' := by
  unfold TcpStream.writeId at hstep
  split_ifs at hstep with hleft
  cases hstep
  have hunready : x.clientReady = false := by
    by_contra hready
    exact hleft (h.down (Bool.eq_true_of_not_eq_false hready)).1
  refine ⟨?_, h.got_le, h.unready, h.unsent, fun hready ↦ ?_⟩
  · rw [List.append_assoc x.toServer, List.take_append_drop]
    exact h.up
  · rw [show x.clientReady = true from hready] at hunready
    cases hunready

theorem readReady (h : Sound x) (hstep : x.readReady = some x') : Sound x' := by
  unfold TcpStream.readReady at hstep
  split_ifs at hstep with hcond
  obtain ⟨hleft, hunready⟩ := hcond
  obtain ⟨hsent, hreceived, hclient⟩ := h.unsent hunready
  split at hstep
  · cases hstep
  · next b rest hrest =>
    cases hstep
    refine ⟨h.up, h.got_le, h.unready, (fun hready ↦ by cases hready), fun _ ↦ ⟨hleft, ?_⟩⟩
    rw [hrest] at hclient
    split_ifs at hclient with hready
    rw [List.cons.injEq] at hclient
    refine ⟨hready, ?_⟩
    change x.clientReceived ++ rest = x.serverSent
    rw [hreceived, hclient.2]
    rfl

theorem clientSend {bytes : Bytes} (h : Sound x) (hstep : x.clientSend bytes = some x') :
    Sound x' := by
  unfold TcpStream.clientSend at hstep
  split_ifs at hstep with hready
  cases hstep
  obtain ⟨hleft, hserver, hdown⟩ := h.down hready
  refine ⟨?_, h.got_le, h.unready, fun hunready ↦ ?_, fun _ ↦ ⟨hleft, hserver, hdown⟩⟩
  · have hup := h.up
    rw [hleft, List.append_nil] at hup
    change x.got ++ (x.serverReceived ++ (x.toServer ++ bytes ++ x.idLeft)) = _ ++
      (x.clientSent ++ bytes)
    rw [hleft, List.append_nil, ← List.append_assoc, ← List.append_assoc, ← List.append_assoc,
      List.append_assoc x.got, hup]
  · rw [show x.clientReady = false from hunready] at hready
    cases hready

theorem clientRecv (h : Sound x) (hstep : x.clientRecv n = some x') : Sound x' := by
  unfold TcpStream.clientRecv at hstep
  split_ifs at hstep with hready
  cases hstep
  obtain ⟨hleft, hserver, hdown⟩ := h.down hready
  refine ⟨h.up, h.got_le, h.unready, fun hunready ↦ ?_, fun _ ↦ ⟨hleft, hserver, ?_⟩⟩
  · rw [show x.clientReady = false from hunready] at hready
    cases hready
  · rw [List.append_assoc, List.take_append_drop]
    exact hdown

theorem readId (h : Sound x) (hstep : x.readId n = some x') : Sound x' := by
  unfold TcpStream.readId at hstep
  split at hstep
  · next bytes hserver =>
    cases hstep
    have hgot : x.got = bytes := by simp [got, hserver]
    have hready : x.isReady = false := by simp [isReady, hserver]
    have hup := h.up
    have hle := h.got_le
    obtain ⟨hsent, hreceived⟩ := h.unready hready
    rw [hgot] at hup hle
    refine ⟨?_, ?_, fun _ ↦ ⟨hsent, hreceived⟩, fun hunready ↦ ?_, fun hclient ↦ ?_⟩
    · rw [hreceived] at hup ⊢
      simp only [got, List.nil_append] at hup ⊢
      rw [List.append_assoc bytes, ← List.append_assoc (x.toServer.take _), List.take_append_drop]
      exact hup
    · simp only [got, List.length_append, List.length_take]
      omega
    · have hclient := h.unsent hunready
      rw [hready] at hclient
      exact hclient
    · exact absurd (h.down hclient).2.1 (by simp [hready])
  · cases hstep

theorem serverSend {bytes : Bytes} (h : Sound x) (hstep : x.serverSend bytes = some x') :
    Sound x' := by
  unfold TcpStream.serverSend at hstep
  split_ifs at hstep with hready
  cases hstep
  refine ⟨h.up, h.got_le, fun hunready ↦ ?_, fun hunready ↦ ?_, fun hclient ↦ ?_⟩
  · exact absurd hready (by rw [show x.isReady = false from hunready]; simp)
  · obtain ⟨hsent, hreceived, hclient⟩ := h.unsent hunready
    refine ⟨hsent, hreceived, ?_⟩
    rw [if_pos hready] at hclient
    change x.toClient ++ bytes = if x.isReady then 0 :: (x.serverSent ++ bytes) else []
    rw [if_pos hready, hclient]
    rfl
  · obtain ⟨hleft, hserver, hdown⟩ := h.down hclient
    refine ⟨hleft, hserver, ?_⟩
    change x.clientReceived ++ (x.toClient ++ bytes) = x.serverSent ++ bytes
    rw [← List.append_assoc, hdown]

theorem serverRecv (h : Sound x) (hstep : x.serverRecv n = some x') : Sound x' := by
  unfold TcpStream.serverRecv at hstep
  split_ifs at hstep with hready
  cases hstep
  refine ⟨?_, h.got_le, fun hunready ↦ ?_, h.unsent, h.down⟩
  · rw [List.append_assoc x.serverReceived, ← List.append_assoc (x.toServer.take n),
      List.take_append_drop]
    exact h.up
  · exact absurd hready (by rw [show x.isReady = false from hunready]; simp)

theorem got_eq {bytes : Bytes} (h : Sound x) (hserver : x.server = .reading bytes)
    (hlen : bytes.length = 2) :
    bytes = encode 2 x.endpointId.toNat := by
  have hup := h.up
  simp only [got, hserver] at hup
  exact (List.append_inj hup (by rw [hlen, length_encode])).1

theorem id_eq {bytes : Bytes} (h : Sound x) (hserver : x.server = .reading bytes)
    (hlen : bytes.length = 2) :
    UInt16.ofNat (decode bytes) = x.endpointId := by
  rw [h.got_eq hserver hlen, decode_encode_of_lt x.endpointId.toNat_lt, UInt16.ofNat_toNat]

theorem advance {server : ServerEnd} (h : Sound x) (hgot : x.got = encode 2 x.endpointId.toNat)
    (hready : x.isReady = false) (hserver : server = .queued ∨ server = .listened) :
    Sound { x with server } := by
  have hready' : isReady { x with server } = false := by
    obtain rfl | rfl := hserver <;> rfl
  have hgot' : got { x with server } = x.got := by
    rw [hgot]
    obtain rfl | rfl := hserver <;> rfl
  refine ⟨?_, ?_, fun _ ↦ h.unready hready, fun hunready ↦ ?_, fun hclient ↦ ?_⟩
  · rw [hgot']
    exact h.up
  · rw [hgot']
    exact h.got_le
  · rw [hready']
    have hclient := h.unsent hunready
    rw [hready] at hclient
    exact hclient
  · exact absurd (h.down hclient).2.1 (by simp [hready])

theorem ready (h : Sound x) (hserver : x.server = .listened) (channel : ℕ) :
    Sound { x with server := .ready channel, toClient := x.toClient ++ [0] } := by
  have hready : x.isReady = false := by simp [isReady, hserver]
  have hgot : x.got = encode 2 x.endpointId.toNat := by simp [got, hserver]
  have hup := h.up
  have hle := h.got_le
  rw [hgot] at hup hle
  refine ⟨hup, hle, (fun hunready ↦ by cases hunready), fun hunready ↦ ?_, fun hclient ↦ ?_⟩
  · obtain ⟨hsent, hreceived, hclient⟩ := h.unsent hunready
    rw [hready] at hclient
    refine ⟨hsent, hreceived, ?_⟩
    change x.toClient ++ [0] = 0 :: x.serverSent
    rw [hclient, (h.unready hready).1]
    rfl
  · exact absurd (h.down hclient).2.1 (by simp [hready])

end Sound

end TcpStream

end Kymux.Kycom
