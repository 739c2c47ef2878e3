import Kymux.KycomIpcSteps

namespace Kymux.Kycom

open BigEndian Keyed Machine

variable {i j n : ℕ} {connection : Connection} {a : Action} {x x' : TcpStream} {s s' : Ipc}

structure TcpStream.Keeps (x x' : TcpStream) : Prop where
  endpointId : x'.endpointId = x.endpointId
  server : x'.server = x.server ∨ ∃ got got', x.server = .reading got ∧ x'.server = .reading got'

theorem TcpStream.Keeps.server_eq {server : ServerEnd} (h : x.Keeps x')
    (hserver : ∀ got, server ≠ .reading got) : x'.server = server ↔ x.server = server := by
  obtain heq | ⟨got, got', hgot, hgot'⟩ := h.server
  · rw [heq]
  · rw [hgot, hgot']
    exact ⟨fun h ↦ absurd h.symm (hserver got'), fun h ↦ absurd h.symm (hserver got)⟩

structure Agrees (s : Ipc) : Prop where
  matched : Matched s.kycom
  sound : ∀ (n : ℕ) (x : TcpStream), s.streams[n]? = some x → x.Sound
  queued : ∀ n endpointId, (n, endpointId) ∈ s.queue →
    ∃ x, s.streams[n]? = some x ∧ x.server = .queued ∧ x.endpointId = endpointId
  nodup : (s.queue.map Prod.fst).Nodup
  given : ∀ i connection, s.kycom.Holds i connection → ∃ x, s.streams[connection.number]? = some x ∧
    x.endpointId = connection.endpointId ∧ (x.server = .listened ∨ x.server = .ready i)
  unique : ∀ i j connection connection', s.kycom.Holds i connection → s.kycom.Holds j connection' →
    connection.number = connection'.number → i = j
  ready : ∀ (n : ℕ) (x : TcpStream) (i : ℕ), s.streams[n]? = some x → x.server = .ready i →
    s.kycom.Holds i ⟨x.endpointId, n⟩
  panicked : s.panicked = false

namespace Agrees

theorem new : Agrees .new where
  matched := .new
  sound n x h := by cases h
  queued n endpointId h := by cases h
  nodup := .nil
  given i connection h := by
    obtain ⟨c, hc, -⟩ := h
    cases hc
  unique i j connection connection' h _ _ := by
    obtain ⟨c, hc, -⟩ := h
    cases hc
  ready n x i h := by cases h
  panicked := rfl

theorem kycomStep (h : Agrees s) (ha : ∀ connection, a ≠ .accept connection)
    (hstep : s.kycomStep a = some s') : Agrees s' := by
  obtain ⟨kycom, hkycom, rfl⟩ := Option.map_eq_some_iff.mp hstep
  obtain ⟨hkept, tx, hgiven⟩ := KyCom.passes_step h.matched hkycom
  have hback : ∀ i connection, kycom.Holds i connection → s.kycom.Holds i connection :=
    fun i connection hold ↦ (hgiven i connection hold).resolve_right (fun heq ↦ ha connection heq.2)
  exact ⟨h.matched.step hkycom, h.sound, h.queued, h.nodup,
    fun i connection hold ↦ h.given i connection (hback i connection hold),
    fun i j connection connection' hold hold' ↦
      h.unique i j connection connection' (hback i connection hold) (hback j connection' hold'),
    fun n x i hx hready ↦ hkept i _ (h.ready n x i hx hready), h.panicked⟩

theorem streamStep {f : TcpStream → Option TcpStream} (h : Agrees s)
    (hstep : s.streamStep n f = some s')
    (hf : ∀ x x', x.Sound → f x = some x' → x'.Sound ∧ x.Keeps x') : Agrees s' := by
  obtain ⟨x', hx', rfl⟩ := Option.map_eq_some_iff.mp hstep
  obtain ⟨x, hx, hfx⟩ := Option.bind_eq_some_iff.mp hx'
  obtain ⟨hsound, hkeeps⟩ := hf x x' (h.sound n x hx) hfx
  refine ⟨h.matched, ?_, ?_, h.nodup, ?_, h.unique, ?_, h.panicked⟩
  · intro m y hy
    obtain ⟨-, rfl⟩ | ⟨-, hy⟩ := (get_set hx).mp hy
    · exact hsound
    · exact h.sound m y hy
  · intro m endpointId hmem
    obtain ⟨y, hy, hqueued, hid⟩ := h.queued m endpointId hmem
    by_cases hm : m = n
    · subst hm
      cases hx.symm.trans hy
      exact ⟨x', (get_set hx).mpr (.inl ⟨rfl, rfl⟩), (hkeeps.server_eq (by simp)).mpr hqueued,
        hkeeps.endpointId.trans hid⟩
    · exact ⟨y, (get_set hx).mpr (.inr ⟨hm, hy⟩), hqueued, hid⟩
  · intro i connection hold
    obtain ⟨y, hy, hid, hserver⟩ := h.given i connection hold
    by_cases hm : connection.number = n
    · rw [hm] at hy ⊢
      cases hx.symm.trans hy
      exact ⟨x', (get_set hx).mpr (.inl ⟨rfl, rfl⟩), hkeeps.endpointId.trans hid,
        hserver.imp (hkeeps.server_eq (by simp)).mpr (hkeeps.server_eq (by simp)).mpr⟩
    · exact ⟨y, (get_set hx).mpr (.inr ⟨hm, hy⟩), hid, hserver⟩
  · intro m y i hy hready
    obtain ⟨rfl, rfl⟩ | ⟨-, hy⟩ := (get_set hx).mp hy
    · rw [hkeeps.endpointId]
      exact h.ready m x i hx ((hkeeps.server_eq (by simp)).mp hready)
    · exact h.ready m y i hy hready

theorem connect (h : Agrees s) (endpointId : UInt16) :
    Agrees { s with streams := s.streams ++ [.connect endpointId] } := by
  have hold : ∀ {m : ℕ} {y : TcpStream}, s.streams[m]? = some y →
      (s.streams ++ [.connect endpointId])[m]? = some y := fun hy ↦ get_concat.mpr (.inr hy)
  refine ⟨h.matched, ?_, ?_, h.nodup, ?_, h.unique, ?_, h.panicked⟩
  · intro m y hy
    obtain ⟨-, rfl⟩ | hy := get_concat.mp hy
    · exact .connect endpointId
    · exact h.sound m y hy
  · intro m id hmem
    obtain ⟨y, hy, hserver⟩ := h.queued m id hmem
    exact ⟨y, hold hy, hserver⟩
  · intro i connection hholds
    obtain ⟨y, hy, hserver⟩ := h.given i connection hholds
    exact ⟨y, hold hy, hserver⟩
  · intro m y i hy hready
    obtain ⟨-, rfl⟩ | hy := get_concat.mp hy
    · cases hready
    · exact h.ready m y i hy hready

theorem moved {server : ServerEnd} (h : Agrees s) (hx : s.streams[n]? = some x)
    (hfree : x.server ≠ .listened ∧ x.isReady = false) (hsound : TcpStream.Sound { x with server })
    (hready : ∀ i, server ≠ .ready i) :
    (∀ (m : ℕ) (y : TcpStream), (s.streams.set n { x with server })[m]? = some y → y.Sound) ∧
    (∀ i connection, s.kycom.Holds i connection → connection.number ≠ n ∧
      ∃ y, (s.streams.set n { x with server })[connection.number]? = some y ∧
        y.endpointId = connection.endpointId ∧ (y.server = .listened ∨ y.server = .ready i)) ∧
    ∀ (m : ℕ) (y : TcpStream) (i : ℕ), (s.streams.set n { x with server })[m]? = some y →
      y.server = .ready i → s.kycom.Holds i ⟨y.endpointId, m⟩ := by
  refine ⟨?_, ?_, ?_⟩
  · intro m y hy
    obtain ⟨-, rfl⟩ | ⟨-, hy⟩ := (get_set hx).mp hy
    · exact hsound
    · exact h.sound m y hy
  · intro i connection hold
    obtain ⟨y, hy, hid, hserver⟩ := h.given i connection hold
    have hm : connection.number ≠ n := by
      rintro rfl
      cases hx.symm.trans hy
      obtain hl | hr := hserver
      · exact hfree.1 hl
      · have hfree := hfree.2
        rw [TcpStream.isReady, hr] at hfree
        cases hfree
    exact ⟨hm, y, (get_set hx).mpr (.inr ⟨hm, hy⟩), hid, hserver⟩
  · intro m y i hy hserver
    obtain ⟨-, rfl⟩ | ⟨-, hy⟩ := (get_set hx).mp hy
    · exact absurd hserver (hready i)
    · exact h.ready m y i hy hserver

theorem handled (h : Agrees s) (hstep : s.handled n = some s') : Agrees s' := by
  unfold Ipc.handled at hstep
  split at hstep
  · cases hstep
  · next x hx =>
    split at hstep
    · next got hserver =>
      split_ifs at hstep with hcond
      cases hstep
      have hsound := h.sound n x hx
      have hfree : x.server ≠ .listened ∧ x.isReady = false := by simp [TcpStream.isReady, hserver]
      have hgot : x.got = encode 2 x.endpointId.toNat := by
        rw [← hsound.got_eq hserver hcond.1]
        simp [TcpStream.got, hserver]
      obtain ⟨hstreams, hgiven, hready⟩ := h.moved hx hfree
        (hsound.advance hgot hfree.2 (.inl rfl)) (fun _ ↦ by simp)
      have hnot : ∀ m endpointId, (m, endpointId) ∈ s.queue → m ≠ n := by
        rintro m endpointId hmem rfl
        obtain ⟨y, hy, hqueued, -⟩ := h.queued m endpointId hmem
        cases hx.symm.trans hy
        rw [hserver] at hqueued
        cases hqueued
      refine ⟨h.matched, hstreams, ?_, ?_, fun i connection hold ↦ (hgiven i connection hold).2,
        h.unique, hready, h.panicked⟩
      · intro m endpointId hmem
        obtain hmem | hmem := List.mem_append.mp hmem
        · obtain ⟨y, hy, hqueued⟩ := h.queued m endpointId hmem
          exact ⟨y, (get_set hx).mpr (.inr ⟨hnot m endpointId hmem, hy⟩), hqueued⟩
        · cases List.mem_singleton.mp hmem
          exact ⟨_, (get_set hx).mpr (.inl ⟨rfl, rfl⟩), rfl, (hsound.id_eq hserver hcond.1).symm⟩
      · rw [List.map_append, List.nodup_append]
        refine ⟨h.nodup, List.nodup_singleton _, ?_⟩
        rintro m hm m' hm' rfl
        obtain ⟨⟨m, endpointId⟩, hmem, rfl⟩ := List.mem_map.mp hm
        exact hnot m endpointId hmem (List.mem_singleton.mp hm')
    · cases hstep

theorem listen (h : Agrees s) (hstep : s.listen = some s') : Agrees s' := by
  unfold Ipc.listen at hstep
  split at hstep
  · cases hstep
  · next n endpointId queue hqueue =>
    split at hstep
    · cases hstep
    · next x hx =>
      obtain ⟨kycom, hkycom, rfl⟩ := Option.map_eq_some_iff.mp hstep
      obtain ⟨y, hy, hserver, hid⟩ := h.queued n endpointId (by simp [hqueue])
      cases hx.symm.trans hy
      have hnodup := h.nodup
      rw [hqueue, List.map_cons, List.nodup_cons] at hnodup
      have hfree : x.server ≠ .listened ∧ x.isReady = false := by simp [TcpStream.isReady, hserver]
      have hgot : x.got = encode 2 x.endpointId.toNat := by simp [TcpStream.got, hserver]
      obtain ⟨hstreams, hgiven, hready⟩ := h.moved hx hfree
        ((h.sound n x hx).advance hgot hfree.2 (.inr rfl)) (fun _ ↦ by simp)
      obtain ⟨hkept, tx, hpassed⟩ := KyCom.passes_step h.matched hkycom
      refine ⟨h.matched.step hkycom, hstreams, ?_, hnodup.2, ?_, ?_,
        fun m z i hz hserver ↦ hkept i _ (hready m z i hz hserver), h.panicked⟩
      · intro m id hmem
        obtain ⟨z, hz, hqueued⟩ := h.queued m id (by simp [hqueue, hmem])
        have hm : m ≠ n := by
          rintro rfl
          exact hnodup.1 (List.mem_map.mpr ⟨(m, id), hmem, rfl⟩)
        exact ⟨z, (get_set hx).mpr (.inr ⟨hm, hz⟩), hqueued⟩
      · intro i connection hold
        obtain hold | ⟨-, heq⟩ := hpassed i connection hold
        · exact (hgiven i connection hold).2
        · cases heq
          exact ⟨_, (get_set hx).mpr (.inl ⟨rfl, rfl⟩), hid, .inl rfl⟩
      -- The stream that is accepted was held by no channel.
      · intro i j connection connection' hold hold' hnumber
        obtain hold | ⟨rfl, heq⟩ := hpassed i connection hold
        · obtain hold' | ⟨-, heq'⟩ := hpassed j connection' hold'
          · exact h.unique i j connection connection' hold hold' hnumber
          · cases heq'
            exact absurd hnumber (hgiven i connection hold).1
        · obtain hold' | ⟨rfl, -⟩ := hpassed j connection' hold'
          · cases heq
            exact absurd hnumber.symm (hgiven j connection' hold').1
          · rfl

theorem serverReady (h : Agrees s) (hstep : s.serverReady i = some s') : Agrees s' := by
  unfold Ipc.serverReady at hstep
  split at hstep
  · cases hstep
  · next c hc =>
    split at hstep
    · next connection hdropped hresults =>
      have hold : s.kycom.Holds i connection := ⟨c, hc, by simp [hresults]⟩
      obtain ⟨c', hc', -, hid⟩ := hold.fair h.matched
      cases hc.symm.trans hc'
      rw [if_pos hid] at hstep
      split at hstep
      · cases hstep
      · next x hx =>
        split_ifs at hstep with hserver
        cases hstep
        refine ⟨h.matched, ?_, ?_, h.nodup, ?_, h.unique, ?_, h.panicked⟩
        · intro m y hy
          obtain ⟨-, rfl⟩ | ⟨-, hy⟩ := (get_set hx).mp hy
          · exact (h.sound _ x hx).ready hserver i
          · exact h.sound m y hy
        · intro m endpointId hmem
          obtain ⟨y, hy, hqueued, hid'⟩ := h.queued m endpointId hmem
          have hm : m ≠ connection.number := by
            rintro rfl
            cases hx.symm.trans hy
            rw [hserver] at hqueued
            cases hqueued
          exact ⟨y, (get_set hx).mpr (.inr ⟨hm, hy⟩), hqueued, hid'⟩
        · intro j connection' hold'
          obtain ⟨y, hy, hid', hserver'⟩ := h.given j connection' hold'
          by_cases hm : connection'.number = connection.number
          · obtain rfl := h.unique i j connection connection' hold hold' hm.symm
            rw [hm] at hy ⊢
            cases hx.symm.trans hy
            exact ⟨_, (get_set hx).mpr (.inl ⟨rfl, rfl⟩), hid', .inr rfl⟩
          · exact ⟨y, (get_set hx).mpr (.inr ⟨hm, hy⟩), hid', hserver'⟩
        · intro m y j hy hready
          obtain ⟨rfl, rfl⟩ | ⟨-, hy⟩ := (get_set hx).mp hy
          · cases hready
            obtain ⟨x', hx', hid', -⟩ := h.given i connection hold
            cases hx.symm.trans hx'
            change s.kycom.Holds i ⟨x.endpointId, connection.number⟩
            rw [hid']
            exact hold
          · exact h.ready m y j hy hready
    · cases hstep

theorem step {a : IpcAction} (h : Agrees s) (hstep : s.step a = some s') : Agrees s' := by
  cases a with
  | registerChannel | stop | drop => exact h.kycomStep (fun _ ↦ by simp) hstep
  | connect endpointId =>
    cases hstep
    exact h.connect endpointId
  | writeId stream n =>
    refine h.streamStep hstep (fun x x' hx hx' ↦ ⟨hx.writeId hx', ?_⟩)
    unfold TcpStream.writeId at hx'
    split_ifs at hx'
    cases hx'
    exact ⟨rfl, .inl rfl⟩
  | readReady stream =>
    refine h.streamStep hstep (fun x x' hx hx' ↦ ⟨hx.readReady hx', ?_⟩)
    unfold TcpStream.readReady at hx'
    split_ifs at hx'
    split at hx'
    · cases hx'
    · cases hx'
      exact ⟨rfl, .inl rfl⟩
  | clientSend stream bytes =>
    refine h.streamStep hstep (fun x x' hx hx' ↦ ⟨hx.clientSend hx', ?_⟩)
    unfold TcpStream.clientSend at hx'
    split_ifs at hx'
    cases hx'
    exact ⟨rfl, .inl rfl⟩
  | clientRecv stream n =>
    refine h.streamStep hstep (fun x x' hx hx' ↦ ⟨hx.clientRecv hx', ?_⟩)
    unfold TcpStream.clientRecv at hx'
    split_ifs at hx'
    cases hx'
    exact ⟨rfl, .inl rfl⟩
  | readId stream n =>
    refine h.streamStep hstep (fun x x' hx hx' ↦ ⟨hx.readId hx', ?_⟩)
    unfold TcpStream.readId at hx'
    split at hx'
    · next got hserver =>
      cases hx'
      exact ⟨rfl, .inr ⟨got, _, hserver, rfl⟩⟩
    · cases hx'
  | handled stream => exact h.handled hstep
  | listen => exact h.listen hstep
  | serverReady channel => exact h.serverReady hstep
  | serverSend stream bytes =>
    refine h.streamStep hstep (fun x x' hx hx' ↦ ⟨hx.serverSend hx', ?_⟩)
    unfold TcpStream.serverSend at hx'
    split_ifs at hx'
    cases hx'
    exact ⟨rfl, .inl rfl⟩
  | serverRecv stream n =>
    refine h.streamStep hstep (fun x x' hx hx' ↦ ⟨hx.serverRecv hx', ?_⟩)
    unfold TcpStream.serverRecv at hx'
    split_ifs at hx'
    cases hx'
    exact ⟨rfl, .inl rfl⟩

end Agrees

/-- In every run of a server with any number of clients, no assertion fails. A client whose
`ready` has returned is connected to one channel that was registered with the id of its address,
on which `ready` has returned, too, and no other client is. What each of the two reads then is
what the other one sent, from the first byte on. -/
theorem ipc_agreement {as : List IpcAction} (h : run Ipc.step .new as = some s) :
    s.panicked = false ∧ ∀ (n : ℕ) (x : TcpStream), s.streams[n]? = some x → x.clientReady = true →
      ∃ i c, x.server = .ready i ∧ s.kycom.channels[i]? = some c ∧ c.endpointId = x.endpointId ∧
        c.results = [.ok ⟨x.endpointId, n⟩] ∧
        (∀ j connection, s.kycom.Holds j connection → connection.number = n → j = i) ∧
        x.clientReceived ++ x.toClient = x.serverSent ∧
        x.serverReceived ++ x.toServer = x.clientSent := by
  have hs : Agrees s := run_invariant .new (fun _ _ _ h hstep ↦ h.step hstep) h
  refine ⟨hs.panicked, fun n x hx hready ↦ ?_⟩
  have hsound := hs.sound n x hx
  obtain ⟨hleft, hserver, hdown⟩ := hsound.down hready
  obtain ⟨i, hi⟩ : ∃ i, x.server = .ready i := by
    unfold TcpStream.isReady at hserver
    split at hserver
    · next i hi => exact ⟨i, hi⟩
    · cases hserver
  have hold := hs.ready n x i hx hi
  obtain ⟨c, hc, hresults, hid⟩ := hold.fair hs.matched
  refine ⟨i, c, hi, hc, hid.symm, hresults, fun j connection hold' hnumber ↦ ?_, hdown, ?_⟩
  · exact hs.unique j i connection _ hold' hold hnumber
  · have hup := hsound.up
    have hgot : x.got = encode 2 x.endpointId.toNat := by simp [TcpStream.got, hi]
    rw [hgot, hleft, List.append_nil] at hup
    exact (List.append_inj hup rfl).2

def twoClients : List IpcAction :=
  [.registerChannel, .connect 0, .connect 0, .writeId 0 2, .writeId 1 1, .writeId 1 1, .readId 1 1,
    .readId 1 7, .handled 1, .readId 0 2, .handled 0, .listen, .listen, .serverReady 0,
    .serverSend 1 [5, 6], .readReady 1, .clientSend 1 [7], .clientRecv 1 1, .serverRecv 1 1]

theorem ipc_agreement_two : ∃ s x, run Ipc.step .new twoClients = some s ∧ s.streams[1]? = some x ∧
    x.clientReceived = [5] ∧ x.serverReceived = [7] ∧
    s.streams[0]?.map TcpStream.server = some .listened ∧
    ∃ i c, x.server = .ready i ∧ s.kycom.channels[i]? = some c ∧
      c.results = [.ok ⟨x.endpointId, 1⟩] ∧
      (∀ j connection, s.kycom.Holds j connection → connection.number = 1 → j = i) ∧
      x.clientReceived ++ x.toClient = x.serverSent ∧
      x.serverReceived ++ x.toServer = x.clientSent := by
  obtain ⟨s, hrun, hs⟩ :=
    Option.map_eq_some_iff.mp (show (run Ipc.step .new twoClients).map Ipc.streams =
    some [{ TcpStream.connect 0 with idLeft := [], server := .listened },
      ⟨0, [], true, [7], [5], [], [6], .ready 0, [5, 6], [7]⟩] by decide +kernel)
  have hx : s.streams[1]? = some ⟨0, [], true, [7], [5], [], [6], .ready 0, [5, 6], [7]⟩ := by
    rw [hs]; rfl
  obtain ⟨i, c, hserver, hc, -, hresults, hunique, hdown, hup⟩ := (ipc_agreement hrun).2 1 _ hx rfl
  exact ⟨s, _, hrun, hx, rfl, rfl, by rw [hs]; rfl, i, c, hserver, hc, hresults, hunique, hdown,
    hup⟩

end Kymux.Kycom
