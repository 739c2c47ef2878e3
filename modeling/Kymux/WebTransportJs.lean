import Kymux.Types.Av

namespace Kymux.WebTransportJs

open BigEndian

inductive Outcome
  | chunk (value : Bytes)
  | done
  | rejected (error : String)

inductive Poll (α : Type)
  | ready (value : α)
  | pending

structure JsFuture where
  polls : ℕ
  outcome : Outcome

def JsFuture.poll : JsFuture → Poll Outcome × JsFuture
  | ⟨0, outcome⟩ => (.ready outcome, ⟨0, outcome⟩)
  | ⟨n + 1, outcome⟩ => (.pending, ⟨n, outcome⟩)

/-- The promises of a `ReadableStreamByobReader`, in the order of the reads. -/
abbrev Reader := ℕ → JsFuture

structure ReadFuture where
  buf : Bytes
  fut : Option JsFuture

namespace ReadFuture

def new (buf : Bytes) : ReadFuture := ⟨buf, none⟩

/-- The `get_or_insert_with` of `poll_internal`: a read is started unless one is under way. -/
def getOrStart (reader : Reader) (this : ReadFuture) (reads : ℕ) : JsFuture × Bytes × ℕ :=
  match this.fut with
  | some fut => (fut, this.buf, reads)
  | none => (reader reads, this.buf.takeD 8192 0, reads + 1)

def pollInternal (reader : Reader) (this : ReadFuture) (reads : ℕ) :
    Except Fault (Poll (Except String ℕ) × ReadFuture × ℕ) :=
  let (fut, buf, reads) := this.getOrStart reader reads
  match fut.poll with
  | (.pending, fut) => .ok (.pending, ⟨buf, some fut⟩, reads)
  | (.ready (.rejected error), fut) => .ok (.ready (.error error), ⟨buf, some fut⟩, reads)
  | (.ready .done, _) => .ok (.ready (.ok 0), ⟨buf, none⟩, reads)
  | (.ready (.chunk value), _) =>
    if value.length ≤ buf.length then
      .ok (.ready (.ok value.length), ⟨value ++ buf.drop value.length, none⟩, reads)
    else .error (.panic "range end index out of range for slice")

def poll (reader : Reader) (this : ReadFuture) (reads : ℕ) :
    Except Fault (Poll (Except String ℕ) × ReadFuture × ℕ) := do
  let (res, this, reads) ← this.pollInternal reader reads
  match res with
  | .pending => return (.pending, this, reads)
  | .ready (.ok n) => return (.ready (.ok n), { this with buf := this.buf.take n }, reads)
  | .ready (.error error) => return (.ready (.error error), { this with buf := [] }, reads)

end ReadFuture

inductive ReaderState
  | idle (buf : Bytes)
  | running (fut : ReadFuture)
  | invalid

/-- A `WebTransportJSRecvStreamDriver`, with the number of reads it has started. -/
structure RecvStream where
  state : ReaderState
  reads : ℕ

def RecvStream.new : RecvStream := ⟨.idle [], 0⟩

inductive Turn
  | again (s : RecvStream)
  | returns (res : Poll (Except String Bytes)) (s : RecvStream)

namespace RecvStream

/-- A turn of the loop of `poll_read`. What it returns comes with the bytes that it put into
`dst`. -/
def turn (reader : Reader) (remaining : ℕ) (s : RecvStream) : Except Fault Turn :=
  match s.state with
  | .idle buf =>
    if buf ≠ [] then
      let n := min buf.length remaining
      .ok (.returns (.ready (.ok (buf.take n))) ⟨.idle (buf.drop n), s.reads⟩)
    else .ok (.again ⟨.running (.new buf), s.reads⟩)
  | .running fut =>
    match fut.poll reader s.reads with
    | .error e => .error e
    | .ok (.ready (.ok _), fut, reads) => .ok (.again ⟨.idle fut.buf, reads⟩)
    | .ok (.ready (.error error), fut, reads) =>
      .ok (.returns (.ready (.error error)) ⟨.idle fut.buf, reads⟩)
    | .ok (.pending, fut, reads) => .ok (.returns .pending ⟨.running fut, reads⟩)
  | .invalid => .error (.panic "internal error: entered unreachable code")

/-- A call that returns within so many turns of its loop. -/
def pollRead (reader : Reader) (remaining : ℕ) :
    ℕ → RecvStream → Option (Except Fault (Poll (Except String Bytes) × RecvStream))
  | 0, _ => none
  | turns + 1, s =>
    match s.turn reader remaining with
    | .error e => some (.error e)
    | .ok (.again s') => pollRead reader remaining turns s'
    | .ok (.returns res s') => some (.ok (res, s'))

end RecvStream

inductive Calls (reader : Reader) (s : RecvStream) :
    List (ℕ × Poll (Except String Bytes)) → RecvStream → Prop
  | nil : Calls reader s [] s
  | snoc {log s' remaining turns res s''} : Calls reader s log s' →
      s'.pollRead reader remaining turns = some (.ok (res, s'')) →
      Calls reader s (log ++ [(remaining, res)]) s''

def put : Poll (Except String Bytes) → Bytes
  | .ready (.ok bytes) => bytes
  | _ => []

def handed (log : List (ℕ × Poll (Except String Bytes))) : Bytes := log.flatMap (fun c ↦ put c.2)

structure Script (reader : Reader) (chunks : List Bytes) : Prop where
  sizes : ∀ c ∈ chunks, 1 ≤ c.length ∧ c.length ≤ 8192
  chunk : ∀ n c, chunks[n]? = some c → (reader n).outcome = .chunk c
  done : ∀ n, chunks.length ≤ n → (reader n).outcome = .done

def waits (reader : Reader) (chunks : List Bytes) (n : ℕ) : ℕ :=
  ∑ k ∈ Finset.Ico n chunks.length, (reader k).polls

/-- A driver at the head of its loop, with the bytes it has yet to hand out and how often it may
still return without any before the last of them. -/
inductive Holding (reader : Reader) (chunks : List Bytes) : RecvStream → Bytes → ℕ → Prop
  | idle (buf : Bytes) (n : ℕ) :
      Holding reader chunks ⟨.idle buf, n⟩ (buf ++ (chunks.drop n).flatten) (waits reader chunks n)
  | fresh (n : ℕ) :
      Holding reader chunks ⟨.running (.new []), n⟩ (chunks.drop n).flatten (waits reader chunks n)
  | waiting (buf : Bytes) (n polls : ℕ) (hbuf : buf.length = 8192) :
      Holding reader chunks ⟨.running ⟨buf, some ⟨polls, (reader n).outcome⟩⟩, n + 1⟩
        (chunks.drop n).flatten (polls + waits reader chunks (n + 1))

variable {reader : Reader} {chunks : List Bytes} {s s' : RecvStream} {rest : Bytes}
  {n p polls remaining turns turns' : ℕ} {log : List (ℕ × Poll (Except String Bytes))}

/-- The turns that a call takes at most before it returns, if there are bytes left. -/
def RecvStream.rank (s : RecvStream) : ℕ :=
  match s.state with
  | .idle buf => if buf = [] then 2 else 0
  | _ => 1

theorem Holding.valid (h : Holding reader chunks s rest p) : s.state ≠ .invalid := by
  cases h <;> exact ReaderState.noConfusion

/-- The read under way is found pending, or it brings the next chunk, or the stream is done. -/
theorem poll_waiting (hscript : Script reader chunks) (n polls : ℕ) {buf : Bytes}
    (hbuf : buf.length = 8192) :
    (∃ k, polls = k + 1 ∧ ReadFuture.poll reader ⟨buf, some ⟨polls, (reader n).outcome⟩⟩ (n + 1) =
      .ok (.pending, ⟨buf, some ⟨k, (reader n).outcome⟩⟩, n + 1)) ∨
    (∃ c, chunks[n]? = some c ∧
      ReadFuture.poll reader ⟨buf, some ⟨polls, (reader n).outcome⟩⟩ (n + 1) =
      .ok (.ready (.ok c.length), .new c, n + 1)) ∨
    (chunks.length ≤ n ∧ ReadFuture.poll reader ⟨buf, some ⟨polls, (reader n).outcome⟩⟩ (n + 1) =
      .ok (.ready (.ok 0), .new [], n + 1)) := by
  cases polls with
  | succ k => exact .inl ⟨k, rfl, rfl⟩
  | zero =>
    cases hc : chunks[n]? with
    | none =>
      have hend := List.getElem?_eq_none_iff.mp hc
      refine .inr (.inr ⟨hend, ?_⟩)
      rw [hscript.done n hend]
      rfl
    | some c =>
      have hsize := (hscript.sizes c (List.mem_of_getElem? hc)).2
      refine .inr (.inl ⟨c, rfl, ?_⟩)
      rw [hscript.chunk n c hc]
      simp [ReadFuture.poll, ReadFuture.pollInternal, ReadFuture.getOrStart, JsFuture.poll, hbuf,
        hsize, ReadFuture.new, bind, Except.bind, pure, Except.pure]

theorem flatten_drop {c : Bytes} (h : chunks[n]? = some c) :
    (chunks.drop n).flatten = c ++ (chunks.drop (n + 1)).flatten := by
  obtain ⟨hlt, rfl⟩ := List.getElem?_eq_some_iff.mp h
  rw [List.drop_eq_getElem_cons hlt, List.flatten_cons]

theorem flatten_drop_eq_nil (h : chunks.length ≤ n) : (chunks.drop n).flatten = [] := by
  rw [List.drop_eq_nil_of_le h, List.flatten_nil]

theorem lt_of_flatten_drop (h : (chunks.drop n).flatten ≠ []) : n < chunks.length := by
  by_contra hle
  exact h (flatten_drop_eq_nil (not_lt.mp hle))

theorem waits_of_lt (h : n < chunks.length) :
    waits reader chunks n = (reader n).polls + waits reader chunks (n + 1) :=
  Finset.sum_eq_sum_Ico_succ_bot h _

inductive Turned (reader : Reader) (chunks : List Bytes) (rest : Bytes) (p rank : ℕ) : Turn → Prop
  | ready {bytes rest' s'} : bytes ≠ [] → rest = bytes ++ rest' → Holding reader chunks s' rest' p →
      Turned reader chunks rest p rank (.returns (.ready (.ok bytes)) s')
  | pending {s' p'} : (rest ≠ [] → p' < p) → Holding reader chunks s' rest p' →
      Turned reader chunks rest p rank (.returns .pending s')
  | again {s' p'} : (rest ≠ [] → p' ≤ p ∧ s'.rank < rank) → Holding reader chunks s' rest p' →
      Turned reader chunks rest p rank (.again s')

theorem turned_waiting (hscript : Script reader chunks) (remaining n polls : ℕ) {buf : Bytes}
    (hbuf : buf.length = 8192) :
    ∃ t, RecvStream.turn reader remaining
        ⟨.running ⟨buf, some ⟨polls, (reader n).outcome⟩⟩, n + 1⟩ = .ok t ∧
      Turned reader chunks (chunks.drop n).flatten (polls + waits reader chunks (n + 1)) 1 t := by
  rcases poll_waiting hscript n polls hbuf with
    ⟨k, rfl, hpoll⟩ | ⟨c, hc, hpoll⟩ | ⟨hend, hpoll⟩
  · refine ⟨.returns .pending ⟨.running ⟨buf, some ⟨k, (reader n).outcome⟩⟩, n + 1⟩, ?_, ?_⟩
    · simp only [RecvStream.turn, hpoll]
    · exact .pending (fun _ ↦ by omega) (.waiting buf n k hbuf)
  · have hpos := (hscript.sizes c (List.mem_of_getElem? hc)).1
    refine ⟨.again ⟨.idle c, n + 1⟩, ?_, ?_⟩
    · simp only [RecvStream.turn, hpoll, ReadFuture.new]
    · rw [flatten_drop hc]
      refine .again (fun _ ↦ ⟨Nat.le_add_left _ _, ?_⟩) (.idle c (n + 1))
      simp only [RecvStream.rank, if_neg (List.ne_nil_of_length_pos hpos), Nat.one_pos]
  · refine ⟨.again ⟨.idle [], n + 1⟩, ?_, ?_⟩
    · simp only [RecvStream.turn, hpoll, ReadFuture.new]
    · rw [flatten_drop_eq_nil hend]
      have hidle : Holding reader chunks ⟨.idle [], n + 1⟩ _ _ := .idle [] (n + 1)
      rw [flatten_drop_eq_nil (Nat.le_succ_of_le hend)] at hidle
      exact .again (fun hne ↦ absurd rfl hne) hidle

theorem Holding.turned (hscript : Script reader chunks) (hremaining : 1 ≤ remaining)
    (h : Holding reader chunks s rest p) :
    ∃ t, s.turn reader remaining = .ok t ∧ Turned reader chunks rest p s.rank t := by
  cases h with
  | idle buf n =>
    by_cases hbuf : buf = []
    · subst hbuf
      refine ⟨.again ⟨.running (.new []), n⟩, rfl, .again (fun _ ↦ ⟨le_rfl, Nat.one_lt_two⟩)
        (.fresh n)⟩
    · have hpos := List.length_pos_iff.mpr hbuf
      refine ⟨.returns (.ready (.ok (buf.take (min buf.length remaining))))
        ⟨.idle (buf.drop (min buf.length remaining)), n⟩, ?_, ?_⟩
      · exact if_pos hbuf
      · refine .ready ?_ ?_ (.idle (buf.drop (min buf.length remaining)) n)
        · rw [← List.length_pos_iff, List.length_take]
          omega
        · rw [← List.append_assoc, List.take_append_drop]
  | fresh n =>
    have hbuf : (([] : Bytes).takeD 8192 0).length = 8192 := List.takeD_length ..
    obtain ⟨t, hturn, hturned⟩ := turned_waiting hscript remaining n (reader n).polls hbuf
    refine ⟨t, hturn, ?_⟩
    by_cases hrest : (chunks.drop n).flatten = []
    · rw [hrest] at hturned ⊢
      cases hturned with
      | ready hne heq =>
        obtain ⟨rfl, -⟩ := List.append_eq_nil_iff.mp heq.symm
        exact absurd rfl hne
      | pending _ hs' => exact .pending (fun hne ↦ absurd rfl hne) hs'
      | again _ hs' => exact .again (fun hne ↦ absurd rfl hne) hs'
    · rw [waits_of_lt (lt_of_flatten_drop hrest)]
      exact hturned
  | waiting buf n polls hbuf => exact turned_waiting hscript remaining n polls hbuf

theorem RecvStream.pollRead_mono {r : Except Fault (Poll (Except String Bytes) × RecvStream)}
    (h : s.pollRead reader remaining turns = some r) (hle : turns ≤ turns') :
    s.pollRead reader remaining turns' = some r := by
  induction turns generalizing s turns' with
  | zero => cases h
  | succ turns ih =>
    obtain ⟨turns', rfl⟩ : ∃ k, turns' = k + 1 := ⟨turns' - 1, by omega⟩
    rw [pollRead] at h ⊢
    cases hturn : s.turn reader remaining with
    | error e => rwa [hturn] at h
    | ok t =>
      rw [hturn] at h
      cases t with
      | again s' => exact ih h (by omega)
      | returns res s' => exact h

/-- As long as bytes are left, a call returns with some of them or finds a chunk pending. -/
theorem Holding.pollRead (hscript : Script reader chunks) (hremaining : 1 ≤ remaining)
    (h : Holding reader chunks s rest p) (hrest : rest ≠ []) :
    ∃ turns res s', s.pollRead reader remaining turns = some (.ok (res, s')) ∧
      (res = .pending ∧ (∃ p' < p, Holding reader chunks s' rest p') ∨
        ∃ bytes rest', res = .ready (.ok bytes) ∧ bytes ≠ [] ∧ rest = bytes ++ rest' ∧
          ∃ p' ≤ p, Holding reader chunks s' rest' p') := by
  induction hrank : s.rank using Nat.strong_induction_on generalizing s p with
  | _ rank ih =>
    obtain ⟨t, hturn, hturned⟩ := h.turned hscript hremaining
    cases hturned with
    | @ready bytes rest' s' hbytes heq hs' =>
      refine ⟨1, _, s', ?_, .inr ⟨bytes, rest', rfl, hbytes, heq, p, le_rfl, hs'⟩⟩
      rw [RecvStream.pollRead, hturn]
    | @pending s' p' hp hs' =>
      refine ⟨1, _, s', ?_, .inl ⟨rfl, p', hp hrest, hs'⟩⟩
      rw [RecvStream.pollRead, hturn]
    | @again s' p' hlt hs' =>
      obtain ⟨hp, hrank'⟩ := hlt hrest
      obtain ⟨turns, res, s'', hcall, hres⟩ := ih s'.rank (hrank ▸ hrank') hs' rfl
      refine ⟨turns + 1, res, s'', ?_, ?_⟩
      · rw [RecvStream.pollRead, hturn]
        exact hcall
      · rcases hres
          with ⟨hres, p'', hp'', hs''⟩ | ⟨bytes, rest', hres, hbytes, heq, p'', hp'', hs''⟩
        · exact .inl ⟨hres, p'', by omega, hs''⟩
        · exact .inr ⟨bytes, rest', hres, hbytes, heq, p'', by omega, hs''⟩

/-- When no bytes are left, a call does not return, or finds the end pending. -/
theorem Holding.pollRead_ended {r : Except Fault (Poll (Except String Bytes) × RecvStream)}
    (hscript : Script reader chunks) (hremaining : 1 ≤ remaining) (h : Holding reader chunks s [] p)
    (hcall : s.pollRead reader remaining turns = some r) :
    ∃ s' p', r = .ok (.pending, s') ∧ Holding reader chunks s' [] p' := by
  induction turns generalizing s p with
  | zero => cases hcall
  | succ turns ih =>
    obtain ⟨t, hturn, hturned⟩ := h.turned hscript hremaining
    rw [RecvStream.pollRead, hturn] at hcall
    cases hturned with
    | ready hne heq =>
      obtain ⟨rfl, -⟩ := List.append_eq_nil_iff.mp heq.symm
      exact absurd rfl hne
    | pending _ hs' =>
      cases hcall
      exact ⟨_, _, rfl, hs'⟩
    | again _ hs' => exact ih hs' hcall

/-- Every call hands out what comes next, and keeps what comes after it. -/
theorem Holding.returned {res : Poll (Except String Bytes)} (hscript : Script reader chunks)
    (hremaining : 1 ≤ remaining) (h : Holding reader chunks s rest p)
    (hcall : s.pollRead reader remaining turns = some (.ok (res, s'))) :
    ∃ rest' p', rest = put res ++ rest' ∧ Holding reader chunks s' rest' p' := by
  by_cases hrest : rest = []
  · subst hrest
    obtain ⟨s'', p', hr, hs''⟩ := h.pollRead_ended hscript hremaining hcall
    cases hr
    exact ⟨[], p', rfl, hs''⟩
  obtain ⟨turns', res', s'', hcall', hres⟩ := h.pollRead hscript hremaining hrest
  have hsame := (RecvStream.pollRead_mono hcall (Nat.le_max_left turns turns')).symm.trans
    (RecvStream.pollRead_mono hcall' (Nat.le_max_right turns turns'))
  cases hsame
  rcases hres with ⟨rfl, p', -, hs'⟩ | ⟨bytes, rest', rfl, -, heq, p', -, hs'⟩
  · exact ⟨rest, p', rfl, hs'⟩
  · exact ⟨rest', p', heq, hs'⟩

theorem Calls.holding (hscript : Script reader chunks) (h : Calls reader .new log s)
    (hlog : ∀ c ∈ log, 1 ≤ c.1) :
    ∃ rest p, handed log ++ rest = chunks.flatten ∧ Holding reader chunks s rest p := by
  induction h with
  | nil => exact ⟨_, _, rfl, .idle [] 0⟩
  | @snoc log s' remaining turns res s'' _ hcall ih =>
    obtain ⟨rest, p, hhanded, hs'⟩ := ih (fun c hc ↦ hlog c (List.mem_append_left _ hc))
    have hremaining : 1 ≤ remaining := hlog (remaining, res) (by simp)
    obtain ⟨rest', p', rfl, hs''⟩ := hs'.returned hscript hremaining hcall
    refine ⟨rest', p', ?_, hs''⟩
    rw [← hhanded]
    simp [handed]

theorem Calls.completes (hscript : Script reader chunks) (room : ℕ → ℕ) (hroom : ∀ i, 1 ≤ room i)
    (h : Calls reader .new log s) (hlog : log.map Prod.fst = (List.range log.length).map room)
    (hhanded : handed log ++ rest = chunks.flatten) (hs : Holding reader chunks s rest p) :
    ∃ log' s', Calls reader .new log' s' ∧ log'.map Prod.fst = (List.range log'.length).map room ∧
      handed log' = chunks.flatten := by
  induction hmeasure : rest.length + p using Nat.strong_induction_on generalizing log s rest p with
  | _ measure ih =>
    by_cases hrest : rest = []
    · exact ⟨log, s, h, hlog, by rw [← hhanded, hrest, List.append_nil]⟩
    obtain ⟨turns, res, s', hcall, hres⟩ := hs.pollRead hscript (hroom log.length) hrest
    have hcalls := Calls.snoc h hcall
    have hrooms : (log ++ [(room log.length, res)]).map Prod.fst =
        (List.range (log ++ [(room log.length, res)]).length).map room := by
      simp [List.range_succ, hlog]
    rcases hres with ⟨rfl, p', hp', hs'⟩ | ⟨bytes, rest', rfl, hbytes, rfl, p', hp', hs'⟩
    · refine ih (rest.length + p') (by omega) hcalls hrooms ?_ hs' rfl
      simpa [handed, put] using hhanded
    · have hpos := List.length_pos_iff.mpr hbytes
      rw [List.length_append] at hmeasure
      refine ih (rest'.length + p') (by omega) hcalls hrooms ?_ hs' rfl
      simpa [handed, put] using hhanded

/-- What a call should do with these bytes left: return, with the next of them or because a read is
pending, and when none are left, return at last with none. -/
structure AsExpected (reader : Reader) (rest : Bytes) (s : RecvStream) (remaining : ℕ) : Prop where
  returns : ∃ turns res s', s.pollRead reader remaining turns = some (.ok (res, s')) ∧
    s'.state ≠ .invalid ∧
    (res = .pending ∨ ∃ bytes, res = .ready (.ok bytes) ∧ bytes <+: rest ∧ (bytes = [] → rest = []))
  ends : rest = [] → ∃ log s' turns s'', Calls reader s log s' ∧ (∀ c ∈ log, 1 ≤ c.1) ∧
    s'.pollRead reader remaining turns = some (.ok (.ready (.ok []), s''))

theorem Holding.calls_ended (hscript : Script reader chunks) (h : Holding reader chunks s [] p)
    (hcalls : Calls reader s log s') (hlog : ∀ c ∈ log, 1 ≤ c.1) :
    (∃ p', Holding reader chunks s' [] p') ∧ ∀ c ∈ log, c.2 = .pending := by
  induction hcalls with
  | nil => exact ⟨⟨p, h⟩, by simp⟩
  | @snoc log s₁ remaining turns res s₂ _ hcall ih =>
    obtain ⟨⟨p₁, hs₁⟩, hpending⟩ := ih (fun c hc ↦ hlog c (List.mem_append_left _ hc))
    have hremaining : 1 ≤ remaining := hlog (remaining, res) (by simp)
    obtain ⟨s₃, p₃, hr, hs₃⟩ := hs₁.pollRead_ended hscript hremaining hcall
    cases hr
    refine ⟨⟨p₃, hs₃⟩, fun c hc ↦ ?_⟩
    rcases List.mem_append.mp hc with hc | hc
    · exact hpending c hc
    · rw [List.mem_singleton.mp hc]

/-- The reader hands out all the bytes of its stream in order, and does what it should exactly
as long as bytes are left: the end of the stream never comes. -/
theorem pollRead_expected_iff (hscript : Script reader chunks) :
    (∀ room : ℕ → ℕ, (∀ i, 1 ≤ room i) → ∃ log s, Calls reader .new log s ∧
      log.map Prod.fst = (List.range log.length).map room ∧ handed log = chunks.flatten) ∧
    ∀ (log : List (ℕ × Poll (Except String Bytes))) (s : RecvStream) (remaining : ℕ),
      Calls reader .new log s → (∀ c ∈ log, 1 ≤ c.1) → 1 ≤ remaining →
      handed log <+: chunks.flatten ∧ s.state ≠ .invalid ∧
      (AsExpected reader (chunks.flatten.drop (handed log).length) s remaining ↔
        handed log ≠ chunks.flatten) := by
  refine ⟨fun room hroom ↦ ?_, fun log s remaining hcalls hlog hremaining ↦ ?_⟩
  · exact Calls.completes hscript room hroom .nil rfl rfl (.idle [] 0)
  obtain ⟨rest, p, hhanded, hs⟩ := hcalls.holding hscript hlog
  have hdrop : chunks.flatten.drop (handed log).length = rest := by
    rw [← hhanded, List.drop_left]
  have hleft : handed log ≠ chunks.flatten ↔ rest ≠ [] := by
    rw [← hhanded, ne_eq, List.self_eq_append_right]
  refine ⟨⟨rest, hhanded⟩, hs.valid, ?_⟩
  rw [hdrop, hleft]
  constructor
  · rintro hexpected rfl
    obtain ⟨log', s', turns, s'', hcalls', hlog', hcall⟩ := hexpected.ends rfl
    obtain ⟨⟨p', hs'⟩, -⟩ := hs.calls_ended hscript hcalls' hlog'
    obtain ⟨_, _, hr, -⟩ := hs'.pollRead_ended hscript hremaining hcall
    cases hr
  · intro hrest
    refine ⟨?_, fun h ↦ absurd h hrest⟩
    obtain ⟨turns, res, s', hcall, hres⟩ := hs.pollRead hscript hremaining hrest
    rcases hres with ⟨rfl, p', -, hs'⟩ | ⟨bytes, rest', rfl, hbytes, heq, p', -, hs'⟩
    · exact ⟨turns, _, s', hcall, hs'.valid, .inl rfl⟩
    · exact ⟨turns, _, s', hcall, hs'.valid,
        .inr ⟨bytes, rfl, ⟨rest', heq.symm⟩, fun h ↦ absurd h hbytes⟩⟩

def smallReader : Reader := fun n ↦ if n = 0 then ⟨1, .chunk [1, 2, 3]⟩ else ⟨1, .done⟩

theorem pollRead_expected_iff_small : Script smallReader [[1, 2, 3]] ∧
    AsExpected smallReader [1, 2, 3] .new 2 := by
  have hscript : Script smallReader [[1, 2, 3]] := by
    constructor
    · decide
    · rintro (_ | n) c hc
      · cases hc
        rfl
      · cases hc
    · rintro (_ | n) hn
      · cases hn
      · rfl
  refine ⟨hscript, ?_⟩
  exact ((pollRead_expected_iff hscript).2 [] .new 2 .nil (by simp) (by decide)).2.2.mpr (by decide)

theorem script_done (polls : ℕ) : Script (fun _ ↦ ⟨polls, .done⟩) [] :=
  ⟨by simp, by simp, fun _ _ ↦ rfl⟩

/-- A read that is done at once is followed by the next, and so on. -/
theorem pollRead_done (turns reads : ℕ) :
    RecvStream.pollRead (fun _ ↦ ⟨0, .done⟩) 1 turns ⟨.idle [], reads⟩ = none ∧
      RecvStream.pollRead (fun _ ↦ ⟨0, .done⟩) 1 turns ⟨.running (.new []), reads⟩ = none := by
  induction turns generalizing reads with
  | zero => exact ⟨rfl, rfl⟩
  | succ turns ih => exact ⟨(ih reads).2, (ih (reads + 1)).1⟩

/-- An empty stream: where the end is there at once, a call never returns, and where it is pending,
no call ever tells it. -/
theorem pollRead_endless :
    Script (fun _ ↦ ⟨0, .done⟩) [] ∧
    (∀ turns, RecvStream.new.pollRead (fun _ ↦ ⟨0, .done⟩) 1 turns = none) ∧
    Script (fun _ ↦ ⟨1, .done⟩) [] ∧
    ∀ log s, Calls (fun _ ↦ ⟨1, .done⟩) .new log s → (∀ c ∈ log, 1 ≤ c.1) → ∀ c ∈ log,
    c.2 = .pending :=
  ⟨script_done 0, fun turns ↦ (pollRead_done turns 0).1, script_done 1,
    fun _ _ hcalls hlog ↦ ((Holding.idle [] 0).calls_ended (script_done 1) hcalls hlog).2⟩

end Kymux.WebTransportJs
