import Kymux.Lib.MessagePack
import Kymux.Types.Av

namespace Kymux.Auth

open BigEndian MessagePack

structure ConnectionError where
  message : String
deriving DecidableEq

def tokenMaxLen : ℕ := 1024

def utf8 (s : String) : Bytes := s.toByteArray.data.toList

structure TokenSizeInvalid

structure ClientAuth where
  token : String
deriving DecidableEq

namespace ClientAuth

def new (token : String) : Except TokenSizeInvalid ClientAuth :=
  if (utf8 token).length > tokenMaxLen then .error ⟨⟩ else .ok ⟨token⟩

end ClientAuth

/-- What is used of `rmp_serde`: a token is serialized as an array of one string, and read back. -/
structure Serde where
  toVec : ClientAuth → Bytes
  fromSlice : Bytes → Option ClientAuth
  length_toVec : ∀ auth, (toVec auth).length =
    1 + ((strHeader (utf8 auth.token).length).length + (utf8 auth.token).length)
  fromSlice_toVec : ∀ auth, (utf8 auth.token).length ≤ tokenMaxLen →
    fromSlice (toVec auth) = some auth

/-- What `connect_with_auth` writes: the size and the serialized token. -/
def ClientAuth.request (serde : Serde) (auth : ClientAuth) : Except Fault (Bytes × Bytes) := do
  assert ((utf8 auth.token).length ≤ tokenMaxLen) "auth.token().len() <= auth::TOKEN_MAX_LEN"
  let buf := serde.toVec auth
  assert (buf.length < 2 ^ 16) "ClientAuth too big"
  return (encode 2 buf.length, buf)

def checkSize (size : Bytes) : Except ConnectionError ℕ :=
  if decode size > tokenMaxLen then .error ⟨"ClientAuth size too big. Reject it"⟩
  else .ok (decode size)

def deserializeAuth (fromSlice : Bytes → Option ClientAuth) (buf : Bytes) :
    Except ConnectionError ClientAuth :=
  match fromSlice buf with
  | none => .error ⟨"Failed to deserialize ClientAuth"⟩
  | some auth => .ok auth

def readAuth (n : ℕ) (stream : Bytes) (message : String) : Except ConnectionError (Bytes × Bytes) :=
  match readExact n stream with
  | .error _ => .error ⟨message⟩
  | .ok out => .ok out

/-- `accept_with_auth` on all that the client has written. -/
def acceptWithAuth (fromSlice : Bytes → Option ClientAuth) (stream : Bytes) :
    Except ConnectionError ClientAuth := do
  let (size, stream) ← readAuth 2 stream "Failed to read ClientAuth size"
  let len ← checkSize size
  let (buf, _) ← readAuth len stream "Failed to read ClientAuth"
  deserializeAuth fromSlice buf

variable {serde : Serde} {auth : ClientAuth} {token : String}

theorem new_ok (h : ClientAuth.new token = .ok auth) :
    auth.token = token ∧ (utf8 token).length ≤ tokenMaxLen := by
  unfold ClientAuth.new at h
  split_ifs at h with hle
  cases h
  exact ⟨rfl, not_lt.mp hle⟩

/-- The serialized token has at most four bytes more than the token, and exactly four if it
is of `2 ^ 8` bytes or more. -/
theorem length_toVec_le_iff (serde : Serde) (h : (utf8 auth.token).length ≤ tokenMaxLen) :
    (serde.toVec auth).length ≤ tokenMaxLen ↔ (utf8 auth.token).length ≤ tokenMaxLen - 4 := by
  rw [serde.length_toVec, length_strHeader]
  unfold tokenMaxLen at h ⊢
  split_ifs <;> omega

theorem length_toVec_lt (serde : Serde) (h : (utf8 auth.token).length ≤ tokenMaxLen) :
    (serde.toVec auth).length < 2 ^ 16 := by
  rw [serde.length_toVec, length_strHeader]
  unfold tokenMaxLen at h
  split_ifs <;> omega

theorem request_ok (serde : Serde) (h : (utf8 auth.token).length ≤ tokenMaxLen) :
    auth.request serde = .ok (encode 2 (serde.toVec auth).length, serde.toVec auth) := by
  have hlen := length_toVec_lt serde h
  simp only [ClientAuth.request, assert, h, hlen, decide_true, if_true, bind, Except.bind, pure,
    Except.pure]

theorem readAuth_append {n : ℕ} {a : Bytes} (h : a.length = n) (b : Bytes) (message : String) :
    readAuth n (a ++ b) message = .ok (a, b) := by
  rw [readAuth, readExact_append h]

/-- The server bounds the serialized token by what the client bounds the token by. -/
theorem acceptWithAuth_request (fromSlice : Bytes → Option ClientAuth) {buf : Bytes}
    (h : buf.length < 2 ^ 16) :
    acceptWithAuth fromSlice (encode 2 buf.length ++ buf) =
      if buf.length ≤ tokenMaxLen then deserializeAuth fromSlice buf
      else .error ⟨"ClientAuth size too big. Reject it"⟩ := by
  have hsize : decode (encode 2 buf.length) = buf.length :=
    decode_encode_of_lt (h.trans_eq (by norm_num))
  have hbuf := readAuth_append (a := buf) rfl [] "Failed to read ClientAuth"
  rw [List.append_nil] at hbuf
  simp only [acceptWithAuth, readAuth_append (length_encode 2 _), bind, Except.bind, checkSize,
    hsize, gt_iff_lt]
  by_cases hle : buf.length ≤ tokenMaxLen
  · simp only [not_lt.mpr hle, if_false, hbuf, hle, if_true]
  · simp only [not_le.mp hle, if_true, hle, if_false]

/-- A token that a client may construct is accepted, and read back as itself, exactly if it
leaves room for what the serialization adds. -/
theorem token_accepted_iff (serde : Serde) (token : String) (auth : ClientAuth)
    (h : ClientAuth.new token = .ok auth) :
    (∃ size buf accepted, auth.request serde = .ok (size, buf) ∧
      acceptWithAuth serde.fromSlice (size ++ buf) = .ok accepted ∧ accepted.token = token) ↔
      (utf8 token).length ≤ tokenMaxLen - 4 := by
  obtain ⟨rfl, hlen⟩ := new_ok h
  have hfits := length_toVec_le_iff serde hlen
  rw [request_ok serde hlen, ← hfits]
  constructor
  · rintro ⟨size, buf, accepted, hrequest, haccept, -⟩
    cases hrequest
    by_contra hle
    rw [acceptWithAuth_request serde.fromSlice (length_toVec_lt serde hlen), if_neg hle] at haccept
    cases haccept
  · intro hle
    refine ⟨_, _, auth, rfl, ?_, rfl⟩
    rw [acceptWithAuth_request serde.fromSlice (length_toVec_lt serde hlen), if_pos hle,
      deserializeAuth, serde.fromSlice_toVec auth hlen]

def readToken : Bytes → Option ClientAuth
  | [] => none
  | marker :: bytes =>
    if marker = fixarrayOne then
      (readStr bytes).bind (fun r ↦ (String.fromUTF8? ⟨⟨r.1⟩⟩).map ClientAuth.mk)
    else none

theorem readToken_str (h : (utf8 auth.token).length < 2 ^ 32) :
    readToken (fixarrayOne :: str (utf8 auth.token)) = some auth := by
  obtain ⟨⟨bytes, hvalid⟩⟩ := auth
  have hread := readStr_str h []
  rw [List.append_nil] at hread
  have hutf8 : String.fromUTF8? bytes = some ⟨bytes, hvalid⟩ := dif_pos hvalid
  rw [readToken, if_pos rfl, hread, Option.bind_some]
  exact congrArg (Option.map ClientAuth.mk) hutf8

def messagePack : Serde where
  toVec auth := fixarrayOne :: str (utf8 auth.token)
  fromSlice := readToken
  length_toVec auth := by rw [List.length_cons, str, List.length_append, Nat.add_comm]
  fromSlice_toVec auth h := readToken_str (h.trans_lt (by decide))

theorem token_accepted_kymux : ClientAuth.new "kymux" = .ok ⟨"kymux"⟩ ∧
    ∃ size buf accepted, ClientAuth.request messagePack ⟨"kymux"⟩ = .ok (size, buf) ∧
      acceptWithAuth messagePack.fromSlice (size ++ buf) = .ok accepted ∧
        accepted.token = "kymux" := by
  have hnew : ClientAuth.new "kymux" = .ok ⟨"kymux"⟩ := if_neg (by decide)
  exact ⟨hnew, (token_accepted_iff messagePack "kymux" ⟨"kymux"⟩ hnew).mpr (by decide)⟩

theorem length_utf8_replicate (n : ℕ) :
    (utf8 (String.ofList (List.replicate n 'a'))).length = n := by
  change (String.ofList (List.replicate n 'a')).utf8ByteSize = n
  rw [String.utf8ByteSize_ofList]
  induction n with
  | zero => rfl
  | succ n ih => rw [List.replicate_succ, String.utf8Len_cons, ih]; rfl

/-- A token of `1021` bytes is one that a client may construct; its serialization has `1025`
bytes, which the server does not even read. -/
theorem long_token_rejected : ∃ token auth size buf,
    ClientAuth.new token = .ok auth ∧ (utf8 token).length = 1021 ∧
      auth.request messagePack = .ok (size, buf) ∧ ∀ fromSlice,
      acceptWithAuth fromSlice (size ++ buf) =
        .error ⟨"ClientAuth size too big. Reject it"⟩ := by
  have hlen := length_utf8_replicate 1021
  generalize String.ofList (List.replicate 1021 'a') = token at hlen
  have hle : (utf8 token).length ≤ tokenMaxLen := hlen.trans_le (by decide)
  have hvec : ¬ (messagePack.toVec ⟨token⟩).length ≤ tokenMaxLen := by
    rw [length_toVec_le_iff messagePack hle, hlen]
    decide
  refine ⟨token, ⟨token⟩, _, _, if_neg (not_lt.mpr hle), hlen, request_ok messagePack hle,
    fun fromSlice ↦ ?_⟩
  rw [acceptWithAuth_request fromSlice (length_toVec_lt messagePack hle), if_neg hvec]

end Kymux.Auth
