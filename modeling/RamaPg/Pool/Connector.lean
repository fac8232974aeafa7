import RamaPg.Scram.Client

/-!
# Establishing a pooled backend

The model of `PgConnector::serve` on the messages the backend sends: replay the startup frame, answer
its authentication requests until `AuthenticationOk`, then collect `ParameterStatus` frames and the
cancel key up to `ReadyForQuery`. A run that is waiting for a message has no result.
-/

namespace RamaPg.Pool

open RamaPg.Lib RamaPg.Codec RamaPg.Startup RamaPg.Scram

structure BackendRequest where
  startup : Bytes
  user : Bytes
  database : Bytes

/-- `BackendCredentials::password`. -/
abbrev BackendCredentials := Bytes → Bytes → Except BoxError (Option Bytes)

/-- `backend_password`: a challenge without configured credentials is an error. -/
def backendPassword (credentials : BackendCredentials) (req : BackendRequest) :
    Except BoxError Bytes :=
  match credentials req.user req.database with
  | .error e => .error e
  | .ok (some password) => .ok password
  | .ok none => .error (.noCredentials req.user)

/-- `auth_subtype`: `-1` for a truncated message. -/
def authSubtype (m : RawMessage) : Int := (subtypeOf m.payload).getD (-1)

/-- What a phase of the connector wrote and how it ended. -/
structure Connecting (α : Type) where
  toBackend : List Bytes
  result : Option (Except BoxError α)

def Connecting.stop {α : Type} (result : Option (Except BoxError α)) : Connecting α := ⟨[], result⟩

/-- The phase that begins with these writes. -/
def Connecting.after {α : Type} (writes : List Bytes) (c : Connecting α) : Connecting α :=
  { c with toBackend := writes ++ c.toBackend }

section

variable (b64 : Base64) (sha256 : Bytes → Key)

/-- The authentication loop; the `k`-th SASL exchange draws its nonce from `draw k`. It returns the
messages left after `AuthenticationOk`. -/
def authPhase (password : Except BoxError Bytes) (draw : Nat → Vector UInt8 18) (k : Nat) :
    List RawMessage → Connecting (List RawMessage)
  | [] => .stop none
  | m :: ms =>
    if m.tag = Tag.authentication then
      if authSubtype m = Auth.ok then .stop (some (.ok ms))
      else if authSubtype m = Auth.cleartextPassword then
        match password with
        | .error e => .stop (some (.error e))
        | .ok password =>
          (authPhase (.ok password) draw k ms).after
            [frame Tag.passwordMessage (password ++ [0])]
      else if authSubtype m = Auth.sasl then
        match password with
        | .error e => .stop (some (.error e))
        | .ok password =>
          match h : (authenticatePassword b64 sha256 m password (draw k)).feed ms with
          | (es, some (.ok _), rest) =>
            (authPhase (.ok password) draw (k + 1) rest).after (es.filterMap Event.written)
          | (es, some (.error e), _) =>
            (Connecting.stop (some (.error e))).after (es.filterMap Event.written)
          | (es, none, _) => (Connecting.stop none).after (es.filterMap Event.written)
      else if authSubtype m = Auth.md5Password then
        .stop (some (.error (.text ("pool backend requested md5 auth; only trust, " ++
          "cleartext, and scram-sha-256 are supported"))))
      else .stop (some (.error (.text
        s!"pool backend requested unsupported authentication type {authSubtype m}")))
    else if m.tag = Tag.errorResponse then
      .stop (some (.error (.text "pool backend rejected authentication")))
    else .stop (some (.error (.text
      s!"unexpected backend message during auth: tag {charDebug m.tag}")))
  termination_by ms => ms.length
  decreasing_by
    · simp
    · have hs := Prog.feed_suffix (authenticatePassword b64 sha256 m password (draw k)) ms
      rw [h] at hs
      exact Nat.lt_succ_of_le hs.length_le

/-- What is left after `AuthenticationOk` is the end of what the backend sent. -/
theorem authPhase_suffix (password : Except BoxError Bytes) (draw : Nat → Vector UInt8 18) (k : Nat)
    (ms rest : List RawMessage)
    (h : (authPhase b64 sha256 password draw k ms).result = some (.ok rest)) : rest <:+ ms := by
  fun_induction authPhase b64 sha256 password draw k ms with
  | case2 => cases h; exact List.suffix_cons _ _
  | case4 k m ms _ _ _ password ih => exact (ih h).trans (List.suffix_cons m ms)
  | case6 k m ms _ _ _ _ password es u left hf ih =>
    have hs := Prog.feed_suffix (authenticatePassword b64 sha256 m password (draw k)) ms
    rw [hf] at hs
    exact ((ih h).trans hs).trans (List.suffix_cons m ms)
  | _ => cases h

end

/-- A connection ready for use: the captured frames, the cancel key and the messages left. -/
structure Established where
  params : List Bytes
  cancelKey : Option CancelKey
  rest : List RawMessage

/-- The post-authentication loop. -/
def postAuth : List RawMessage → Option (Except BoxError Established)
  | [] => none
  | m :: ms =>
    if m.tag = Tag.parameterStatus then
      (postAuth ms).map fun r => r.map fun e => { e with params := m.asBytes :: e.params }
    else if m.tag = Tag.backendKeyData then
      (postAuth ms).map fun r => r.map fun e =>
        { e with cancelKey := e.cancelKey.or (some ⟨m.payload⟩) }
    else if m.tag = Tag.readyForQuery then some (.ok ⟨[], none, ms⟩)
    else if m.tag = Tag.errorResponse then
      some (.error (.text "pool backend rejected startup"))
    else postAuth ms

/-- `PgConnector::serve` once the transport is established. -/
def PgConnector.serve (b64 : Base64) (sha256 : Bytes → Key) (credentials : BackendCredentials)
    (draw : Nat → Vector UInt8 18) (req : BackendRequest) (backend : List RawMessage) :
    Connecting Established :=
  let auth := authPhase b64 sha256 (backendPassword credentials req) draw 0 backend
  let result := match auth.result with
    | none => none
    | some (.error e) => some (.error e)
    | some (.ok rest) => postAuth rest
  ⟨req.startup :: auth.toBackend, result⟩

/-- The captured frames are `ParameterStatus` messages; what is left is the end of what the backend
sent. -/
theorem postAuth_ok : ∀ {ms : List RawMessage} {e : Established}, postAuth ms = some (.ok e) →
    (∀ bs ∈ e.params, ∃ m : RawMessage, m.tag = Tag.parameterStatus ∧ bs = m.asBytes) ∧
      e.rest <:+ ms := by
  intro ms
  induction ms with
  | nil => intro e h; cases h
  | cons m ms ih =>
    intro e h
    have hmap : ∀ {f : Established → Established},
        ((postAuth ms).map fun r => r.map f) = some (.ok e) →
          ∃ e', postAuth ms = some (.ok e') ∧ e = f e' := by
      intro f hf
      obtain ⟨r, hr, hm⟩ := Option.map_eq_some_iff.mp hf
      cases r with
      | error x => cases hm
      | ok e' => cases hm; exact ⟨e', hr, rfl⟩
    rw [postAuth] at h
    split at h
    · rename_i ht
      obtain ⟨e', hr, rfl⟩ := hmap h
      obtain ⟨hp, hrest⟩ := ih hr
      refine ⟨fun bs hbs => ?_, hrest.trans (List.suffix_cons m ms)⟩
      rcases List.mem_cons.mp hbs with rfl | hbs
      · exact ⟨m, ht, rfl⟩
      · exact hp bs hbs
    · split at h
      · obtain ⟨e', hr, rfl⟩ := hmap h
        obtain ⟨hp, hrest⟩ := ih hr
        exact ⟨hp, hrest.trans (List.suffix_cons m ms)⟩
      · split at h
        · cases h
          exact ⟨nofun, List.suffix_cons m ms⟩
        · split at h
          · cases h
          · obtain ⟨hp, hrest⟩ := ih h
            exact ⟨hp, hrest.trans (List.suffix_cons m ms)⟩

/-- A connection that is established: the same of the whole start-up. -/
theorem PgConnector.serve_ok {b64 : Base64} {sha256 : Bytes → Key} {credentials : BackendCredentials}
    {draw : Nat → Vector UInt8 18} {req : BackendRequest} {ms : List RawMessage} {e : Established}
    (h : (PgConnector.serve b64 sha256 credentials draw req ms).result = some (.ok e)) :
    (∀ bs ∈ e.params, ∃ m : RawMessage, m.tag = Tag.parameterStatus ∧ bs = m.asBytes) ∧
      e.rest <:+ ms := by
  simp only [PgConnector.serve] at h
  split at h
  · cases h
  · cases h
  · rename_i rest hr
    obtain ⟨hp, hrest⟩ := postAuth_ok h
    exact ⟨hp, hrest.trans (authPhase_suffix b64 sha256 _ draw 0 ms rest hr)⟩

end RamaPg.Pool
