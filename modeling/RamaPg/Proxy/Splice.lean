import RamaPg.Proxy.Direct

/-!
# The startup relay on byte streams

The model of `relay_startup` on the two streams themselves. A pair of lists of chunk bounds is the
reads of one round of its loop, from the backend and from the client; when they run out the relay is
still waiting. `relayTurn` is the loop's `match` on a message, shared with the model on messages.
-/

namespace RamaPg.Proxy

open RamaPg.Lib RamaPg.Codec RamaPg.Startup

/-- What the relay does with a message of the backend. -/
inductive Turn where
  /-- Write this to the client and go on. -/
  | pass (bs : Bytes)
  /-- Write this to the client and forward one message of it. -/
  | challenge (bs : Bytes)
  /-- Record the backend's key, write this to the client and go on. -/
  | capture (key : CancelKey) (bs : Bytes)
  /-- Write this to the client and return. -/
  | finish (bs : Bytes) (r : Except BoxError Unit)
  | refuse (e : BoxError)

/-- The arms of `relay_startup`. -/
def relayTurn (clientKey : Option CancelKey) (interactiveAuth : Bool) (m : RawMessage) : Turn :=
  if m.tag = Tag.authentication then
    match subtypeOf m.payload with
    | none => .refuse (.text "authentication message shorter than 4 bytes")
    | some subtype =>
      if subtype = Auth.ok then .pass m.asBytes
      else if interactiveAuth then
        if subtype = Auth.saslFinal then .pass m.asBytes else .challenge m.asBytes
      else .refuse (.text (s!"backend requested authentication type {subtype}; " ++
        "proxy-to-backend auth is not supported in terminate mode"))
  else if m.tag = Tag.backendKeyData then
    match clientKey with
    | some key => .capture ⟨m.payload⟩ (Message.backendKeyDataRaw key.bytes)
    | none => .pass m.asBytes
  else if m.tag = Tag.readyForQuery then .finish m.asBytes (.ok ())
  else if m.tag = Tag.errorResponse then .finish m.asBytes (.error (.text "backend rejected startup"))
  else .pass m.asBytes

/-- What is unread of the two streams, what was written to them, and the key of the cancel target
on the handle. -/
structure Streams where
  backend : Bytes
  client : Bytes
  toBackend : Bytes
  toClient : Bytes
  target : Option CancelKey
  deriving DecidableEq

namespace Streams

def sendClient (bs : Bytes) (s : Streams) : Streams := { s with toClient := s.toClient ++ bs }

def sendBackend (bs : Bytes) (s : Streams) : Streams := { s with toBackend := s.toBackend ++ bs }

/-- `relay_startup`. -/
def relayStartup (clientKey : Option CancelKey) (interactiveAuth : Bool) :
    List (List Nat × List Nat) → Streams → Option (Except BoxError Unit) × Streams
  | [], s => (none, s)
  | (backendReads, clientReads) :: reads, s =>
    match readMessage s.backend backendReads with
    | (.pending, rest) => (none, { s with backend := rest })
    | (.done (.error e), rest) => (some (.error (.io e)), { s with backend := rest })
    | (.done (.ok m), rest) =>
      match relayTurn clientKey interactiveAuth m with
      | .pass bs => relayStartup clientKey interactiveAuth reads
          ({ s with backend := rest }.sendClient bs)
      | .capture key bs => relayStartup clientKey interactiveAuth reads
          ({ s with backend := rest, target := some key }.sendClient bs)
      | .finish bs r => (some r, { s with backend := rest }.sendClient bs)
      | .refuse e => (some (.error e), { s with backend := rest })
      | .challenge bs =>
        match readMessage s.client clientReads with
        | (.pending, left) => (none, { s with backend := rest, client := left }.sendClient bs)
        | (.done (.error e), left) =>
          (some (.error (.io e)), { s with backend := rest, client := left }.sendClient bs)
        | (.done (.ok c), left) => relayStartup clientKey interactiveAuth reads
            (({ s with backend := rest, client := left }.sendClient bs).sendBackend c.asBytes)

end Streams

/-- The model on messages takes the same turns. -/
theorem relayStartup_turn (clientKey : Option CancelKey) (interactive : Bool) (m : RawMessage)
    (ms cs : List RawMessage) :
    relayStartup clientKey interactive (m :: ms) cs =
      match relayTurn clientKey interactive m, cs with
      | .pass bs, cs => (relayStartup clientKey interactive ms cs).sendClient bs
      | .challenge bs, [] => (Relayed.stop none ms []).sendClient bs
      | .challenge bs, c :: cs =>
        ((relayStartup clientKey interactive ms cs).sendBackend c.asBytes).sendClient bs
      | .capture key bs, cs =>
        ((relayStartup clientKey interactive ms cs).record key).sendClient bs
      | .finish bs r, cs => (Relayed.stop (some r) ms cs).sendClient bs
      | .refuse e, cs => .stop (some (.error e)) ms cs := by
  rw [relayStartup.eq_def]
  unfold relayTurn
  simp only
  by_cases ha : m.tag = Tag.authentication
  · rw [if_pos ha, if_pos ha]
    cases subtypeOf m.payload with
    | none => rfl
    | some subtype =>
      by_cases hok : subtype = Auth.ok
      · simp only [if_pos hok]
      simp only [if_neg hok]
      cases interactive with
      | false => simp only [Bool.false_eq_true, ↓reduceIte]
      | true =>
        by_cases hf : subtype = Auth.saslFinal
        · simp only [if_pos hf, ↓reduceIte]
        · cases cs <;> simp only [if_neg hf, ↓reduceIte]
  by_cases hk : m.tag = Tag.backendKeyData
  · rw [if_neg ha, if_neg ha, if_pos hk, if_pos hk]
    cases clientKey <;> rfl
  by_cases hr : m.tag = Tag.readyForQuery
  · simp only [if_neg ha, if_neg hk, if_pos hr]
  by_cases he : m.tag = Tag.errorResponse
  · simp only [if_neg ha, if_neg hk, if_neg hr, if_pos he]
  · simp only [if_neg ha, if_neg hk, if_neg hr, if_neg he]

end RamaPg.Proxy
