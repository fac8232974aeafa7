import RamaPg.Scram.Secret
import RamaPg.Proxy.Auth

/-!
# The SCRAM server

The model of `scram/mod.rs`: the three parsers and `ScramSha256::authenticate`. The answer of the
store and what the server draws at random are parameters. `checkInitial` and `checkFinal` are the
code between a read and the next write; they end with an error, with a refusal that is first shown
to the client, or with what the exchange goes on with.
-/

namespace RamaPg.Scram

open RamaPg.Lib RamaPg.Codec RamaPg.Startup RamaPg.Proxy

def mechanism : Bytes := ascii "SCRAM-SHA-256"

def mechanismPlus : Bytes := ascii "SCRAM-SHA-256-PLUS"

def cbType : Bytes := ascii "tls-server-end-point"

def defaultIterations : UInt32 := 4096

/-! ## Parsers -/

inductive CbindFlag where
  | p
  | y
  | n
  deriving DecidableEq, Repr

structure ClientFirst where
  gs2Header : Bytes
  bare : Bytes
  clientNonce : Bytes
  cbindFlag : CbindFlag
  cbindName : Option Bytes
  deriving DecidableEq

structure ClientFinal where
  channelBinding : Bytes
  nonce : Bytes
  proof : Bytes
  withoutProof : Bytes
  deriving DecidableEq

/-- `parse_sasl_initial`: the mechanism and the initial response; the length is not used. -/
def parseSaslInitial (payload : Bytes) : Except BoxError (Bytes × Bytes) :=
  match splitOnce 0 payload with
  | none => .error (.text "scram: missing mechanism terminator")
  | some (mech, rest) =>
    if isUtf8 mech then
      match rest with
      | _ :: _ :: _ :: _ :: data => .ok (mech, data)
      | _ => .error (.text "scram: truncated SASLInitialResponse")
    else .error .utf8

def parseCbindFlag (flag : Bytes) : Except BoxError (CbindFlag × Option Bytes) :=
  match stripPrefix (ascii "p=") flag with
  | some name => .ok (.p, some name)
  | none =>
    if flag = ascii "y" then .ok (.y, none)
    else if flag = ascii "n" then .ok (.n, none)
    else .error (.text "scram: malformed gs2 channel-binding flag")

/-- `parse_client_first`. -/
def parseClientFirst (data : Bytes) : Except BoxError ClientFirst :=
  if isUtf8 data then
    match splitOnce 44 data with
    | none => .error (.text "scram: malformed client-first (gs2 header)")
    | some (flag, afterFlag) =>
      match parseCbindFlag flag with
      | .error e => .error e
      | .ok (cbindFlag, cbindName) =>
        match splitOnce 44 afterFlag with
        | none => .error (.text "scram: malformed client-first (gs2 header)")
        | some (authzid, bare) =>
          match fieldOf (ascii "r=") bare with
          | none => .error (.text "scram: missing client nonce")
          | some nonce => .ok ⟨flag ++ 44 :: (authzid ++ [44]), bare, nonce, cbindFlag, cbindName⟩
  else .error .utf8

/-- One round of the field loop of `parse_client_final`: a later field overwrites an earlier one,
and a `c=` field is no `r=` field. -/
def scanField (acc : Option Bytes × Option Bytes) (field : Bytes) : Option Bytes × Option Bytes :=
  match stripPrefix (ascii "c=") field with
  | some v => (some v, acc.2)
  | none =>
    match stripPrefix (ascii "r=") field with
    | some v => (acc.1, some v)
    | none => acc

/-- `parse_client_final` after the UTF-8 check of its caller. -/
def parseClientFinal (s : Bytes) : Except BoxError ClientFinal :=
  match rsplitOnce (ascii ",p=") s with
  | none => .error (.text "scram: missing client proof")
  | some (withoutProof, proof) =>
    match (withoutProof.splitOn 44).foldl scanField (none, none) with
    | (none, _) => .error (.text "scram: missing channel binding")
    | (some _, none) => .error (.text "scram: missing nonce in client-final")
    | (some channelBinding, some nonce) => .ok ⟨channelBinding, nonce, proof, withoutProof⟩

/-! ## The exchange -/

/-- How a check fails: with a bare error, or with a refusal the client is told of. -/
inductive Refusal where
  | fail (e : BoxError)
  | deny (detail : BoxError)
  deriving DecidableEq

def orFail {α : Type} : Except BoxError α → Except Refusal α
  | .ok a => .ok a
  | .error e => .error (.fail e)

def denied {α : Type} (detail : String) : Except Refusal α := .error (.deny (.text detail))

structure ScramSha256 where
  store : ScramSecretStore
  channelBinding : Option Bytes

/-- What the server draws: the mock verifier and its nonce. -/
structure Draws where
  salt : Vector UInt8 16
  storedKey : Key
  serverKey : Key
  nonce : Vector UInt8 18

def mockSecret (d : Draws) : ScramSecret :=
  ⟨defaultIterations, d.salt.toList, d.storedKey, d.serverKey⟩

def expectSasl (m : RawMessage) : Except Refusal Unit :=
  if m.tag = Tag.passwordMessage then .ok ()
  else .error (.fail (.text s!"scram: expected SASL response, got tag {charDebug m.tag}"))

/-- Whether `-PLUS` was chosen. -/
def chosenPlus (plusOffered : Bool) (mech : Bytes) : Except Refusal Bool :=
  if mech = mechanism then .ok false
  else if mech = mechanismPlus ∧ plusOffered then .ok true
  else .error (.deny (.unsupportedMechanism mech))

/-- The `c=` input the client has to echo, from its GS2 flag and the mechanism. -/
def expectedChannelBinding (channelBinding : Option Bytes) (plus : Bool) (first : ClientFirst) :
    Except Refusal Bytes :=
  match first.cbindFlag, plus with
  | .p, true =>
    if first.cbindName = some cbType then .ok (first.gs2Header ++ channelBinding.getD [])
    else denied "scram: unsupported channel-binding type"
  | .p, false => denied "scram: channel binding on a non-PLUS mechanism"
  | .y, plus =>
    if channelBinding.isSome then denied "scram: channel-binding downgrade detected"
    else if plus then denied "scram: -PLUS selected without channel binding"
    else .ok first.gs2Header
  | .n, false => .ok first.gs2Header
  | .n, true => denied "scram: -PLUS selected without channel binding"

/-- From the first read to the second write: the client-first message and the expected `c=`. -/
def checkInitial (channelBinding : Option Bytes) (initial : RawMessage) :
    Except Refusal (ClientFirst × Bytes) := do
  expectSasl initial
  let (mech, data) ← orFail (parseSaslInitial initial.payload)
  let plus ← chosenPlus channelBinding.isSome mech
  let first ← orFail (parseClientFirst data)
  let expected ← expectedChannelBinding channelBinding plus first
  return (first, expected)

section

variable (b64 : Base64) (sha256 : Bytes → Key)

/-- The server-first message: the full nonce and the verifier's salt and iteration count. -/
def serverFirst (fullNonce : Bytes) (secret : ScramSecret) : Bytes :=
  ascii "r=" ++ fullNonce ++ ascii ",s=" ++ b64.encode secret.salt ++ ascii ",i=" ++
    decimal secret.iterations.toNat

def decode64 (text : Bytes) : Except Refusal Bytes :=
  match b64.decode text with
  | some bs => .ok bs
  | none => .error (.fail .base64)

/-- `{bare},{server_first},{without_proof}`. -/
def authMessage (bare serverFirst withoutProof : Bytes) : Bytes :=
  bare ++ 44 :: (serverFirst ++ 44 :: withoutProof)

/-- The client key a proof of 32 bytes gives. -/
def checkProof (known : Bool) (secret : ScramSecret) (authMessage proof : Bytes) :
    Except Refusal Key :=
  match toKey proof with
  | none => denied "scram: malformed client proof"
  | some proof =>
    let clientKey := recoverClientKey proof (hmacSha256 sha256 secret.storedKey.toList authMessage)
    if known ∧ sha256 clientKey.toList = secret.storedKey then .ok clientKey
    else denied "scram: client proof verification failed"

/-- From the second read to the last write: the client key and the `AuthMessage`. -/
def checkFinal (known : Bool) (secret : ScramSecret) (first : ClientFirst) (expected : Bytes)
    (fullNonce serverFirst : Bytes) (response : RawMessage) : Except Refusal (Key × Bytes) := do
  expectSasl response
  if isUtf8 response.payload then
    let final ← orFail (parseClientFinal response.payload)
    if final.nonce = fullNonce then
      let channelBinding ← decode64 b64 final.channelBinding
      if channelBinding = expected then
        let message := authMessage first.bare serverFirst final.withoutProof
        let proof ← decode64 b64 final.proof
        let clientKey ← checkProof sha256 known secret message proof
        return (clientKey, message)
      else denied "scram: channel binding mismatch"
    else denied "scram: client nonce mismatch"
  else .error (.fail .utf8)

/-- `deny`: a generic failure to the client, the detail to the caller. -/
def deny {α : Type} (detail : BoxError) : Io α := do
  ioWrite authFailed
  Prog.lift (.error detail)

def checked {α : Type} : Except Refusal α → Io α
  | .ok a => pure a
  | .error (.fail e) => Prog.lift (.error e)
  | .error (.deny detail) => deny detail

theorem checked_ok_bind {α β : Type} (a : α) (f : α → Io β) : (checked (.ok a) >>= f) = f a := rfl

def offered (channelBinding : Option Bytes) : List Bytes :=
  if channelBinding.isSome then [mechanismPlus, mechanism] else [mechanism]

namespace ScramSha256

def lookup (ctx : AuthContext) : SecretLookup := ⟨ctx.user, ctx.startup.database, ctx.sni⟩

/-- `authenticate` once the verifier is resolved. -/
def exchange (auth : ScramSha256) (known : Bool) (secret : ScramSecret) (serverNonce : Bytes) :
    Io ClientAuth := do
  ioWrite (Message.authenticationSasl (offered auth.channelBinding))
  let initial ← ioReadCapped maxAuthMessageLen
  let (first, expected) ← checked (checkInitial auth.channelBinding initial)
  let fullNonce := first.clientNonce ++ serverNonce
  let challenge := serverFirst b64 fullNonce secret
  ioWrite (Message.authenticationSaslContinue challenge)
  let response ← ioReadCapped maxAuthMessageLen
  let (clientKey, message) ←
    checked (checkFinal b64 sha256 known secret first expected fullNonce challenge response)
  let serverSignature := hmacSha256 sha256 secret.serverKey.toList message
  ioWrite (Message.authenticationSaslFinal (ascii "v=" ++ b64.encode serverSignature.toList))
  return .terminated (.scram ⟨clientKey, secret.storedKey, secret.serverKey⟩)

/-- `ScramSha256::authenticate`. An unknown user gets the mock verifier. -/
def authenticate (auth : ScramSha256) (ctx : AuthContext) (draws : Draws) : Io ClientAuth := do
  let answer ← Prog.lift (auth.store (lookup ctx))
  exchange b64 sha256 auth answer.isSome (answer.getD (mockSecret draws))
    (randomNonce b64 draws.nonce)

end ScramSha256

end

end RamaPg.Scram
