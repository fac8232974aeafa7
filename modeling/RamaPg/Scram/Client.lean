import RamaPg.Scram.Server

/-!
# The SCRAM client

The model of `scram/client.rs`: the exchange the proxy runs with a backend, with keys derived from
a password or with keys recovered from a client. The `AuthenticationSASL` message is read by the
caller of `runScram`.
-/

namespace RamaPg.Scram

open RamaPg.Lib RamaPg.Codec RamaPg.Proxy

/-- `sasl_initial_response`. -/
def saslInitialResponse (mech clientFirst : Bytes) : Bytes :=
  frame Tag.passwordMessage (mech ++ 0 :: (i32ToBe clientFirst.length ++ clientFirst))

/-- `sasl_response`. -/
def saslResponse (clientFinal : Bytes) : Bytes := frame Tag.passwordMessage clientFinal

/-- `expect_auth`. -/
def expectAuth (m : RawMessage) (subtype : Int) (what : String) : Except BoxError Unit :=
  if m.tag = Tag.authentication then
    if subtypeOf m.payload = some subtype then .ok ()
    else .error (.text s!"backend: expected {what} (auth sub-type {subtype})")
  else .error (.text s!"backend: expected {what}, got tag {charDebug m.tag}")

/-- The loop of `parse_mechanisms`; each round consumes a byte. A name that is not UTF-8 is
skipped. -/
def parseMechanismsLoop : Nat → Bytes → List Bytes
  | 0, _ => []
  | n + 1, data =>
    match splitOnce 0 data with
    | none => []
    | some ([], _) => []
    | some (name, rest) =>
      if isUtf8 name then name :: parseMechanismsLoop n rest else parseMechanismsLoop n rest

/-- `parse_mechanisms`. -/
def parseMechanisms (data : Bytes) : List Bytes := parseMechanismsLoop data.length data

/-- The `Option` as a `Result` with this error. -/
def okOr {α : Type} (e : BoxError) : Option α → Except BoxError α
  | some a => .ok a
  | none => .error e

/-- The server-first message as the client takes it. -/
structure Challenge where
  text : Bytes
  nonce : Bytes
  salt : Bytes
  iterations : UInt32
  deriving DecidableEq

section

variable (b64 : Base64) (sha256 : Bytes → Key)

/-- Step 3 of `run_scram`: read the server-first message. -/
def parseChallenge (clientNonce : Bytes) (cont : RawMessage) : Except BoxError Challenge := do
  expectAuth cont Auth.saslContinue "AuthenticationSASLContinue"
  let text := cont.payload.drop 4
  if isUtf8 text then
    let nonce ← okOr (.text "backend server-first missing r=") (fieldOf (ascii "r=") text)
    if clientNonce.isPrefixOf nonce then
      let saltText ← okOr (.text "backend server-first missing s=") (fieldOf (ascii "s=") text)
      let salt ← okOr .base64 (b64.decode saltText)
      let count ← okOr (.text "backend server-first missing i=") (fieldOf (ascii "i=") text)
      let iterations ← okOr (.text "backend server-first has a non-numeric i=") (parseU32 count)
      return ⟨text, nonce, salt, iterations⟩
    else .error (.text "backend server nonce does not extend client nonce")
  else .error .utf8

/-- Step 5 of `run_scram`: verify the server's signature. -/
def checkServerFinal (keys : ScramKeys) (message : Bytes) (final : RawMessage) :
    Except BoxError Unit := do
  expectAuth final Auth.saslFinal "AuthenticationSASLFinal"
  let text := final.payload.drop 4
  if isUtf8 text then
    let signatureText ← okOr (.text "backend SASLFinal missing v=") (fieldOf (ascii "v=") text)
    let signature ← okOr .base64 (b64.decode signatureText)
    if signature = (hmacSha256 sha256 keys.serverKey.toList message).toList then .ok ()
    else .error (.text "backend server signature verification failed")
  else .error .utf8

/-- The client-first message without its GS2 header. -/
def clientFirstBare (clientNonce : Bytes) : Bytes := ascii "n=,r=" ++ clientNonce

/-- The client-final message without its proof. -/
def clientFinalWithoutProof (nonce : Bytes) : Bytes :=
  ascii "c=" ++ b64.encode (ascii "n,,") ++ ascii ",r=" ++ nonce

/-- The client-final message that proves `keys` for an `AuthMessage`. -/
def clientFinal (keys : ScramKeys) (nonce message : Bytes) : Bytes :=
  let proof := clientProof keys.clientKey (hmacSha256 sha256 keys.storedKey.toList message)
  clientFinalWithoutProof b64 nonce ++ ascii ",p=" ++ b64.encode proof.toList

/-- `run_scram` with the client's nonce. -/
def runScram (sasl : RawMessage) (derive : Bytes → UInt32 → ScramKeys)
    (draw : Vector UInt8 18) : Io Unit := do
  Prog.lift (expectAuth sasl Auth.sasl "AuthenticationSASL")
  let mechanisms := parseMechanisms (sasl.payload.drop 4)
  if mechanism ∈ mechanisms then
    let clientNonce := randomNonce b64 draw
    ioWrite (saslInitialResponse mechanism (ascii "n,," ++ clientFirstBare clientNonce))
    let cont ← ioRead
    let challenge ← Prog.lift (parseChallenge b64 clientNonce cont)
    let keys := derive challenge.salt challenge.iterations
    let message := authMessage (clientFirstBare clientNonce) challenge.text
      (clientFinalWithoutProof b64 challenge.nonce)
    ioWrite (saslResponse (clientFinal b64 sha256 keys challenge.nonce message))
    let final ← ioRead
    Prog.lift (checkServerFinal b64 sha256 keys message final)
  else Prog.lift (.error (.notOffered mechanisms))

/-- `reauth_upstream`. -/
def reauthUpstream (keys : ScramKeys) (draw : Vector UInt8 18) : Io Unit := do
  let sasl ← ioRead
  runScram b64 sha256 sasl (fun _ _ => keys) draw

/-- `authenticate_password`. -/
def authenticatePassword (sasl : RawMessage) (password : Bytes) (draw : Vector UInt8 18) :
    Io Unit :=
  runScram b64 sha256 sasl (ScramKeys.fromPassword sha256 password) draw

/-- `authenticate_password` with the read its caller makes before it. -/
def passwordLogin (password : Bytes) (draw : Vector UInt8 18) : Io Unit := do
  let sasl ← ioRead
  authenticatePassword b64 sha256 sasl password draw

end

end RamaPg.Scram
