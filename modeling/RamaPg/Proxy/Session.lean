import RamaPg.Proxy.Auth

/-!
# The client session

The model of `PgSession::serve` up to the forwarder: parse the startup frame, negotiate when the
proxy terminates authentication, authenticate. A cancel request and a refused frame end the session
without a client to forward.
-/

namespace RamaPg.Proxy

open RamaPg.Lib RamaPg.Codec RamaPg.Startup

/-- The forwarder's input. -/
structure PgClient where
  startup : StartupMessage
  protocolVersion : ProtocolVersion
  sni : Option Bytes
  auth : ClientAuth

/-- An authentication mechanism: its program, and whether the proxy terminates authentication. -/
structure Authenticator where
  authenticate : AuthContext → Io ClientAuth
  terminates : Bool

/-- `reject`: a fatal error, and the session ends without one. -/
def reject (code message : Bytes) : Io (Option PgClient) := do
  ioWrite (Message.fatalError code message)
  return none

/-- The client is told of a lower minor version or of `_pq_.` options. -/
def mustNegotiate (m : StartupMessage) : Bool :=
  m.negotiatedVersion ≠ m.protocolVersion || !m.pqOptions.isEmpty

/-- The negotiation of a terminating session. -/
def negotiate (terminates : Bool) (m : StartupMessage) : Io Unit :=
  if terminates && mustNegotiate m then
    ioWrite (Message.negotiateProtocolVersion m.negotiatedVersion m.pqOptions)
  else pure ()

/-- `PgSession::serve` on the startup frame it read. -/
def PgSession.serve (auth : Authenticator) (sni : Option Bytes) (frame : Bytes) :
    Io (Option PgClient) :=
  match StartupRequest.parse frame with
  | .error e => Prog.lift (.error (.io e))
  | .ok (.cancel _) => pure none
  | .ok .ssl | .ok .gssEnc =>
    reject (ascii "08P01") (ascii "unexpected message after TLS handshake")
  | .ok (.startup m) =>
    if m.protocolMajor ≠ 3 then
      reject (ascii "0A000") (ascii "rama-pg: unsupported protocol major version")
    else do
      negotiate auth.terminates m
      let outcome ← auth.authenticate ⟨m, sni⟩
      return some ⟨m, m.negotiatedVersion, sni, outcome⟩

/-- `synthesize_startup`. -/
def synthesizeStartup (params : List Bytes) (cancelKey : Bytes) : List Bytes :=
  Message.authenticationOk :: params ++
    [Message.backendKeyDataRaw cancelKey, Message.readyForQuery 73]

/-- What a client that is forwarded was told before: the negotiation, then the authenticator's
messages. -/
theorem PgSession.serve_some {auth : Authenticator} {sni : Option Bytes} {frame : Bytes}
    {es : List (Event Int RawMessage)} {client : PgClient}
    (h : Runs (PgSession.serve auth sni frame) es (some (.ok (some client)))) :
    StartupRequest.parse frame = .ok (.startup client.startup) ∧ client.startup.protocolMajor = 3 ∧
    ∃ es₁ es₂, es = es₁ ++ es₂ ∧ Runs (negotiate auth.terminates client.startup) es₁ (some (.ok ())) ∧
      Runs (auth.authenticate ⟨client.startup, sni⟩) es₂ (some (.ok client.auth)) := by
  have hnone : ∀ {code msg : Bytes}, ¬ Runs (reject code msg) es (some (.ok (some client))) := by
    intro code msg hr
    rcases Runs.write_inv hr with ⟨hu, -⟩ | ⟨es', -, hr⟩
    · exact hu _ rfl
    · obtain ⟨-, hr | hr⟩ := Runs.done_inv hr <;> cases hr
  unfold PgSession.serve at h
  split at h
  · obtain ⟨-, h | h⟩ := Runs.done_inv h <;> cases h
  · obtain ⟨-, h | h⟩ := Runs.done_inv h <;> cases h
  · exact (hnone h).elim
  · exact (hnone h).elim
  · rename_i m hm
    split at h
    · exact (hnone h).elim
    · rename_i hmajor
      obtain ⟨es₁, es', _, rfl, h₁, h⟩ := Runs.bind_ok h
      obtain ⟨es₂, es₃, outcome, rfl, h₂, h⟩ := Runs.bind_ok h
      obtain ⟨rfl, h | h⟩ := Runs.done_inv h
      · cases h
      · cases h
        exact ⟨hm, not_not.mp hmajor, es₁, es₂, by simp, h₁, h₂⟩

end RamaPg.Proxy
