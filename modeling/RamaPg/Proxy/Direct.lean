import RamaPg.Proxy.Session
import RamaPg.Scram.Client

/-!
# Direct forwarding

The model of `relay_startup` and of the start of a direct session: replay the startup frame, satisfy
the backend's authentication, and relay the backend's startup to the client. The two streams are
the lists of messages that come from them; a run that is waiting for a message has no result.
-/

namespace RamaPg.Proxy

open RamaPg.Lib RamaPg.Codec RamaPg.Startup RamaPg.Scram

/-- A relay so far: what it wrote, the backend key it recorded, its result and what is unread. -/
structure Relayed where
  toClient : List Bytes
  toBackend : List Bytes
  recorded : Option CancelKey
  result : Option (Except BoxError Unit)
  backend : List RawMessage
  client : List RawMessage

namespace Relayed

def stop (result : Option (Except BoxError Unit)) (backend client : List RawMessage) : Relayed :=
  ⟨[], [], none, result, backend, client⟩

/-- The relay that begins with this write to the client. -/
def sendClient (bs : Bytes) (r : Relayed) : Relayed := { r with toClient := bs :: r.toClient }

def sendBackend (bs : Bytes) (r : Relayed) : Relayed := { r with toBackend := bs :: r.toBackend }

/-- A key recorded later replaces this one. -/
def record (key : CancelKey) (r : Relayed) : Relayed :=
  { r with recorded := r.recorded.or (some key) }

end Relayed

/-- `relay_startup` on the messages of the backend and of the client. -/
def relayStartup (clientKey : Option CancelKey) (interactiveAuth : Bool) :
    List RawMessage → List RawMessage → Relayed
  | [], client => .stop none [] client
  | m :: ms, client =>
    if m.tag = Tag.authentication then
      match subtypeOf m.payload with
      | none => .stop (some (.error (.text "authentication message shorter than 4 bytes"))) ms client
      | some subtype =>
        if subtype = Auth.ok then
          (relayStartup clientKey interactiveAuth ms client).sendClient m.asBytes
        else if interactiveAuth then
          if subtype = Auth.saslFinal then
            (relayStartup clientKey interactiveAuth ms client).sendClient m.asBytes
          else match client with
            | [] => (Relayed.stop none ms []).sendClient m.asBytes
            | c :: client =>
              ((relayStartup clientKey interactiveAuth ms client).sendBackend c.asBytes).sendClient
                m.asBytes
        else .stop (some (.error (.text (s!"backend requested authentication type {subtype}; " ++
          "proxy-to-backend auth is not supported in terminate mode")))) ms client
    else if m.tag = Tag.backendKeyData then
      match clientKey with
      | some key => ((relayStartup clientKey interactiveAuth ms client).record ⟨m.payload⟩).sendClient
          (Message.backendKeyDataRaw key.bytes)
      | none => (relayStartup clientKey interactiveAuth ms client).sendClient m.asBytes
    else if m.tag = Tag.readyForQuery then
      (Relayed.stop (some (.ok ())) ms client).sendClient m.asBytes
    else if m.tag = Tag.errorResponse then
      (Relayed.stop (some (.error (.text "backend rejected startup"))) ms client).sendClient m.asBytes
    else (relayStartup clientKey interactiveAuth ms client).sendClient m.asBytes

/-- `reauth_upstream` followed by `relay_startup`. -/
def reauthThenRelay (b64 : Base64) (sha256 : Bytes → Key) (draw : Vector UInt8 18)
    (clientKey : Option CancelKey) (keys : ScramKeys) (backend client : List RawMessage) : Relayed :=
  match (reauthUpstream b64 sha256 keys draw).feed backend with
  | (es, some (.ok _), rest) =>
    let r := relayStartup clientKey false rest client
    { r with toBackend := es.filterMap Event.written ++ r.toBackend }
  | (es, some (.error e), rest) =>
    { Relayed.stop (some (.error e)) rest client with toBackend := es.filterMap Event.written }
  | (es, none, rest) =>
    { Relayed.stop none rest client with toBackend := es.filterMap Event.written }

/-- One message of the backend: the relay passes it on, or the advertised key in its place, and goes
on; or it ends there, at most passing the message on. -/
theorem relayStartup_cons (clientKey : Option CancelKey) (interactive : Bool) (m : RawMessage)
    (ms client : List RawMessage) :
    (∃ bs client', (bs = m.asBytes ∨ ∃ key, bs = Message.backendKeyDataRaw key) ∧
      (relayStartup clientKey interactive (m :: ms) client).toClient =
        bs :: (relayStartup clientKey interactive ms client').toClient ∧
      (relayStartup clientKey interactive (m :: ms) client).backend =
        (relayStartup clientKey interactive ms client').backend) ∨
    ((relayStartup clientKey interactive (m :: ms) client).backend = ms ∧
      (relayStartup clientKey interactive (m :: ms) client).toClient ⊆ [m.asBytes]) := by
  rw [relayStartup.eq_def]
  simp only
  split
  · split
    · exact .inr ⟨rfl, List.nil_subset _⟩
    · split
      · exact .inl ⟨_, client, .inl rfl, rfl, rfl⟩
      · split
        · split
          · exact .inl ⟨_, client, .inl rfl, rfl, rfl⟩
          · split
            · exact .inr ⟨rfl, List.Subset.refl _⟩
            · rename_i client'
              exact .inl ⟨_, client', .inl rfl, rfl, rfl⟩
        · exact .inr ⟨rfl, List.nil_subset _⟩
  · split
    · split
      · exact .inl ⟨_, client, .inr ⟨_, rfl⟩, rfl, rfl⟩
      · exact .inl ⟨_, client, .inl rfl, rfl, rfl⟩
    · split
      · exact .inr ⟨rfl, List.Subset.refl _⟩
      · split
        · exact .inr ⟨rfl, List.Subset.refl _⟩
        · exact .inl ⟨_, client, .inl rfl, rfl, rfl⟩

/-- Every frame the relay writes to the client is one of the backend's or a key it advertises. -/
theorem mem_toClient_relayStartup {clientKey : Option CancelKey} {interactive : Bool} :
    ∀ {ms client : List RawMessage} {bs : Bytes},
      bs ∈ (relayStartup clientKey interactive ms client).toClient →
        (∃ m ∈ ms, bs = m.asBytes) ∨ ∃ key, bs = Message.backendKeyDataRaw key
  | [], _, _, h => by cases h
  | m :: ms, client, bs, h => by
    rcases relayStartup_cons clientKey interactive m ms client with
      ⟨b, client', hb, hc, -⟩ | ⟨-, hc⟩
    · rw [hc] at h
      rcases List.mem_cons.mp h with rfl | h
      · exact hb.imp_left fun hb => ⟨m, List.mem_cons_self, hb⟩
      · exact (mem_toClient_relayStartup h).imp_left fun ⟨x, hx, he⟩ => ⟨x, .tail _ hx, he⟩
    · exact .inl ⟨m, List.mem_cons_self, List.mem_singleton.mp (hc h)⟩

/-- The relay takes the backend's messages in order. -/
theorem relayStartup_suffix {clientKey : Option CancelKey} {interactive : Bool} :
    ∀ (ms client : List RawMessage), (relayStartup clientKey interactive ms client).backend <:+ ms
  | [], _ => List.suffix_refl []
  | m :: ms, client => by
    rcases relayStartup_cons clientKey interactive m ms client with
      ⟨-, client', -, -, hb⟩ | ⟨hb, -⟩
    · rw [hb]
      exact (relayStartup_suffix ms client').trans (List.suffix_cons m ms)
    · rw [hb]
      exact List.suffix_cons m ms

end RamaPg.Proxy
