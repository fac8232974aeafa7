import RamaPg.Pool.Gateway
import RamaPg.Protocol.Backend
import RamaPg.Protocol.RoundTrip
import RamaPg.Proxy.Negotiation

/-!
# The front speaks the protocol

What the proxy writes to a client until the client is forwarded, message by message: a `Stage` is
where the protocol's start-up stands, and says which message may come next. Every program that
`PgSession::serve` can be, on whatever frame and whatever the client answers, follows it with
messages a client can read, and lets the client through in the one stage its mechanism ends in.
-/

namespace RamaPg.Proxy

open RamaPg.Lib RamaPg.Codec RamaPg.Startup RamaPg.Scram RamaPg.Pool

inductive Stage where
  | start
  | negotiated
  /-- A password was asked for. -/
  | password
  /-- Mechanisms were offered. -/
  | offered
  | challenged
  | verified
  | refused
  deriving DecidableEq, Repr

/-- No version is negotiated twice or late, no mechanism follows another, nothing comes after a
refusal. -/
def Stage.next : Stage → BackendMessage → Option Stage
  | .start, .negotiateProtocolVersion _ _ => some .negotiated
  | .start, .authenticationCleartextPassword => some .password
  | .negotiated, .authenticationCleartextPassword => some .password
  | .start, .authenticationSasl _ => some .offered
  | .negotiated, .authenticationSasl _ => some .offered
  | .offered, .authenticationSaslContinue _ => some .challenged
  | .challenged, .authenticationSaslFinal _ => some .verified
  | .start, .errorResponse _ _ _ => some .refused
  | .password, .errorResponse _ _ _ => some .refused
  | .offered, .errorResponse _ _ _ => some .refused
  | .challenged, .errorResponse _ _ _ => some .refused
  | _, _ => none

/-- The bytes are a message that is read back from them. -/
def Spells (m : BackendMessage) (bs : Bytes) : Prop := m.Sendable ∧ bs = m.encode

theorem encode_of_spells {ms : List BackendMessage} {written : List Bytes}
    (h : List.Forall₂ Spells ms written) :
    written = ms.map BackendMessage.encode ∧ ∀ m ∈ ms, m.Sendable := by
  induction h with
  | nil => exact ⟨rfl, nofun⟩
  | cons hm _ ih =>
    obtain ⟨hwritten, hsendable⟩ := ih
    rw [List.map_cons, hm.2, hwritten]
    exact ⟨rfl, List.forall_mem_cons.mpr ⟨hm.1, hsendable⟩⟩

/-- The program's writes conform, and its successes end where `Q` holds. -/
abbrev Conforms {α : Type} (Q : Stage → α → Prop) (p : Io α) (s : Stage) : Prop :=
  p.Follows Stage.next Spells Q s

section

variable {α : Type} {s t : Stage}

theorem conforms_write {m : BackendMessage} (hm : m.Sendable) (hn : s.next m = some t) :
    Conforms (fun t' _ => t' = t) (ioWrite m.encode) s :=
  Prog.follows_send ⟨hm, rfl⟩ hn

theorem conforms_error {severity code message : Bytes}
    (hm : (BackendMessage.errorResponse severity code message).Sendable) {e : BoxError}
    (hn : s.next (.errorResponse severity code message) = some .refused) {Q : Stage → α → Prop} :
    Conforms Q (do ioWrite (Message.errorResponse severity code message); Prog.lift (.error e)) s :=
  (conforms_write hm hn).bind fun _ _ _ => trivial

/-! ## The mechanisms -/

theorem authFailed_sendable : (BackendMessage.errorResponse (ascii "FATAL") (ascii "28P01")
    (ascii "password authentication failed")).Sendable :=
  ⟨by decide, by decide, by decide⟩

/-- Before anything but a negotiation was written. -/
def Stage.fresh (s : Stage) : Prop := s = .start ∨ s = .negotiated

theorem CleartextPassword.conforms (auth : CleartextPassword) (ctx : AuthContext) (hs : s.fresh) :
    Conforms (fun t a => t = .password ∧ a = .terminated .trust) (auth.authenticate ctx) s := by
  have hask : s.next .authenticationCleartextPassword = some .password := by
    rcases hs with rfl | rfl <;> rfl
  refine Prog.Follows.bind (conforms_write (m := .authenticationCleartextPassword) trivial hask) ?_
  rintro _ _ rfl
  refine Prog.Follows.bind Prog.follows_recv ?_
  rintro _ msg rfl
  split
  · trivial
  · refine Prog.Follows.bind (Prog.follows_lift _) ?_
    rintro _ valid ⟨rfl, -⟩
    split
    · exact ⟨rfl, rfl⟩
    · exact conforms_error authFailed_sendable rfl

/-- A check leaves the stage alone or ends the session, with a refusal or without. -/
theorem conforms_checked (c : Except Refusal α)
    (hs : ∀ m, s.next (.errorResponse (ascii "FATAL") (ascii "28P01") m) = some .refused) :
    Conforms (fun t _ => t = s) (checked c) s := by
  cases c with
  | ok a => rfl
  | error ref =>
    cases ref with
    | fail e => trivial
    | deny e => exact conforms_error authFailed_sendable (hs _)

theorem offered_sendable (channelBinding : Option Bytes) :
    (BackendMessage.authenticationSasl (Scram.offered channelBinding)).Sendable := by
  have hboth : ∀ name ∈ [mechanismPlus, mechanism], name ≠ [] ∧ 0 ∉ name := by decide
  intro name hname
  unfold Scram.offered at hname
  split at hname
  · exact hboth name hname
  · exact hboth name (List.mem_cons_of_mem _ hname)

theorem ScramSha256.conforms (b64 : Base64) (sha256 : Bytes → Key) (auth : ScramSha256)
    (ctx : AuthContext) (draws : Draws) (hs : s.fresh) :
    Conforms (fun t a => t = .verified ∧ ∃ keys, a = .terminated (.scram keys))
      (auth.authenticate b64 sha256 ctx draws) s := by
  have hoffer : s.next (.authenticationSasl (Scram.offered auth.channelBinding)) =
      some .offered := by
    rcases hs with rfl | rfl <;> rfl
  refine Prog.Follows.bind (Prog.follows_lift _) ?_
  rintro _ answer ⟨rfl, -⟩
  refine Prog.Follows.bind (conforms_write (offered_sendable _) hoffer) ?_
  rintro _ _ rfl
  refine Prog.Follows.bind Prog.follows_recv ?_
  rintro _ initial rfl
  refine Prog.Follows.bind (conforms_checked _ fun _ => rfl) ?_
  rintro _ first rfl
  refine Prog.Follows.bind
    (conforms_write (m := .authenticationSaslContinue _) trivial rfl) ?_
  rintro _ _ rfl
  refine Prog.Follows.bind Prog.follows_recv ?_
  rintro _ response rfl
  refine Prog.Follows.bind (conforms_checked _ fun _ => rfl) ?_
  rintro _ final rfl
  refine Prog.Follows.bind (conforms_write (m := .authenticationSaslFinal _) trivial rfl) ?_
  rintro _ _ rfl
  exact ⟨rfl, _, rfl⟩

/-! ## The session -/

theorem negotiation_sendable {frame : Bytes} {m : StartupMessage}
    (hlen : (frame.length : Int) ≤ maxStartupPacketLen)
    (hparse : StartupRequest.parse frame = .ok (.startup m)) (hmajor : m.protocolMajor = 3) :
    (BackendMessage.negotiateProtocolVersion m.negotiatedVersion m.pqOptions).Sendable := by
  have hcap : maxStartupPacketLen = 10000 := rfl
  obtain ⟨a, b, c, d, code, body, rfl, -, -, hparameters, ignored, rfl⟩ :=
    StartupRequest.parse_ok hparse
  have hcode := negotiatedVersion_code hmajor
  have hlo : 0 ≤ m.protocolMinor := Int.emod_nonneg _ (by decide)
  refine ⟨⟨(m.negotiatedVersion.code).toNat, by omega, by omega⟩, ?_, fun option ho => ?_⟩
  · have hcount := length_le_encodeParameters m.parameters
    have hoptions : m.pqOptions.length ≤ m.parameters.length := by
      rw [StartupMessage.pqOptions, List.length_map]
      exact List.length_filter_le _ _
    simp only [List.length_cons, List.length_append, length_i32ToBe, hcap] at hlen
    omega
  · obtain ⟨p, hp, rfl⟩ := List.mem_map.mp ho
    exact (hparameters p (List.mem_filter.mp hp).1).2.1.1

/-- Where a mechanism ends when it lets a client through, and what it tells the forwarder. -/
def EndsIn : Gate → Stage → ClientAuth → Prop
  | .passThrough, t, a => t = .start ∧ a = .passThrough
  | .cleartext _, t, a => t = .password ∧ a = .terminated .trust
  | .scram _, t, a => t = .verified ∧ ∃ keys, a = .terminated (.scram keys)

theorem gate_conforms (b64 : Base64) (sha256 : Bytes → Key) (gate : Gate) (draws : Draws)
    (ctx : AuthContext) (hs : s = .start ∨ gate ≠ .passThrough ∧ s = .negotiated) :
    Conforms (EndsIn gate) ((gate.authenticator b64 sha256 draws).authenticate ctx) s := by
  have hfresh : s.fresh := hs.imp_right And.right
  cases gate with
  | passThrough =>
    rcases hs with rfl | ⟨hne, -⟩
    · exact ⟨rfl, rfl⟩
    · exact absurd rfl hne
  | cleartext auth => exact CleartextPassword.conforms auth ctx hfresh
  | scram auth => exact ScramSha256.conforms b64 sha256 auth ctx draws hfresh

theorem reject_conforms {code message : Bytes} {Q : Stage → Option PgClient → Prop}
    (hm : (BackendMessage.errorResponse (ascii "FATAL") code message).Sendable)
    (hQ : Q .refused none) : Conforms Q (reject code message) .start := by
  refine Prog.Follows.bind (conforms_write hm rfl) ?_
  rintro _ _ rfl
  exact hQ

theorem serve_conforms (b64 : Base64) (sha256 : Bytes → Key) (gate : Gate) (draws : Draws)
    (sni : Option Bytes) {frame : Bytes} (hlen : (frame.length : Int) ≤ maxStartupPacketLen) :
    Conforms (fun t r => ∀ client, r = some client → EndsIn gate t client.auth)
      (PgSession.serve (gate.authenticator b64 sha256 draws) sni frame) .start := by
  unfold PgSession.serve
  cases hparse : StartupRequest.parse frame with
  | error e => trivial
  | ok r =>
    cases r with
    | cancel key => exact nofun
    | ssl | gssEnc => exact reject_conforms ⟨by decide, by decide, by decide⟩ nofun
    | startup m =>
      show Conforms _ (if m.protocolMajor ≠ 3 then _ else _) _
      split
      · exact reject_conforms ⟨by decide, by decide, by decide⟩ nofun
      · rename_i hmajor
        have hnegotiate : Conforms
            (fun t _ => t = .start ∨ gate ≠ .passThrough ∧ t = .negotiated)
            (negotiate (gate.authenticator b64 sha256 draws).terminates m) .start := by
          unfold negotiate
          split
          · rename_i hmust
            refine ⟨.negotiateProtocolVersion _ _, .negotiated,
              ⟨negotiation_sendable hlen hparse (not_not.mp hmajor), rfl⟩, rfl, .inr ⟨?_, rfl⟩⟩
            rintro rfl
            cases hmust
          · exact .inl rfl
        refine hnegotiate.bind fun t _ ht => ?_
        refine (gate_conforms b64 sha256 gate draws _ ht).bind fun t outcome hends => ?_
        intro client hclient
        cases hclient
        exact hends

end

/-- **The front speaks the protocol.** Whatever frame a client starts with and whatever it sends or
does not, all that the proxy writes to it before it is forwarded, by any of the mechanisms, is a
sequence of messages that are read back and that the protocol's start-up allows; and a client is let
through only where its mechanism is complete. -/
theorem front_speaks_protocol (b64 : Base64) (sha256 : Bytes → Key) (gate : Gate) (draws : Draws)
    (sni : Option Bytes) {frame : Bytes} (hlen : (frame.length : Int) ≤ maxStartupPacketLen)
    {es : List (Event Int RawMessage)} {r : Option (Except BoxError (Option PgClient))}
    (h : Runs (PgSession.serve (gate.authenticator b64 sha256 draws) sni frame) es r) :
    ∃ ms t, es.filterMap Event.written = ms.map BackendMessage.encode ∧
      (∀ m ∈ ms, BackendMessage.decode m.raw = some m) ∧ exec Stage.next .start ms = some t ∧
      ∀ client, r = some (.ok (some client)) → EndsIn gate t client.auth := by
  obtain ⟨ms, t, hms, ht, hends⟩ := h.follows (serve_conforms b64 sha256 gate draws sni hlen)
  obtain ⟨hbytes, hsendable⟩ := encode_of_spells hms
  exact ⟨ms, t, hbytes, fun m hm => BackendMessage.decode_raw (hsendable m hm), ht,
    fun client hr => hends _ hr client rfl⟩

/-- A client with the right password is let through when it was asked for it. -/
theorem front_speaks_protocol_to_alice : ∃ ms,
    (Sample.serve.feed Sample.messages).1.filterMap Event.written = ms.map BackendMessage.encode ∧
    exec Stage.next .start ms = some .password := by
  obtain ⟨ms, t, hbytes, -, ht, hends⟩ := front_speaks_protocol Base64.standard Sha256.hash
    (.cleartext ⟨fun _ password => .ok (password == ascii "secret")⟩)
    ⟨.replicate 16 5, .replicate 32 1, .replicate 32 2, .replicate 18 3⟩ none (by decide) Sample.session
  obtain ⟨rfl, -⟩ := hends Sample.client rfl
  exact ⟨ms, hbytes, ht⟩

end RamaPg.Proxy
