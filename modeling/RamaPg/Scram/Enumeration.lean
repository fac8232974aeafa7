import RamaPg.Scram.Interop

/-!
# User enumeration through SCRAM

What consecutive handshakes under one user name show a client that never proves a key, when the
store does not know the name and when it holds one verifier for it. A handshake with the mock
verifier ends as one with a stored verifier does; but the mock salt is drawn anew for each
handshake, so the two stores look alike only as long as all challenges happen to carry one salt.
-/

namespace RamaPg.Scram

open RamaPg.Lib RamaPg.Codec RamaPg.Startup RamaPg.Proxy

/-- One run of the authenticator: the startup it runs for, what it draws and what the client sends. -/
structure Handshake where
  ctx : AuthContext
  draws : Draws
  messages : List RawMessage

/-- The same authenticator over a store that holds `secret` for the name. -/
def ScramSha256.knowing (auth : ScramSha256) (user : Bytes) (secret : ScramSecret) : ScramSha256 where
  store l := if l.user = user then .ok (some secret) else auth.store l
  channelBinding := auth.channelBinding

section

variable (b64 : Base64) (sha256 : Bytes → Key)

def Handshake.run (auth : ScramSha256) (h : Handshake) :
    List (Event Int RawMessage) × Option (Except BoxError ClientAuth) × List RawMessage :=
  (auth.authenticate b64 sha256 h.ctx h.draws).feed h.messages

/-- The frames the client is shown. -/
def Handshake.shown (auth : ScramSha256) (h : Handshake) : List Bytes :=
  (h.run b64 sha256 auth).1.filterMap Event.written

/-- The client would be let in. -/
def Handshake.Proves (auth : ScramSha256) (h : Handshake) : Prop :=
  ∃ a, (h.run b64 sha256 auth).2.1 = some (.ok a)

/-- The client comes as far as the challenge. -/
def Handshake.Challenged (cb : Option Bytes) (h : Handshake) : Prop :=
  ∃ initial rest x, h.messages = initial :: rest ∧ checkInitial cb initial = .ok x

/-- A server that holds some verifier for the name could have shown the same clients the same
frames. -/
def Indistinguishable (auth : ScramSha256) (user : Bytes) (hs : List Handshake) : Prop :=
  ∃ secret, ∀ h ∈ hs, ∃ draws,
    Handshake.shown b64 sha256 (auth.knowing user secret) ⟨h.ctx, draws, h.messages⟩ =
      h.shown b64 sha256 auth

/-! ## What a handshake shows -/

/-- What a refused client is told. -/
def refusalFrames : Refusal → List Bytes
  | .fail _ => []
  | .deny _ => [authFailed]

/-- The frames a program writes when it is fed these messages. -/
def framesOf {α : Type} (p : Io α) (ms : List RawMessage) : List Bytes :=
  (p.feed ms).1.filterMap Event.written

section

variable {α β : Type} {ms : List RawMessage}

theorem framesOf_write (bs : Bytes) (k : Io α) :
    framesOf (.write bs k) ms = bs :: framesOf k ms := rfl

theorem framesOf_read_nil (q : Int) (k : RawMessage → Io α) : framesOf (.read q k) [] = [] := rfl

theorem framesOf_read_cons (q : Int) (k : RawMessage → Io α) (m : RawMessage) :
    framesOf (.read q k) (m :: ms) = framesOf (k m) ms := rfl

theorem framesOf_refused (ref : Refusal) (f : α → Io β) :
    framesOf (checked (.error ref) >>= f) ms = refusalFrames ref := by
  cases ref <;> rfl

end

variable {b64 sha256} {auth : ScramSha256} {known : Bool} {secret : ScramSecret}
  {serverNonce : Bytes} {initial response : RawMessage} {rest : List RawMessage}

/-- The exchange step by step. -/
theorem exchange_eq : auth.exchange b64 sha256 known secret serverNonce =
    .write (Message.authenticationSasl (offered auth.channelBinding))
      (.read maxAuthMessageLen fun initial =>
        checked (checkInitial auth.channelBinding initial) >>= fun x =>
          .write (Message.authenticationSaslContinue
              (serverFirst b64 (x.1.clientNonce ++ serverNonce) secret))
            (.read maxAuthMessageLen fun response =>
              checked (checkFinal b64 sha256 known secret x.1 x.2 (x.1.clientNonce ++ serverNonce)
                (serverFirst b64 (x.1.clientNonce ++ serverNonce) secret) response) >>= fun y =>
                  .write (Message.authenticationSaslFinal (ascii "v=" ++ b64.encode
                      (hmacSha256 sha256 secret.serverKey.toList y.2).toList))
                    (.done (.ok (.terminated (.scram
                      ⟨y.1, secret.storedKey, secret.serverKey⟩)))))) := rfl

theorem framesOf_exchange_nil :
    framesOf (auth.exchange b64 sha256 known secret serverNonce) [] =
      [Message.authenticationSasl (offered auth.channelBinding)] := rfl

/-- Up to the challenge the verifier plays no part. -/
theorem framesOf_exchange_refused {ref : Refusal}
    (h : checkInitial auth.channelBinding initial = .error ref) :
    framesOf (auth.exchange b64 sha256 known secret serverNonce) (initial :: rest) =
      Message.authenticationSasl (offered auth.channelBinding) :: refusalFrames ref := by
  simp only [exchange_eq, framesOf_write, framesOf_read_cons, h, framesOf_refused]

/-- The challenge is shown whatever comes after it. -/
theorem framesOf_exchange_challenged {first : ClientFirst} {expected : Bytes}
    (h : checkInitial auth.channelBinding initial = .ok (first, expected)) :
    ∃ tail, framesOf (auth.exchange b64 sha256 known secret serverNonce) (initial :: rest) =
      Message.authenticationSasl (offered auth.channelBinding) ::
        Message.authenticationSaslContinue
          (serverFirst b64 (first.clientNonce ++ serverNonce) secret) :: tail := by
  simp only [exchange_eq, framesOf_write, framesOf_read_cons, h, checked_ok_bind]
  exact ⟨_, rfl⟩

theorem framesOf_exchange_unanswered {first : ClientFirst} {expected : Bytes}
    (h : checkInitial auth.channelBinding initial = .ok (first, expected)) :
    framesOf (auth.exchange b64 sha256 known secret serverNonce) [initial] =
      [Message.authenticationSasl (offered auth.channelBinding),
        Message.authenticationSaslContinue
          (serverFirst b64 (first.clientNonce ++ serverNonce) secret)] := by
  simp only [exchange_eq, framesOf_write, framesOf_read_cons, framesOf_read_nil, h, checked_ok_bind]

theorem framesOf_exchange_failed {first : ClientFirst} {expected : Bytes} {ref : Refusal}
    (h : checkInitial auth.channelBinding initial = .ok (first, expected))
    (hf : checkFinal b64 sha256 known secret first expected (first.clientNonce ++ serverNonce)
      (serverFirst b64 (first.clientNonce ++ serverNonce) secret) response = .error ref) :
    framesOf (auth.exchange b64 sha256 known secret serverNonce) (initial :: response :: rest) =
      Message.authenticationSasl (offered auth.channelBinding) ::
        Message.authenticationSaslContinue
          (serverFirst b64 (first.clientNonce ++ serverNonce) secret) :: refusalFrames ref := by
  simp only [exchange_eq, framesOf_write, framesOf_read_cons, h, checked_ok_bind, hf,
    framesOf_refused]

/-- A client that passes the last check is let in. -/
theorem exchange_succeeds {first : ClientFirst} {expected : Bytes} {x : Key × Bytes}
    (h : checkInitial auth.channelBinding initial = .ok (first, expected))
    (hf : checkFinal b64 sha256 known secret first expected (first.clientNonce ++ serverNonce)
      (serverFirst b64 (first.clientNonce ++ serverNonce) secret) response = .ok x) :
    ∃ a, ((auth.exchange b64 sha256 known secret serverNonce).feed
      (initial :: response :: rest)).2.1 = some (.ok a) := by
  simp only [exchange_eq, Prog.feed, h, checked_ok_bind, hf]
  exact ⟨_, rfl⟩

/-- A client that fails it is not. -/
theorem exchange_fails {first : ClientFirst} {expected : Bytes} {ref : Refusal}
    (h : checkInitial auth.channelBinding initial = .ok (first, expected))
    (hf : checkFinal b64 sha256 known secret first expected (first.clientNonce ++ serverNonce)
      (serverFirst b64 (first.clientNonce ++ serverNonce) secret) response = .error ref) :
    Unfinished ((auth.exchange b64 sha256 known secret serverNonce).feed
      (initial :: response :: rest)).2.1 := by
  simp only [exchange_eq, Prog.feed, h, checked_ok_bind, hf]
  cases ref <;> exact unfinished_error _

/-! ## The mock verifier fails as a stored one -/

/-- An error of `x >>= f` is one of `x >>= g`, if it is for every result of `x`. -/
theorem bind_error_mono {ε α β : Type} {x : Except ε α} {f g : α → Except ε β} {e : ε}
    (hfg : ∀ a, f a = .error e → g a = .error e) (h : x >>= f = .error e) :
    x >>= g = .error e := by
  cases x with
  | error e' => exact h
  | ok a => exact hfg a h

theorem ite_error_mono {ε α : Type} {c : Prop} [Decidable c] {x x' y : Except ε α} {e : ε}
    (hx : x = .error e → x' = .error e) (h : (if c then x else y) = .error e) :
    (if c then x' else y) = .error e := by
  split at h
  · rename_i hc
    rw [if_pos hc]; exact hx h
  · rename_i hc
    rw [if_neg hc]; exact h

theorem checkProof_mock {mock : ScramSecret} {message proof : Bytes} {ref : Refusal}
    (h : checkProof sha256 true secret message proof = .error ref) :
    checkProof sha256 false mock message proof = .error ref := by
  unfold checkProof at h ⊢
  cases hp : toKey proof with
  | none => rw [hp] at h; exact h
  | some p =>
    rw [hp] at h
    simp only [Bool.false_eq_true, false_and, ↓reduceIte] at h ⊢
    split at h
    · cases h
    · exact h

/-- Every way the last check fails is the same with the mock verifier, whatever it holds. -/
theorem checkFinal_mock {mock : ScramSecret} {first : ClientFirst}
    {expected fullNonce challenge : Bytes} {ref : Refusal}
    (h : checkFinal b64 sha256 true secret first expected fullNonce challenge response =
      .error ref) :
    checkFinal b64 sha256 false mock first expected fullNonce challenge response = .error ref := by
  refine bind_error_mono (fun _ => ?_) h
  refine ite_error_mono (bind_error_mono fun final => ?_)
  refine ite_error_mono (bind_error_mono fun _ => ?_)
  refine ite_error_mono (bind_error_mono fun proof h => ?_)
  -- The proof is the only step that looks at the verifier.
  cases hp : checkProof sha256 true secret
      (authMessage first.bare challenge final.withoutProof) proof with
  | ok key => rw [hp] at h; cases h
  | error e =>
    rw [hp] at h
    rw [checkProof_mock hp]; exact h

/-! ## The salt of a challenge -/

theorem serverFirst_salt {clientNonce nonce nonce' : Bytes} {mock : ScramSecret}
    (hn : nonce.length = nonce'.length)
    (h : Message.authenticationSaslContinue (serverFirst b64 (clientNonce ++ nonce) secret) =
      Message.authenticationSaslContinue (serverFirst b64 (clientNonce ++ nonce') mock)) :
    secret.salt = mock.salt := by
  have hb : serverFirst b64 (clientNonce ++ nonce) secret = serverFirst b64 (clientNonce ++ nonce') mock :=
    congrArg (List.drop 9) h
  rw [serverFirst_eq, serverFirst_eq] at hb
  have hr := (List.append_inj hb (by simp [hn])).2
  have hs : ascii "s=" ++ b64.encode secret.salt = ascii "s=" ++ b64.encode mock.salt := by
    have h₁ := @splitOnce_append 44 (ascii "s=" ++ b64.encode secret.salt)
      (by simp only [List.mem_append, not_or]; exact ⟨by decide, (b64.plain_encode _).1⟩)
      (ascii "i=" ++ decimal secret.iterations.toNat)
    have h₂ := @splitOnce_append 44 (ascii "s=" ++ b64.encode mock.salt)
      (by simp only [List.mem_append, not_or]; exact ⟨by decide, (b64.plain_encode _).1⟩)
      (ascii "i=" ++ decimal mock.iterations.toNat)
    rw [List.cons.inj hr |>.2] at h₁
    rw [h₁] at h₂
    exact (Prod.mk.inj (Option.some.inj h₂)).1
  have hd := congrArg b64.decode (List.append_cancel_left hs)
  rw [b64.decode_encode, b64.decode_encode] at hd
  exact Option.some.inj hd

/-! ## One handshake -/

section

variable {user : Bytes} {h : Handshake}

theorem knowing_store (hu : h.ctx.user = user) :
    (auth.knowing user secret).store (ScramSha256.lookup h.ctx) = .ok (some secret) :=
  if_pos hu

theorem authenticate_unknown (hstore : auth.store (ScramSha256.lookup h.ctx) = .ok none) :
    auth.authenticate b64 sha256 h.ctx h.draws =
      auth.exchange b64 sha256 false (mockSecret h.draws) (randomNonce b64 h.draws.nonce) := by
  rw [ScramSha256.authenticate, hstore, Prog.lift_ok_bind]; rfl

theorem shown_unknown (hstore : auth.store (ScramSha256.lookup h.ctx) = .ok none) :
    h.shown b64 sha256 auth = framesOf (auth.exchange b64 sha256 false (mockSecret h.draws)
      (randomNonce b64 h.draws.nonce)) h.messages := by
  rw [Handshake.shown, Handshake.run, authenticate_unknown hstore]; rfl

theorem run_knowing (hu : h.ctx.user = user) :
    h.run b64 sha256 (auth.knowing user secret) =
      ((auth.knowing user secret).exchange b64 sha256 true secret
        (randomNonce b64 h.draws.nonce)).feed h.messages := by
  rw [Handshake.run, authenticate_known b64 (knowing_store hu)]

/-- A challenge shows the salt of its verifier. -/
theorem salt_of_shown (hu : h.ctx.user = user)
    (hstore : auth.store (ScramSha256.lookup h.ctx) = .ok none)
    (hc : h.Challenged auth.channelBinding) {draws : Draws}
    (he : Handshake.shown b64 sha256 (auth.knowing user secret) ⟨h.ctx, draws, h.messages⟩ =
      h.shown b64 sha256 auth) : h.draws.salt.toList = secret.salt := by
  obtain ⟨initial, rest, ⟨first, expected⟩, hm, hi⟩ := hc
  have hk : Handshake.shown b64 sha256 (auth.knowing user secret) ⟨h.ctx, draws, h.messages⟩ =
      framesOf ((auth.knowing user secret).exchange b64 sha256 true secret
        (randomNonce b64 draws.nonce)) h.messages := by
    rw [Handshake.shown, @run_knowing b64 sha256 auth secret user ⟨h.ctx, draws, h.messages⟩ hu]
    rfl
  rw [hk, shown_unknown hstore, hm] at he
  obtain ⟨tail, ht⟩ := @framesOf_exchange_challenged b64 sha256 (auth.knowing user secret) true
    secret (randomNonce b64 draws.nonce) initial rest first expected hi
  obtain ⟨tail', ht'⟩ := @framesOf_exchange_challenged b64 sha256 auth false
    (mockSecret h.draws) (randomNonce b64 h.draws.nonce) initial rest first expected hi
  rw [ht, ht'] at he
  have hcont := (List.cons.inj (List.cons.inj he).2).1
  exact (serverFirst_salt (by rw [length_randomNonce, length_randomNonce]) hcont).symm

/-- A verifier with the salt and the iteration count of the mock, whose key the client does not
prove, shows what the mock does. -/
theorem shown_as_known (hu : h.ctx.user = user)
    (hstore : auth.store (ScramSha256.lookup h.ctx) = .ok none)
    (hiter : secret.iterations = defaultIterations)
    (hsalt : h.Challenged auth.channelBinding → secret.salt = h.draws.salt.toList)
    (hproof : h.Challenged auth.channelBinding →
      ¬ h.Proves b64 sha256 (auth.knowing user secret)) :
    h.shown b64 sha256 (auth.knowing user secret) = h.shown b64 sha256 auth := by
  have hrun := @run_knowing b64 sha256 auth secret user h hu
  rw [shown_unknown hstore, Handshake.shown, hrun]
  show framesOf _ _ = _
  cases hm : h.messages with
  | nil =>
    rw [framesOf_exchange_nil, framesOf_exchange_nil]
    rfl
  | cons initial rest =>
    cases hi : checkInitial auth.channelBinding initial with
    | error ref =>
      rw [framesOf_exchange_refused hi]
      exact framesOf_exchange_refused hi
    | ok x =>
      obtain ⟨first, expected⟩ := x
      have hc : h.Challenged auth.channelBinding := ⟨initial, rest, _, hm, hi⟩
      have hfirst : ∀ nonce, serverFirst b64 nonce secret =
          serverFirst b64 nonce (mockSecret h.draws) := by
        intro nonce
        simp only [serverFirst, hsalt hc, hiter, mockSecret]
      cases rest with
      | nil =>
        rw [framesOf_exchange_unanswered hi, ← hfirst]
        exact framesOf_exchange_unanswered hi
      | cons response rest =>
        cases hf : checkFinal b64 sha256 true secret first expected
            (first.clientNonce ++ randomNonce b64 h.draws.nonce)
            (serverFirst b64 (first.clientNonce ++ randomNonce b64 h.draws.nonce) secret)
            response with
        | ok y =>
          refine absurd ?_ (hproof hc)
          rw [Handshake.Proves, hrun, hm]
          exact exchange_succeeds hi hf
        | error ref =>
          have hmock := @checkFinal_mock b64 sha256 secret response (mockSecret h.draws) _ _ _ _ _ hf
          rw [hfirst] at hmock
          rw [framesOf_exchange_failed hi hmock, ← hfirst]
          exact framesOf_exchange_failed hi hf

end

/-! ## Many handshakes -/

/-- All challenges carry one salt. -/
def OneSalt (cb : Option Bytes) (hs : List Handshake) : Prop :=
  ∀ h ∈ hs, ∀ h' ∈ hs, h.Challenged cb → h'.Challenged cb → h.draws.salt = h'.draws.salt

theorem oneSalt_of_indistinguishable {user : Bytes} {hs : List Handshake}
    (hunder : ∀ h ∈ hs, h.ctx.user = user)
    (hunknown : ∀ l, l.user = user → auth.store l = .ok none)
    (hind : Indistinguishable b64 sha256 auth user hs) : OneSalt auth.channelBinding hs := by
  obtain ⟨secret, hshown⟩ := hind
  have hsalt : ∀ h ∈ hs, h.Challenged auth.channelBinding → h.draws.salt.toList = secret.salt := by
    intro h hh hc
    obtain ⟨draws, he⟩ := hshown h hh
    exact salt_of_shown (hunder h hh) (hunknown _ (hunder h hh)) hc he
  intro h hh h' hh' hc hc'
  exact Vector.toList_inj.mp ((hsalt h hh hc).trans (hsalt h' hh' hc').symm)

/-- **Enumeration.** Consecutive handshakes under a name the store does not know, whose clients do
not prove the key, could have been shown by a server that holds one verifier for the name if and
only if all the challenges among them carry the same salt, which is drawn for each of them. -/
theorem unknown_user_hidden_iff {user : Bytes} {hs : List Handshake} {storedKey serverKey : Key}
    (hunder : ∀ h ∈ hs, h.ctx.user = user)
    (hunknown : ∀ l, l.user = user → auth.store l = .ok none)
    (hproof : ∀ h ∈ hs, ¬ h.Proves b64 sha256 (auth.knowing user
      ⟨defaultIterations, h.draws.salt.toList, storedKey, serverKey⟩)) :
    Indistinguishable b64 sha256 auth user hs ↔ OneSalt auth.channelBinding hs := by
  constructor
  · exact oneSalt_of_indistinguishable hunder hunknown
  intro hone
  -- The verifier has the salt of any challenge; if there is none, it does not matter.
  have hsalt : ∃ salt : Vector UInt8 16, ∀ h ∈ hs, h.Challenged auth.channelBinding →
      salt = h.draws.salt := by
    by_cases hex : ∃ h ∈ hs, h.Challenged auth.channelBinding
    · obtain ⟨h₀, hh₀, hc₀⟩ := hex
      exact ⟨h₀.draws.salt, fun h hh hc => hone h₀ hh₀ h hh hc₀ hc⟩
    · exact ⟨Vector.replicate 16 0, fun h hh hc => (hex ⟨h, hh, hc⟩).elim⟩
  obtain ⟨salt, hsalt⟩ := hsalt
  refine ⟨⟨defaultIterations, salt.toList, storedKey, serverKey⟩, fun h hh => ⟨h.draws, ?_⟩⟩
  refine shown_as_known (hunder h hh) (hunknown _ (hunder h hh)) rfl
    (fun hc => by rw [hsalt h hh hc]) (fun hc => ?_)
  rw [hsalt h hh hc]
  exact hproof h hh

end

/-! ## Two probes -/

namespace Probe

def user : Bytes := ascii "bob"

def context : AuthContext where
  startup := ⟨.v3_0, [(ascii "user", user)], startupMessage [(ascii "user", user)]⟩
  sni := none

def clientNonce : Bytes := randomNonce Base64.standard Sample.clientDraw

def nonce : Bytes := clientNonce ++ randomNonce Base64.standard Sample.draws.nonce

def clientFirst : Bytes := ascii "n,," ++ clientFirstBare clientNonce

def initial : RawMessage :=
  RawMessage.build Tag.passwordMessage
    (mechanism ++ 0 :: (i32ToBe clientFirst.length ++ clientFirst))

/-- The last message of a client that does not know the password: the proof is three bytes. -/
def response : RawMessage :=
  RawMessage.build Tag.passwordMessage
    (clientFinalWithoutProof Base64.standard nonce ++ ascii ",p=AAAA")

/-- A handshake of such a client, with the salt the server draws for it. -/
def handshake (salt : Vector UInt8 16) : Handshake where
  ctx := context
  draws := { Sample.draws with salt := salt }
  messages := [initial, response]

theorem context_user : context.user = user := by decide

theorem checkInitial_initial (cb : Option Bytes) : checkInitial cb initial =
    .ok (⟨ascii "n,,", clientFirstBare clientNonce, clientNonce, .n, none⟩, ascii "n,,") :=
  checkInitial_client cb (plain_randomNonce Base64.standard Sample.clientDraw)

theorem parse_response : isUtf8 response.payload = true ∧ parseClientFinal response.payload =
    .ok ⟨ascii "biws", nonce, ascii "AAAA", clientFinalWithoutProof Base64.standard nonce⟩ := by
  decide +kernel

/-- Whatever verifier is stored, the proof is refused. -/
theorem checkFinal_response (secret : ScramSecret) (challenge : Bytes) :
    checkFinal Base64.standard Sha256.hash true secret
      ⟨ascii "n,,", clientFirstBare clientNonce, clientNonce, .n, none⟩ (ascii "n,,") nonce challenge
      response = .error (.deny (.text "scram: malformed client proof")) := by
  have htag : response.tag = Tag.passwordMessage := RawMessage.tag_build _ _
  have hcb : decode64 Base64.standard (ascii "biws") = .ok (ascii "n,,") := by decide
  have hproof : decode64 Base64.standard (ascii "AAAA") = .ok [0, 0, 0] := by decide
  have hkey : toKey [0, 0, 0] = none := by decide
  rw [checkFinal]
  simp only [expectSasl, htag, parse_response.1, parse_response.2, orFail, bind, Except.bind,
    if_true, hcb, hproof, checkProof, hkey, denied]

theorem unknown (l : SecretLookup) (h : l.user = user) : Sample.server.store l = .ok none := by
  have hne : l.user ≠ ascii "alice" := by rw [h]; decide
  rw [Sample.server]
  simp only [hne, ↓reduceIte]

theorem not_proves (secret : ScramSecret) (salt : Vector UInt8 16) :
    ¬ (handshake salt).Proves Base64.standard Sha256.hash (Sample.server.knowing user secret) := by
  have hu : (handshake salt).ctx.user = user := context_user
  have hm : (handshake salt).messages = [initial, response] := rfl
  have hn : (handshake salt).draws.nonce = Sample.draws.nonce := rfl
  rintro ⟨a, ha⟩
  rw [run_knowing hu, hm, hn] at ha
  exact exchange_fails (checkInitial_initial _) (checkFinal_response secret _) a ha

theorem under {hs : List (Vector UInt8 16)} : ∀ h ∈ hs.map handshake, h.ctx.user = user := by
  intro h hh
  obtain ⟨salt, -, rfl⟩ := List.mem_map.mp hh
  exact context_user

theorem challenged (salt : Vector UInt8 16) :
    (handshake salt).Challenged Sample.server.channelBinding :=
  ⟨initial, [response], _, rfl, checkInitial_initial _⟩

def saltOne : Vector UInt8 16 := Vector.replicate 16 1

def saltTwo : Vector UInt8 16 := Vector.replicate 16 2

end Probe

/-- Two handshakes as `bob` are shown two salts, which no stored verifier does. -/
theorem two_probes_tell :
    (∀ l, l.user = Probe.user → Sample.server.store l = .ok none) ∧
    (∀ secret, ∀ h ∈ [Probe.saltOne, Probe.saltTwo].map Probe.handshake,
      ¬ h.Proves Base64.standard Sha256.hash (Sample.server.knowing Probe.user secret)) ∧
    ¬ Indistinguishable Base64.standard Sha256.hash Sample.server Probe.user
      ([Probe.saltOne, Probe.saltTwo].map Probe.handshake) := by
  refine ⟨Probe.unknown, fun secret h hh => ?_, fun hind => ?_⟩
  · obtain ⟨salt, -, rfl⟩ := List.mem_map.mp hh
    exact Probe.not_proves secret salt
  · have hone := oneSalt_of_indistinguishable Probe.under Probe.unknown hind
    have hsalt : Probe.saltOne = Probe.saltTwo :=
      hone (Probe.handshake Probe.saltOne) (by simp) (Probe.handshake Probe.saltTwo) (by simp)
        (Probe.challenged _) (Probe.challenged _)
    exact absurd hsalt (by decide)

/-- With one salt for both, a stored verifier could have shown the same. -/
theorem unknown_user_hidden_iff_for_bob :
    Indistinguishable Base64.standard Sha256.hash Sample.server Probe.user
      ([Probe.saltOne, Probe.saltOne].map Probe.handshake) := by
  refine (@unknown_user_hidden_iff Base64.standard Sha256.hash Sample.server Probe.user _
    Sample.draws.storedKey Sample.draws.serverKey Probe.under Probe.unknown fun h hh => ?_).mpr ?_
  · obtain ⟨salt, -, rfl⟩ := List.mem_map.mp hh
    exact Probe.not_proves _ salt
  · intro h hh h' hh' _ _
    have hsame : ∀ x ∈ [Probe.saltOne, Probe.saltOne].map Probe.handshake,
        x = Probe.handshake Probe.saltOne := by simp
    rw [hsame h hh, hsame h' hh']

end RamaPg.Scram
