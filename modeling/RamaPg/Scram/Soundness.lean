import RamaPg.Scram.Agreement

/-!
# Soundness of the SCRAM server

Whatever the client sends, `authenticate` succeeds, and sends its own signature, only after an
exchange in which the client proved the key: `Accepted` says so of the bytes exchanged. The nonce
compared is the last `r=` field of the part of the client-final message that is signed, the nonce it
is compared with the first `r=` field of the client-first message that is signed, followed by the
server's own.
-/

namespace RamaPg.Scram

open RamaPg.Lib RamaPg.Codec RamaPg.Startup RamaPg.Proxy

/-! ## What the parsers accept -/

theorem orFail_ok {α : Type} {x : Except BoxError α} {a : α} (h : orFail x = .ok a) :
    x = .ok a := by
  cases x <;> cases h; rfl

theorem except_bind_ok {ε α β : Type} {x : Except ε α} {f : α → Except ε β} {b : β}
    (h : x >>= f = .ok b) : ∃ a, x = .ok a ∧ f a = .ok b := by
  cases x with
  | error e => cases h
  | ok a => exact ⟨a, rfl, h⟩

theorem expectSasl_ok {m : RawMessage} {u : Unit} (h : expectSasl m = .ok u) :
    m.tag = Tag.passwordMessage := by
  unfold expectSasl at h
  split at h
  · assumption
  · cases h

theorem parseSaslInitial_ok {payload mech data : Bytes}
    (h : parseSaslInitial payload = .ok (mech, data)) :
    ∃ len : Bytes, len.length = 4 ∧ 0 ∉ mech ∧ payload = mech ++ 0 :: (len ++ data) := by
  unfold parseSaslInitial at h
  split at h
  · cases h
  · rename_i mech' rest hs
    obtain ⟨rfl, hn⟩ := splitOnce_eq_some hs
    split at h
    · split at h
      · rename_i a b c d data'
        cases h
        exact ⟨[a, b, c, d], rfl, hn, rfl⟩
      · cases h
    · cases h

/-- The header of a client-first message ends at its second comma. -/
def IsGs2Header (header : Bytes) : Prop :=
  ∃ flag authzid, header = flag ++ 44 :: (authzid ++ [44]) ∧ 44 ∉ flag ∧ 44 ∉ authzid

theorem parseClientFirst_ok {data : Bytes} {first : ClientFirst}
    (h : parseClientFirst data = .ok first) :
    data = first.gs2Header ++ first.bare ∧ IsGs2Header first.gs2Header ∧
      fieldOf (ascii "r=") first.bare = some first.clientNonce := by
  unfold parseClientFirst at h
  split at h
  · split at h
    · cases h
    · rename_i flag afterFlag hs
      obtain ⟨rfl, hf⟩ := splitOnce_eq_some hs
      split at h
      · cases h
      · split at h
        · cases h
        · rename_i authzid bare hs'
          obtain ⟨rfl, ha⟩ := splitOnce_eq_some hs'
          split at h
          · cases h
          · rename_i nonce hr
            cases h
            exact ⟨by simp, ⟨flag, authzid, rfl, hf, ha⟩, hr⟩
  · cases h

/-- The loop keeps the last `r=` field: no field starts with `c=` and with `r=`. -/
theorem foldl_scanField (fields : List Bytes) : ∀ acc : Option Bytes × Option Bytes,
    (fields.foldl scanField acc).2 =
      ((fields.filterMap (stripPrefix (ascii "r="))).getLast?).or acc.2 := by
  induction fields with
  | nil => intro acc; rfl
  | cons field fields ih =>
    intro acc
    rw [List.foldl_cons, ih, List.filterMap_cons]
    unfold scanField
    cases hc : stripPrefix (ascii "c=") field with
    | some v =>
      have hr : stripPrefix (ascii "r=") field = none := by
        rw [stripPrefix_eq_some.mp hc]; rfl
      rw [hr]
    | none =>
      cases hr : stripPrefix (ascii "r=") field with
      | none => rfl
      | some v =>
        simp only [List.getLast?_cons]
        cases (List.filterMap (stripPrefix (ascii "r=")) fields).getLast? <;> rfl

theorem parseClientFinal_ok {s : Bytes} {final : ClientFinal} (h : parseClientFinal s = .ok final) :
    rsplitOnce (ascii ",p=") s = some (final.withoutProof, final.proof) ∧
      lastFieldOf (ascii "r=") final.withoutProof = some final.nonce := by
  unfold parseClientFinal at h
  split at h
  · cases h
  · rename_i withoutProof proof hs
    split at h
    · cases h
    · cases h
    · rename_i cb nonce hf
      cases h
      refine ⟨hs, ?_⟩
      have hl := foldl_scanField (withoutProof.splitOn 44) (none, none)
      rw [hf] at hl
      rw [lastFieldOf]
      simpa using hl.symm

/-! ## What the checks accept -/

theorem checkInitial_ok {cb : Option Bytes} {m : RawMessage} {first : ClientFirst}
    {expected : Bytes} (h : checkInitial cb m = .ok (first, expected)) :
    m.tag = Tag.passwordMessage ∧ ∃ mech data, parseSaslInitial m.payload = .ok (mech, data) ∧
      parseClientFirst data = .ok first := by
  obtain ⟨_, h₁, h⟩ := except_bind_ok h
  obtain ⟨⟨mech, data⟩, h₂, h⟩ := except_bind_ok h
  obtain ⟨_, -, h⟩ := except_bind_ok h
  obtain ⟨first', h₄, h⟩ := except_bind_ok h
  obtain ⟨_, -, h⟩ := except_bind_ok h
  cases h
  exact ⟨expectSasl_ok h₁, mech, data, orFail_ok h₂, orFail_ok h₄⟩

section

variable {b64 : Base64} {sha256 : Bytes → Key}

theorem decode64_ok {text bs : Bytes} (h : decode64 b64 text = .ok bs) : b64.decode text = some bs := by
  unfold decode64 at h
  split at h <;> cases h
  assumption

theorem checkProof_ok {known : Bool} {secret : ScramSecret} {message proof : Bytes} {clientKey : Key}
    (h : checkProof sha256 known secret message proof = .ok clientKey) :
    known = true ∧ sha256 clientKey.toList = secret.storedKey ∧ ∃ p : Key, proof = p.toList ∧
      clientKey = xorKey p (hmacSha256 sha256 secret.storedKey.toList message) := by
  unfold checkProof at h
  split at h
  · cases h
  · rename_i p hp
    simp only at h
    split at h
    · rename_i hk
      cases h
      exact ⟨hk.1, hk.2, p, toKey_eq_some hp, rfl⟩
    · cases h

theorem checkFinal_ok {known : Bool} {secret : ScramSecret} {first : ClientFirst}
    {expected fullNonce challenge : Bytes} {m : RawMessage} {clientKey : Key} {message : Bytes}
    (h : checkFinal b64 sha256 known secret first expected fullNonce challenge m =
      .ok (clientKey, message)) :
    m.tag = Tag.passwordMessage ∧ ∃ final proof, parseClientFinal m.payload = .ok final ∧
      final.nonce = fullNonce ∧ b64.decode final.proof = some proof ∧
      message = authMessage first.bare challenge final.withoutProof ∧
      checkProof sha256 known secret message proof = .ok clientKey := by
  obtain ⟨_, h₁, h⟩ := except_bind_ok h
  split at h
  · obtain ⟨final, h₂, h⟩ := except_bind_ok h
    split at h
    · rename_i hn
      obtain ⟨_, -, h⟩ := except_bind_ok h
      split at h
      · obtain ⟨proof, h₄, h⟩ := except_bind_ok h
        obtain ⟨key, h₅, h⟩ := except_bind_ok h
        cases h
        exact ⟨expectSasl_ok h₁, final, proof, orFail_ok h₂, hn, decode64_ok h₄, rfl, h₅⟩
      · cases h
    · cases h
  · cases h

/-! ## Accepted exchanges -/

/-- The parts of the two client messages, the challenge between them and the verifier. -/
structure Transcript where
  secret : ScramSecret
  initial : RawMessage
  mech : Bytes
  len : Bytes
  gs2Header : Bytes
  bare : Bytes
  clientNonce : Bytes
  challenge : Bytes
  response : RawMessage
  withoutProof : Bytes
  proofText : Bytes
  proof : Key

/-- An exchange the server accepts with `keys`. The events are those of the run, the payloads are
cut into the parts the definitions below speak of, and nothing of them is left out. -/
structure Accepted (b64 : Base64) (sha256 : Bytes → Key) (auth : ScramSha256) (ctx : AuthContext)
    (draws : Draws) (es : List (Event Int RawMessage)) (keys : ScramKeys) (t : Transcript) :
    Prop where
  known : auth.store (ScramSha256.lookup ctx) = .ok (some t.secret)
  events : ∃ rest, es = .sent (Message.authenticationSasl (offered auth.channelBinding)) ::
    .received maxAuthMessageLen t.initial :: .sent (Message.authenticationSaslContinue t.challenge) ::
    .received maxAuthMessageLen t.response :: rest
  initial_tag : t.initial.tag = Tag.passwordMessage
  initial_payload : t.initial.payload = t.mech ++ 0 :: (t.len ++ (t.gs2Header ++ t.bare)) ∧
    0 ∉ t.mech ∧ t.len.length = 4 ∧ IsGs2Header t.gs2Header
  client_nonce : fieldOf (ascii "r=") t.bare = some t.clientNonce
  challenge : t.challenge =
    serverFirst b64 (t.clientNonce ++ randomNonce b64 draws.nonce) t.secret
  response_tag : t.response.tag = Tag.passwordMessage
  response_payload : t.response.payload = t.withoutProof ++ ascii ",p=" ++ t.proofText ∧
    rsplitOnce (ascii ",p=") t.response.payload = some (t.withoutProof, t.proofText)
  full_nonce : lastFieldOf (ascii "r=") t.withoutProof =
    some (t.clientNonce ++ randomNonce b64 draws.nonce)
  proof : b64.decode t.proofText = some t.proof.toList
  stored_key : keys.storedKey = t.secret.storedKey
  server_key : keys.serverKey = t.secret.serverKey
  client_key : keys.clientKey = xorKey t.proof (hmacSha256 sha256 t.secret.storedKey.toList
    (t.bare ++ ascii "," ++ t.challenge ++ ascii "," ++ t.withoutProof))
  hash : sha256 keys.clientKey.toList = keys.storedKey

/-- No `AuthenticationSASLFinal` was sent, not even begun. -/
def NoFinal (es : List (Event Int RawMessage)) : Prop :=
  ∀ ev ∈ es, ∀ bs, ev.written = some bs → ¬ IsSaslFinal bs

theorem noFinal_nil : NoFinal [] := nofun

theorem noFinal_received (q : Int) (m : RawMessage) {es : List (Event Int RawMessage)}
    (h : NoFinal es) : NoFinal (.received q m :: es) := by
  intro ev hev bs hbs
  rcases List.mem_cons.mp hev with rfl | hev
  · cases hbs
  · exact h ev hev bs hbs

theorem noFinal_sent {bs : Bytes} (hbs : ¬ IsSaslFinal bs) {es : List (Event Int RawMessage)}
    (h : NoFinal es) : NoFinal (.sent bs :: es) := by
  intro ev hev bs' hw
  rcases List.mem_cons.mp hev with rfl | hev
  · cases hw; exact hbs
  · exact h ev hev bs' hw

theorem noFinal_torn {bs : Bytes} (hbs : ¬ IsSaslFinal bs) (part : Bytes) :
    NoFinal [.torn bs part] := by
  intro ev hev bs' hw
  obtain rfl := List.mem_singleton.mp hev
  cases hw; exact hbs

/-- Nothing that reaches this point: no success and no server signature. -/
def Quiet (es : List (Event Int RawMessage)) (r : Option (Except BoxError ClientAuth)) : Prop :=
  Unfinished r ∧ NoFinal es

variable {es : List (Event Int RawMessage)} {r : Option (Except BoxError ClientAuth)}

/-- A write that is no final message: it stops there, or the rest runs on. -/
theorem runs_write {bs : Bytes} {k : Io ClientAuth} (hbs : ¬ IsSaslFinal bs)
    (h : Runs (.write bs k) es r) : Quiet es r ∨ ∃ es', es = .sent bs :: es' ∧ Runs k es' r := by
  rcases h.write_inv with ⟨hu, rfl | ⟨part, rfl⟩⟩ | h
  · exact .inl ⟨hu, noFinal_nil⟩
  · exact .inl ⟨hu, noFinal_torn hbs part⟩
  · exact .inr h

theorem runs_read {q : Int} {k : RawMessage → Io ClientAuth} (h : Runs (.read q k) es r) :
    Quiet es r ∨ ∃ m es', es = .received q m :: es' ∧ Runs (k m) es' r := by
  rcases h.read_inv with ⟨hu, rfl⟩ | h
  · exact .inl ⟨hu, noFinal_nil⟩
  · exact .inr h

theorem authFailed_not_final : ¬ IsSaslFinal authFailed := by
  rintro ⟨data, h⟩
  exact frame_tag_ne (by decide) h

theorem runs_error {e : BoxError} (h : Runs (.done (.error e) : Io ClientAuth) es r) :
    Quiet es r := by
  obtain ⟨rfl, rfl | rfl⟩ := h.done_inv
  · exact ⟨unfinished_none, noFinal_nil⟩
  · exact ⟨unfinished_error e, noFinal_nil⟩

/-- A check that fails ends the exchange quietly. -/
theorem runs_checked {α : Type} {c : Except Refusal α} {f : α → Io ClientAuth}
    (h : Runs (checked c >>= f) es r) : Quiet es r ∨ ∃ a, c = .ok a ∧ Runs (f a) es r := by
  cases c with
  | ok a => exact .inr ⟨a, rfl, h⟩
  | error ref =>
    left
    cases ref with
    | fail e => exact runs_error h
    | deny e =>
      rcases runs_write authFailed_not_final h with hq | ⟨es', rfl, h'⟩
      · exact hq
      · obtain ⟨hu, hn⟩ := runs_error h'
        exact ⟨hu, noFinal_sent authFailed_not_final hn⟩

theorem authenticationSasl_not_final (mechs : List Bytes) :
    ¬ IsSaslFinal (Message.authenticationSasl mechs) := by
  rintro ⟨data, h⟩
  rw [Message.authenticationSasl, List.append_assoc] at h
  exact absurd (@Message.saslMessage_inj 10 12 _ _ (by decide) (by decide) h) (by decide)

theorem authenticationSaslContinue_not_final (data : Bytes) :
    ¬ IsSaslFinal (Message.authenticationSaslContinue data) := by
  rintro ⟨data', h⟩
  exact absurd (@Message.saslMessage_inj 11 12 _ _ (by decide) (by decide) h) (by decide)

theorem Quiet.sent {bs : Bytes} (hbs : ¬ IsSaslFinal bs) (h : Quiet es r) :
    Quiet (.sent bs :: es) r := ⟨h.1, noFinal_sent hbs h.2⟩

theorem Quiet.received (q : Int) (m : RawMessage) (h : Quiet es r) :
    Quiet (.received q m :: es) r := ⟨h.1, noFinal_received q m h.2⟩

/-- An exchange stays quiet, or both checks passed and the signature is being sent. -/
theorem exchange_cases {auth : ScramSha256} {known : Bool} {secret : ScramSecret}
    {serverNonce : Bytes} (h : Runs (auth.exchange b64 sha256 known secret serverNonce) es r) :
    Quiet es r ∨ ∃ initial first expected response clientKey message es' k,
      checkInitial auth.channelBinding initial = .ok (first, expected) ∧
      checkFinal b64 sha256 known secret first expected (first.clientNonce ++ serverNonce)
        (serverFirst b64 (first.clientNonce ++ serverNonce) secret) response =
          .ok (clientKey, message) ∧
      es = .sent (Message.authenticationSasl (offered auth.channelBinding)) ::
        .received maxAuthMessageLen initial ::
        .sent (Message.authenticationSaslContinue
          (serverFirst b64 (first.clientNonce ++ serverNonce) secret)) ::
        .received maxAuthMessageLen response :: es' ∧
      Runs (.write k (.done (.ok (.terminated (.scram
        ⟨clientKey, secret.storedKey, secret.serverKey⟩))))) es' r := by
  rcases runs_write (authenticationSasl_not_final _) h with hq | ⟨es₁, rfl, h₁⟩
  · exact .inl hq
  rcases runs_read h₁ with hq | ⟨initial, es₂, rfl, h₂⟩
  · exact .inl (hq.sent (authenticationSasl_not_final _))
  rcases runs_checked h₂ with hq | ⟨⟨first, expected⟩, hi, h₃⟩
  · exact .inl ((hq.received _ _).sent (authenticationSasl_not_final _))
  rcases runs_write (authenticationSaslContinue_not_final _) h₃ with hq | ⟨es₃, rfl, h₄⟩
  · exact .inl ((hq.received _ _).sent (authenticationSasl_not_final _))
  rcases runs_read h₄ with hq | ⟨response, es₄, rfl, h₅⟩
  · exact .inl (((hq.sent (authenticationSaslContinue_not_final _)).received _ _).sent
      (authenticationSasl_not_final _))
  rcases runs_checked h₅ with hq | ⟨⟨clientKey, message⟩, hf, h₆⟩
  · exact .inl ((((hq.received _ _).sent (authenticationSaslContinue_not_final _)).received _ _).sent
      (authenticationSasl_not_final _))
  exact .inr ⟨initial, first, expected, response, clientKey, message, es₄, _, hi, hf, rfl, h₆⟩

theorem authMessage_eq (bare challenge withoutProof : Bytes) :
    authMessage bare challenge withoutProof =
      bare ++ ascii "," ++ challenge ++ ascii "," ++ withoutProof := by
  have h : ascii "," = [44] := by decide
  simp [authMessage, h]

/-- A run of the server is quiet, or its exchange is accepted with the keys it returns. -/
theorem authenticate_cases {auth : ScramSha256} {ctx : AuthContext} {draws : Draws}
    (h : Runs (auth.authenticate b64 sha256 ctx draws) es r) :
    Quiet es r ∨ ∃ keys t, Accepted b64 sha256 auth ctx draws es keys t ∧
      ∀ a, r = some (.ok a) → a = .terminated (.scram keys) := by
  rw [ScramSha256.authenticate] at h
  cases hstore : auth.store (ScramSha256.lookup ctx) with
  | error e => rw [hstore] at h; exact .inl (runs_error h)
  | ok answer =>
    rw [hstore, Prog.lift_ok_bind] at h
    rcases exchange_cases h with hq | ⟨initial, first, expected, response, clientKey, message, es', k,
      hi, hf, rfl, hw⟩
    · exact .inl hq
    right
    obtain ⟨hit, mech, data, hp, hcf⟩ := checkInitial_ok hi
    obtain ⟨len, hlen, hmech, hpay⟩ := parseSaslInitial_ok hp
    obtain ⟨rfl, hgs2, hnonce⟩ := parseClientFirst_ok hcf
    obtain ⟨hrt, final, proof, hpf, hfn, hdec, rfl, hcp⟩ := checkFinal_ok hf
    obtain ⟨hcut, hlast⟩ := parseClientFinal_ok hpf
    obtain ⟨hknown, hhash, p, rfl, hkey⟩ := checkProof_ok hcp
    obtain ⟨secret, rfl⟩ := Option.isSome_iff_exists.mp hknown
    refine ⟨⟨clientKey, secret.storedKey, secret.serverKey⟩,
      ⟨secret, initial, mech, len, first.gs2Header, first.bare, first.clientNonce,
        serverFirst b64 (first.clientNonce ++ randomNonce b64 draws.nonce) secret, response,
        final.withoutProof, final.proof, p⟩, ?_, ?_⟩
    · exact {
        known := hstore
        events := ⟨es', rfl⟩
        initial_tag := hit
        initial_payload := ⟨hpay, hmech, hlen, hgs2⟩
        client_nonce := hnonce
        challenge := rfl
        response_tag := hrt
        response_payload := ⟨rsplitOnce_eq_some hcut, hcut⟩
        full_nonce := by rw [hlast, hfn]
        proof := hdec
        stored_key := rfl
        server_key := rfl
        client_key := by rw [← authMessage_eq]; exact hkey
        hash := hhash }
    · rintro a rfl
      rcases hw.write_inv with ⟨hu, -⟩ | ⟨es'', -, hd⟩
      · exact (hu a rfl).elim
      · obtain ⟨-, hr | hr⟩ := hd.done_inv
        · cases hr
        · cases hr; rfl

/-! ## Nonces -/

/-- The nonce of the client-first message in a `SASLInitialResponse`. -/
def firstNonce (payload : Bytes) : Option Bytes := do
  let (_, rest) ← splitOnce 0 payload
  let (_, afterFlag) ← splitOnce 44 (rest.drop 4)
  let (_, bare) ← splitOnce 44 afterFlag
  fieldOf (ascii "r=") bare

/-- The full nonce a client-final message was made for. -/
def finalNonce (payload : Bytes) : Option Bytes := do
  let (withoutProof, _) ← rsplitOnce (ascii ",p=") payload
  lastFieldOf (ascii "r=") withoutProof

variable {auth : ScramSha256} {ctx : AuthContext} {draws : Draws} {keys : ScramKeys}
  {t : Transcript}

theorem Accepted.firstNonce (h : Accepted b64 sha256 auth ctx draws es keys t) :
    firstNonce t.initial.payload = some t.clientNonce := by
  obtain ⟨hp, hm, hl, flag, authzid, hg, hf, ha⟩ := h.initial_payload
  have hdrop : (t.len ++ (t.gs2Header ++ t.bare)).drop 4 = t.gs2Header ++ t.bare := by
    rw [← hl, List.drop_left]
  have hs : splitOnce 44 (t.gs2Header ++ t.bare) = some (flag, authzid ++ 44 :: t.bare) := by
    rw [hg]
    simpa using splitOnce_append hf (authzid ++ 44 :: t.bare)
  rw [Scram.firstNonce, hp, splitOnce_append hm]
  simp only [Option.bind_eq_bind, Option.bind_some, hdrop, hs, splitOnce_append ha, h.client_nonce]

theorem Accepted.finalNonce (h : Accepted b64 sha256 auth ctx draws es keys t) :
    finalNonce t.response.payload = some (t.clientNonce ++ randomNonce b64 draws.nonce) := by
  rw [Scram.finalNonce, h.response_payload.2]
  exact h.full_nonce

/-- **Soundness and replay resistance.** In every run of `authenticate`: a success returns keys of
an accepted exchange; so does every exchange in which a server signature is sent, or begun; with no
verifier for the user there is neither; and with a client-final message made for another nonce than
this exchange's there is neither. -/
theorem authenticate_sound (h : Runs (auth.authenticate b64 sha256 ctx draws) es r) :
    (∀ a, r = some (.ok a) → ∃ keys t, a = .terminated (.scram keys) ∧
      Accepted b64 sha256 auth ctx draws es keys t) ∧
    (∀ ev ∈ es, ∀ bs, ev.written = some bs → IsSaslFinal bs →
      ∃ keys t, Accepted b64 sha256 auth ctx draws es keys t) ∧
    ((∀ secret, auth.store (ScramSha256.lookup ctx) ≠ .ok (some secret)) → Quiet es r) ∧
    ∀ e₁ q₁ initial e₂ q₂ response rest,
      es = e₁ :: .received q₁ initial :: e₂ :: .received q₂ response :: rest →
      finalNonce response.payload ≠
        (firstNonce initial.payload).map (· ++ randomNonce b64 draws.nonce) → Quiet es r := by
  rcases authenticate_cases h with hq | ⟨keys, t, hacc, hr⟩
  · refine ⟨fun a ha => (hq.1 a ha).elim, fun ev hev bs hbs hf => (hq.2 ev hev bs hbs hf).elim,
      fun _ => hq, fun _ _ _ _ _ _ _ _ _ => hq⟩
  · refine ⟨fun a ha => ⟨keys, t, hr a ha, hacc⟩, fun _ _ _ _ _ => ⟨keys, t, hacc⟩,
      fun hno => (hno _ hacc.known).elim, ?_⟩
    intro e₁ q₁ initial e₂ q₂ response rest hes hne
    obtain ⟨rest', hev⟩ := hacc.events
    rw [hes] at hev
    simp only [List.cons.injEq, Event.received.injEq] at hev
    obtain ⟨-, ⟨-, h₁⟩, -, ⟨-, h₂⟩, -⟩ := hev
    rw [h₁, h₂, hacc.firstNonce, hacc.finalNonce] at hne
    exact (hne rfl).elim

end

/-- A run in which the client knew the password. -/
theorem authenticate_sound_for_alice :
    ∃ keys t, ClientAuth.terminated (.scram Sample.keys) = .terminated (.scram keys) ∧
      Accepted Base64.standard Sha256.hash Sample.server Sample.context Sample.draws Sample.run.1
        keys t :=
  (authenticate_sound (Prog.feed_runs _ Sample.messages)).1 _ Sample.run_ok

end RamaPg.Scram
