import RamaPg.Lib.Sequence
import RamaPg.Proxy.Direct
import RamaPg.Scram.Soundness

/-!
# Soundness of the SCRAM client

Whatever the server sends, `runScram` succeeds only after a challenge that extends the client's own
nonce and a final message with the signature of this exchange, and it writes a proof only for such a
challenge. In direct forwarding this stands in front of the relay: with keys of the client, no frame
of a backend reaches the client before the backend has proved that it holds the server key.
-/

namespace RamaPg.Scram

open RamaPg.Lib RamaPg.Codec RamaPg.Startup RamaPg.Proxy

/-! ## What the client accepts -/

theorem okOr_ok {α : Type} {e : BoxError} {x : Option α} {a : α} (h : okOr e x = .ok a) :
    x = some a := by
  cases x <;> cases h; rfl

theorem expectAuth_ok {m : RawMessage} {subtype : Int} {what : String} {u : Unit}
    (h : expectAuth m subtype what = .ok u) :
    m.tag = Tag.authentication ∧ subtypeOf m.payload = some subtype := by
  unfold expectAuth at h
  split at h
  · rename_i htag
    split at h
    · rename_i hsub
      exact ⟨htag, hsub⟩
    · cases h
  · cases h

section

variable (b64 : Base64) (sha256 : Bytes → Key) (draw : Vector UInt8 18)

/-- The message is a challenge to the client that drew `draw`. -/
structure Challenged (cont : RawMessage) (c : Challenge) : Prop where
  kind : cont.tag = Tag.authentication ∧ subtypeOf cont.payload = some Auth.saslContinue
  text : cont.payload.drop 4 = c.text ∧ isUtf8 c.text = true
  nonce : fieldOf (ascii "r=") c.text = some c.nonce
  own_nonce : randomNonce b64 draw <+: c.nonce
  salt : ∃ text, fieldOf (ascii "s=") c.text = some text ∧ b64.decode text = some c.salt
  iterations : ∃ text, fieldOf (ascii "i=") c.text = some text ∧
    parseU32 text = some c.iterations

/-- The `AuthMessage` of an exchange with this challenge. -/
def signedText (c : Challenge) : Bytes :=
  authMessage (clientFirstBare (randomNonce b64 draw)) c.text (clientFinalWithoutProof b64 c.nonce)

/-- The message carries the signature of that exchange under `serverKey`. -/
structure Signed (serverKey : Key) (c : Challenge) (final : RawMessage) : Prop where
  kind : final.tag = Tag.authentication ∧ subtypeOf final.payload = some Auth.saslFinal
  signature : ∃ text, fieldOf (ascii "v=") (final.payload.drop 4) = some text ∧
    b64.decode text = some (hmacSha256 sha256 serverKey.toList (signedText b64 draw c)).toList

/-- The client's first message. -/
def clientInitial : Bytes :=
  saslInitialResponse mechanism (ascii "n,," ++ clientFirstBare (randomNonce b64 draw))

/-- Its proof for a challenge. -/
def clientResponse (keys : ScramKeys) (c : Challenge) : Bytes :=
  saslResponse (clientFinal b64 sha256 keys c.nonce (signedText b64 draw c))

end

section

variable {b64 : Base64} {sha256 : Bytes → Key} {draw : Vector UInt8 18}

theorem parseChallenge_ok {cont : RawMessage} {c : Challenge}
    (h : parseChallenge b64 (randomNonce b64 draw) cont = .ok c) : Challenged b64 draw cont c := by
  obtain ⟨_, hkind, h⟩ := except_bind_ok h
  simp only at h
  split at h
  · rename_i hutf8
    obtain ⟨nonce, hr, h⟩ := except_bind_ok h
    split at h
    · rename_i hpre
      obtain ⟨saltText, hs, h⟩ := except_bind_ok h
      obtain ⟨salt, hsalt, h⟩ := except_bind_ok h
      obtain ⟨count, hi, h⟩ := except_bind_ok h
      obtain ⟨iterations, hiter, h⟩ := except_bind_ok h
      cases h
      exact {
        kind := expectAuth_ok hkind
        text := ⟨rfl, hutf8⟩
        nonce := okOr_ok hr
        own_nonce := List.isPrefixOf_iff_prefix.mp hpre
        salt := ⟨saltText, okOr_ok hs, okOr_ok hsalt⟩
        iterations := ⟨count, okOr_ok hi, okOr_ok hiter⟩ }
    · cases h
  · cases h

theorem checkServerFinal_ok {keys : ScramKeys} {c : Challenge} {final : RawMessage} {u : Unit}
    (h : checkServerFinal b64 sha256 keys (signedText b64 draw c) final = .ok u) :
    Signed b64 sha256 draw keys.serverKey c final := by
  obtain ⟨_, hkind, h⟩ := except_bind_ok h
  simp only at h
  split at h
  · obtain ⟨text, hv, h⟩ := except_bind_ok h
    obtain ⟨signature, hdec, h⟩ := except_bind_ok h
    split at h
    · rename_i heq
      exact ⟨expectAuth_ok hkind, text, okOr_ok hv, heq ▸ okOr_ok hdec⟩
    · cases h
  · cases h

/-! ## Every run -/

/-- What is written in a run is the first message, or the proof for a challenge that was read. -/
def WritesOnly (b64 : Base64) (sha256 : Bytes → Key) (draw : Vector UInt8 18)
    (derive : Bytes → UInt32 → ScramKeys) (es : List (Event Int RawMessage)) : Prop :=
  ∀ bs ∈ es.filterMap Event.written, bs = clientInitial b64 draw ∨
    ∃ cont c, Event.received maxMessageLen cont ∈ es ∧ Challenged b64 draw cont c ∧
      bs = clientResponse b64 sha256 draw (derive c.salt c.iterations) c

/-- An exchange the client accepts, with what the server proved in it. -/
structure Proved (b64 : Base64) (sha256 : Bytes → Key) (draw : Vector UInt8 18)
    (derive : Bytes → UInt32 → ScramKeys) (es : List (Event Int RawMessage)) (cont final : RawMessage)
    (c : Challenge) : Prop where
  events : es = [.sent (clientInitial b64 draw), .received maxMessageLen cont,
    .sent (clientResponse b64 sha256 draw (derive c.salt c.iterations) c),
    .received maxMessageLen final]
  challenged : Challenged b64 draw cont c
  signed : Signed b64 sha256 draw (derive c.salt c.iterations).serverKey c final

variable {derive : Bytes → UInt32 → ScramKeys} {sasl : RawMessage}
  {es : List (Event Int RawMessage)} {r : Option (Except BoxError Unit)}

theorem writesOnly_nil : WritesOnly b64 sha256 draw derive [] := by
  intro bs hbs
  cases hbs

/-- What is read later takes no proof back. -/
theorem WritesOnly.received (h : WritesOnly b64 sha256 draw derive es) (q : Int) (m : RawMessage) :
    WritesOnly b64 sha256 draw derive (es ++ [.received q m]) := by
  intro bs hbs
  rw [List.filterMap_append, List.mem_append] at hbs
  rcases hbs with hbs | hbs
  · refine (h bs hbs).imp_right ?_
    rintro ⟨cont, c, hmem, hc, rfl⟩
    exact ⟨cont, c, List.mem_append_left _ hmem, hc, rfl⟩
  · cases hbs

/-- One more write, whole or in part. -/
theorem WritesOnly.write (h : WritesOnly b64 sha256 draw derive es) {ev : Event Int RawMessage}
    {bs : Bytes} (hev : ev.written = some bs)
    (hbs : bs = clientInitial b64 draw ∨ ∃ cont c, Event.received maxMessageLen cont ∈ es ∧
      Challenged b64 draw cont c ∧ bs = clientResponse b64 sha256 draw (derive c.salt c.iterations) c) :
    WritesOnly b64 sha256 draw derive (es ++ [ev]) := by
  intro bs' hbs'
  have hmono : (bs' = clientInitial b64 draw ∨ ∃ cont c, Event.received maxMessageLen cont ∈ es ∧
      Challenged b64 draw cont c ∧
        bs' = clientResponse b64 sha256 draw (derive c.salt c.iterations) c) →
      bs' = clientInitial b64 draw ∨ ∃ cont c, Event.received maxMessageLen cont ∈ es ++ [ev] ∧
        Challenged b64 draw cont c ∧
          bs' = clientResponse b64 sha256 draw (derive c.salt c.iterations) c := by
    refine Or.imp_right ?_
    rintro ⟨cont, c, hmem, hc⟩
    exact ⟨cont, c, List.mem_append_left _ hmem, hc⟩
  rw [List.filterMap_append, List.mem_append] at hbs'
  rcases hbs' with hbs' | hbs'
  · exact hmono (h bs' hbs')
  · rw [List.filterMap_cons, hev] at hbs'
    obtain rfl := List.mem_singleton.mp hbs'
    exact hmono hbs

/-- How far a run of the client gets. -/
theorem runScram_cases (h : Runs (runScram b64 sha256 sasl derive draw) es r) :
    WritesOnly b64 sha256 draw derive es ∧
      (Unfinished r ∨ ∃ cont final c, Proved b64 sha256 draw derive es cont final c) := by
  rcases h.lift_inv with ⟨hu, rfl⟩ | ⟨_, -, h⟩
  · exact ⟨writesOnly_nil, .inl hu⟩
  simp only at h
  split at h
  · rcases Runs.write_inv h with ⟨hu, rfl | ⟨part, rfl⟩⟩ | ⟨es₁, rfl, h₁⟩
    · exact ⟨writesOnly_nil, .inl hu⟩
    · exact ⟨writesOnly_nil.write rfl (.inl rfl), .inl hu⟩
    have hinit : WritesOnly b64 sha256 draw derive [.sent (clientInitial b64 draw)] :=
      writesOnly_nil.write rfl (.inl rfl)
    rcases Runs.read_inv h₁ with ⟨hu, rfl⟩ | ⟨cont, es₂, rfl, h₂⟩
    · exact ⟨hinit, .inl hu⟩
    have hread := hinit.received maxMessageLen cont
    rcases Runs.lift_inv (x := parseChallenge b64 (randomNonce b64 draw) cont) h₂ with
      ⟨hu, rfl⟩ | ⟨c, hc, h₃⟩
    · exact ⟨hread, .inl hu⟩
    have hchal := parseChallenge_ok hc
    have hproof : ∀ ev : Event Int RawMessage, ev.written =
        some (clientResponse b64 sha256 draw (derive c.salt c.iterations) c) →
          WritesOnly b64 sha256 draw derive ([.sent (clientInitial b64 draw),
            .received maxMessageLen cont] ++ [ev]) := fun ev hev =>
      hread.write hev (.inr ⟨cont, c, .tail _ (.head _), hchal, rfl⟩)
    rcases Runs.write_inv h₃ with ⟨hu, rfl | ⟨part, rfl⟩⟩ | ⟨es₃, rfl, h₄⟩
    · exact ⟨hread, .inl hu⟩
    · exact ⟨hproof _ rfl, .inl hu⟩
    rcases Runs.read_inv h₄ with ⟨hu, rfl⟩ | ⟨final, es₄, rfl, h₅⟩
    · exact ⟨hproof _ rfl, .inl hu⟩
    have hwrites := (hproof (.sent _) rfl).received maxMessageLen final
    obtain ⟨rfl, hr⟩ := Runs.done_inv h₅
    refine ⟨hwrites, ?_⟩
    cases hcheck : checkServerFinal b64 sha256 (derive c.salt c.iterations) (signedText b64 draw c)
        final with
    | error e =>
      have hr' : r = none ∨ r = some (.error e) := by rwa [← hcheck]
      rcases hr' with rfl | rfl
      · exact .inl unfinished_none
      · exact .inl (unfinished_error e)
    | ok u => exact .inr ⟨cont, final, c, rfl, hchal, checkServerFinal_ok hcheck⟩
  · obtain ⟨rfl, rfl | rfl⟩ := Runs.done_inv h
    · exact ⟨writesOnly_nil, .inl unfinished_none⟩
    · exact ⟨writesOnly_nil, .inl (unfinished_error _)⟩

/-! ## Other exchanges -/

/-- Exchanges with different nonces sign different texts. -/
theorem signedText_ne {draw' : Vector UInt8 18} (hne : draw' ≠ draw) (c c' : Challenge) :
    signedText b64 draw' c' ≠ signedText b64 draw c := by
  intro h
  have hlen : (clientFirstBare (randomNonce b64 draw')).length =
      (clientFirstBare (randomNonce b64 draw)).length := by
    simp only [clientFirstBare, List.length_append, length_randomNonce]
  have hbare : clientFirstBare (randomNonce b64 draw') = clientFirstBare (randomNonce b64 draw) :=
    (List.append_inj h hlen).1
  have hnonce : b64.encode draw'.toList = b64.encode draw.toList :=
    List.append_cancel_left hbare
  have hdraw : some draw'.toList = some draw.toList := by
    rw [← b64.decode_encode, hnonce, b64.decode_encode]
  exact hne (Vector.toList_inj.mp (Option.some.inj hdraw))

/-- A signature for two exchanges is one of two texts. -/
theorem Signed.collision {draw' : Vector UInt8 18} (hne : draw' ≠ draw) {serverKey : Key}
    {c c' : Challenge} {final : RawMessage} (h : Signed b64 sha256 draw serverKey c final)
    (h' : Signed b64 sha256 draw' serverKey c' final) :
    signedText b64 draw' c' ≠ signedText b64 draw c ∧
      hmacSha256 sha256 serverKey.toList (signedText b64 draw' c') =
        hmacSha256 sha256 serverKey.toList (signedText b64 draw c) := by
  obtain ⟨text, hv, hdec⟩ := h.signature
  obtain ⟨text', hv', hdec'⟩ := h'.signature
  obtain rfl : text = text' := by rw [hv] at hv'; cases hv'; rfl
  rw [hdec] at hdec'
  exact ⟨signedText_ne hne c c', (Vector.toList_inj.mp (Option.some.inj hdec')).symm⟩

/-- **Soundness of the client.** In every run of `runScram`, whatever the server sends: nothing is
written but the first message and a proof for a challenge that was read and extends the client's own
nonce; a success has read a final message with the signature of this exchange; and if that message
carries the signature of an exchange with another nonce, two texts have one HMAC. -/
theorem runScram_sound (h : Runs (runScram b64 sha256 sasl derive draw) es r) :
    WritesOnly b64 sha256 draw derive es ∧
    ∀ u, r = some (.ok u) → ∃ cont final c, Proved b64 sha256 draw derive es cont final c ∧
      ∀ draw' c', draw' ≠ draw →
        Signed b64 sha256 draw' (derive c.salt c.iterations).serverKey c' final →
          signedText b64 draw' c' ≠ signedText b64 draw c ∧
          hmacSha256 sha256 (derive c.salt c.iterations).serverKey.toList (signedText b64 draw' c') =
            hmacSha256 sha256 (derive c.salt c.iterations).serverKey.toList
              (signedText b64 draw c) := by
  obtain ⟨hwrites, hr⟩ := runScram_cases h
  refine ⟨hwrites, ?_⟩
  rintro u rfl
  rcases hr with hu | ⟨cont, final, c, hproved⟩
  · exact (hu u rfl).elim
  · exact ⟨cont, final, c, hproved, fun draw' c' hne hsig => hproved.signed.collision hne hsig⟩

end

namespace Sample

/-- The messages of the sample server. -/
def dialogue : List RawMessage :=
  serverMessages Base64.standard Sha256.hash none secret keys.serverKey
    (randomNonce Base64.standard clientDraw)
    (randomNonce Base64.standard clientDraw ++ randomNonce Base64.standard draws.nonce)

theorem feed_dialogue {keys' : Bytes → UInt32 → ScramKeys}
    (hkeys : keys' secret.salt secret.iterations = keys) (more : List RawMessage) :
    ((ioRead >>= fun sasl => runScram Base64.standard Sha256.hash sasl keys' clientDraw).feed
      (dialogue ++ more)).2 = (some (.ok ()), more) := by
  have h := @feed_runScram Base64.standard Sha256.hash none secret keys' clientDraw
    (randomNonce Base64.standard draws.nonce) (plain_randomNonce Base64.standard draws.nonce) more
  rw [hkeys] at h
  exact h

end Sample

theorem feed_ioRead {α : Type} (f : RawMessage → Io α) (m : RawMessage) (ms : List RawMessage) :
    ((ioRead >>= f).feed (m :: ms)).2 = ((f m).feed ms).2 := rfl

/-- The sample client against the sample server. -/
theorem runScram_sound_for_alice : ∃ sasl messages cont final c,
    Sample.dialogue = sasl :: messages ∧
    Proved Base64.standard Sha256.hash Sample.clientDraw
      (ScramKeys.fromPassword Sha256.hash Sample.password)
      ((runScram Base64.standard Sha256.hash sasl
        (ScramKeys.fromPassword Sha256.hash Sample.password) Sample.clientDraw).feed messages).1
      cont final c := by
  have hok := @Sample.feed_dialogue (ScramKeys.fromPassword Sha256.hash Sample.password) rfl []
  rw [List.append_nil] at hok
  obtain ⟨sasl, messages, hd⟩ : ∃ sasl messages, Sample.dialogue = sasl :: messages := ⟨_, _, rfl⟩
  rw [hd, feed_ioRead] at hok
  obtain ⟨cont, final, c, hproved, -⟩ :=
    (runScram_sound (Prog.runs_of_feed (congrArg Prod.fst hok))).2 () rfl
  exact ⟨sasl, messages, cont, final, c, hd, hproved⟩

section

variable {b64 : Base64} {sha256 : Bytes → Key} {draw : Vector UInt8 18}

/-! ## In front of the relay -/

/-- Without interaction the relay writes nothing to the backend. -/
theorem toBackend_relayStartup (clientKey : Option CancelKey) : ∀ ms client : List RawMessage,
    (relayStartup clientKey false ms client).toBackend = []
  | [], _ => rfl
  | m :: ms, client => by
    have ih := toBackend_relayStartup clientKey ms client
    rw [relayStartup.eq_def]
    simp only
    split
    · split
      · rfl
      · split
        · exact ih
        · split
          · rename_i hinteractive
            cases hinteractive
          · rfl
    · split
      · split
        · exact ih
        · exact ih
      · split
        · rfl
        · split
          · rfl
          · exact ih

/-- The relay takes over where the exchange has ended. -/
theorem result_reauthThenRelay {clientKey : Option CancelKey} {keys : ScramKeys}
    {backend rest client : List RawMessage}
    (h : ((ioRead >>= fun sasl => runScram b64 sha256 sasl (fun _ _ => keys) draw).feed backend).2 =
      (some (.ok ()), rest)) :
    (reauthThenRelay b64 sha256 draw clientKey keys backend client).result =
      (relayStartup clientKey false rest client).result := by
  unfold reauthThenRelay reauthUpstream
  split
  · rename_i hf
    rw [hf] at h
    cases h
    rfl
  · rename_i hf
    rw [hf] at h
    cases h
  · rename_i hf
    rw [hf] at h
    cases h

/-- **The backend proves its key first.** In a direct session with the keys of a SCRAM client, if
anything reaches the client, a backend key is recorded or the startup completes, the backend's first
three messages are an exchange in which it proved the server key; the client sees the relay of what
follows, and the backend nothing but the two messages of the exchange. -/
theorem reauthThenRelay_proved {clientKey : Option CancelKey} {keys : ScramKeys}
    {backend client : List RawMessage}
    (h : (reauthThenRelay b64 sha256 draw clientKey keys backend client).toClient ≠ [] ∨
      (reauthThenRelay b64 sha256 draw clientKey keys backend client).recorded ≠ none ∨
      (reauthThenRelay b64 sha256 draw clientKey keys backend client).result = some (.ok ())) :
    ∃ sasl cont final c rest, backend = sasl :: cont :: final :: rest ∧
      Challenged b64 draw cont c ∧ Signed b64 sha256 draw keys.serverKey c final ∧
      (reauthThenRelay b64 sha256 draw clientKey keys backend client).toClient =
        (relayStartup clientKey false rest client).toClient ∧
      (reauthThenRelay b64 sha256 draw clientKey keys backend client).toBackend =
        [clientInitial b64 draw, clientResponse b64 sha256 draw keys c] := by
  have hruns := Prog.feed_runs (reauthUpstream b64 sha256 keys draw) backend
  have hreads := Prog.feed_reads (reauthUpstream b64 sha256 keys draw) backend
  cases hf : (reauthUpstream b64 sha256 keys draw).feed backend with
  | mk es tail =>
    obtain ⟨r, rest⟩ := tail
    rw [hf] at hruns hreads
    unfold reauthThenRelay at h ⊢
    rw [hf] at h ⊢
    rcases r with - | (e | u)
    · rcases h with h | h | h
      · exact (h rfl).elim
      · exact (h rfl).elim
      · cases h
    · rcases h with h | h | h
      · exact (h rfl).elim
      · exact (h rfl).elim
      · cases h
    · obtain ⟨es₁, es₂, sasl, rfl, hread, hscram⟩ := Runs.bind_ok hruns
      rcases Runs.read_inv hread with ⟨hu, -⟩ | ⟨m, es', rfl, hdone⟩
      · exact (hu _ rfl).elim
      obtain ⟨rfl, hm | hm⟩ := Runs.done_inv hdone
      · cases hm
      obtain rfl : sasl = m := by cases hm; rfl
      obtain ⟨-, hok⟩ := runScram_cases hscram
      rcases hok with hu | ⟨cont, final, c, hproved⟩
      · exact (hu u rfl).elim
      have hes := hproved.events
      subst hes
      refine ⟨sasl, cont, final, c, rest, hreads.symm, hproved.challenged, hproved.signed, rfl, ?_⟩
      simp only [toBackend_relayStartup, List.append_nil]
      rfl

end

/-- The keys of the sample user against the sample server, which then completes the startup. -/
theorem reauthThenRelay_proved_for_alice : ∃ sasl cont final c rest,
    Sample.dialogue ++ [RawMessage.build Tag.authentication (i32ToBe Auth.ok),
      RawMessage.build Tag.readyForQuery [73]] = sasl :: cont :: final :: rest ∧
    Challenged Base64.standard Sample.clientDraw cont c ∧
    Signed Base64.standard Sha256.hash Sample.clientDraw Sample.keys.serverKey c final := by
  obtain ⟨done, hdone⟩ : ∃ ms, ms = [RawMessage.build Tag.authentication (i32ToBe Auth.ok),
    RawMessage.build Tag.readyForQuery [73]] := ⟨_, rfl⟩
  have hok := @Sample.feed_dialogue (fun _ _ => Sample.keys) rfl done
  have hrelayed : (relayStartup none false done []).result = some (.ok ()) := by
    rw [hdone]
    rfl
  have hrelay : (reauthThenRelay Base64.standard Sha256.hash Sample.clientDraw none Sample.keys
      (Sample.dialogue ++ done) []).result = some (.ok ()) := by
    rw [result_reauthThenRelay hok]
    exact hrelayed
  rw [← hdone]
  obtain ⟨sasl, cont, final, c, rest, hbackend, hchallenged, hsigned, -⟩ :=
    reauthThenRelay_proved (.inr (.inr hrelay))
  exact ⟨sasl, cont, final, c, rest, hbackend, hchallenged, hsigned⟩

end RamaPg.Scram
