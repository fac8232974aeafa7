import RamaPg.Scram.Client
import RamaPg.Lib.Sha256

/-!
# What each side makes of the other's messages

The encoders of the client against the parsers of the server and the other way round, for every
content of the nonces, the salt and the iteration count. The texts are ASCII and the values free of
commas, so every field is found where it was put.
-/

namespace RamaPg.Scram

open RamaPg.Lib RamaPg.Codec RamaPg.Proxy

/-- Text that fits into a SCRAM attribute. -/
structure Plain (text : Bytes) : Prop where
  isAscii : IsAscii text
  noComma : 44 ∉ text

theorem Plain.append {a b : Bytes} (ha : Plain a) (hb : Plain b) : Plain (a ++ b) :=
  ⟨ha.isAscii.append hb.isAscii, by simp [ha.noComma, hb.noComma]⟩

theorem plain_encode (b64 : Base64) (bs : Bytes) : Plain (b64.encode bs) :=
  ⟨b64.ascii_encode bs, (b64.plain_encode bs).1⟩

theorem plain_decimal (n : Nat) : Plain (decimal n) := by
  constructor
  · intro b hb
    have h := decimal_digit n b hb
    simp only [isDigit, Bool.and_eq_true, decide_eq_true_eq] at h
    exact UInt8.lt_of_le_of_lt h.2 (by decide)
  · intro h
    exact absurd (decimal_digit n 44 h) (by decide)

/-- An attribute: its name and a plain value. -/
theorem fieldOf_attr {pre v : Bytes} (hpre : 44 ∉ pre) (hv : Plain v) :
    fieldOf pre (pre ++ v) = some v := by
  rw [fieldOf_single (by simp [hpre, hv.noComma]), stripPrefix_append]

theorem fieldOf_attr_cons {pre v : Bytes} (hpre : 44 ∉ pre) (hv : Plain v) (rest : Bytes) :
    fieldOf pre (pre ++ v ++ 44 :: rest) = some v := by
  rw [fieldOf_cons (by simp [hpre, hv.noComma]), stripPrefix_append]; rfl

/-- A field of another name is passed over. -/
theorem fieldOf_skip {pre name v : Bytes} (hname : 44 ∉ name) (hv : Plain v)
    (hne : stripPrefix pre (name ++ v) = none) (rest : Bytes) :
    fieldOf pre (name ++ v ++ 44 :: rest) = fieldOf pre rest := by
  rw [fieldOf_cons (by simp [hname, hv.noComma]), hne]; rfl

section

variable (b64 : Base64) (sha256 : Bytes → Key)

theorem plain_randomNonce (draw : Vector UInt8 18) : Plain (randomNonce b64 draw) :=
  plain_encode b64 _

theorem length_randomNonce (draw : Vector UInt8 18) : (randomNonce b64 draw).length = 24 := by
  rw [randomNonce, b64.length_encode]; simp

/-! ## AuthenticationSASL -/

/-- A mechanism name that can be listed. -/
def Listable (name : Bytes) : Prop := name ≠ [] ∧ 0 ∉ name ∧ isUtf8 name = true

theorem parseMechanismsLoop_list : ∀ {names : List Bytes} {n : Nat}, (∀ name ∈ names, Listable name) →
    names.length < n → parseMechanismsLoop n (names.flatMap (· ++ [0]) ++ [0]) = names
  | [], n + 1, _, _ => rfl
  | name :: names, n + 1, hl, hn => by
    obtain ⟨hne, h0, hu⟩ := hl name List.mem_cons_self
    have ih := parseMechanismsLoop_list (fun x hx => hl x (.tail _ hx)) (Nat.lt_of_succ_lt_succ hn)
    have hs : splitOnce 0 ((name :: names).flatMap (· ++ [0]) ++ [0]) =
        some (name, names.flatMap (· ++ [0]) ++ [0]) := by
      rw [List.flatMap_cons, List.append_assoc, List.append_assoc]
      exact splitOnce_append h0 _
    rw [parseMechanismsLoop, hs]
    cases name with
    | nil => exact (hne rfl).elim
    | cons b name => simp only [hu, ↓reduceIte, ih]

theorem length_le_flatMap : ∀ names : List Bytes,
    names.length ≤ (names.flatMap (· ++ [0])).length
  | [] => Nat.le_refl _
  | name :: names => by
    have ih := length_le_flatMap names
    simp only [List.flatMap_cons, List.length_append, List.length_cons, List.length_nil]; omega

/-- The client reads back the mechanisms the server lists. -/
theorem parseMechanisms_list {names : List Bytes} (hl : ∀ name ∈ names, Listable name) :
    parseMechanisms (names.flatMap (· ++ [0]) ++ [0]) = names :=
  parseMechanismsLoop_list hl (by
    have := length_le_flatMap names
    rw [List.length_append, List.length_singleton]; omega)

theorem listable_mechanism : Listable mechanism :=
  ⟨by decide, by decide, isUtf8_of_isAscii (by decide)⟩

theorem listable_mechanismPlus : Listable mechanismPlus :=
  ⟨by decide, by decide, isUtf8_of_isAscii (by decide)⟩

theorem mechanism_offered (cb : Option Bytes) :
    mechanism ∈ parseMechanisms ((offered cb).flatMap (· ++ [0]) ++ [0]) := by
  have hl : ∀ name ∈ offered cb, Listable name := by
    intro name hn
    cases cb <;> simp only [offered, Option.isSome, ↓reduceIte, List.mem_cons, List.not_mem_nil,
      or_false, Bool.false_eq_true] at hn
    · rw [hn]; exact listable_mechanism
    · rcases hn with rfl | rfl
      · exact listable_mechanismPlus
      · exact listable_mechanism
  rw [parseMechanisms_list hl]
  cases cb <;> simp [offered]

/-! ## The client-first message -/

theorem isAscii_clientFirst {nonce : Bytes} (h : Plain nonce) :
    IsAscii (ascii "n,," ++ clientFirstBare nonce) := by
  refine .append (by decide) (.append (by decide) h.isAscii)

theorem parseClientFirst_client {nonce : Bytes} (h : Plain nonce) :
    parseClientFirst (ascii "n,," ++ clientFirstBare nonce) =
      .ok ⟨ascii "n,,", clientFirstBare nonce, nonce, .n, none⟩ := by
  have hr : fieldOf (ascii "r=") (clientFirstBare nonce) = some nonce := by
    have hskip := @fieldOf_skip (ascii "r=") (ascii "n=") [] (by decide) ⟨nofun, nofun⟩ (by decide)
      (ascii "r=" ++ nonce)
    rw [fieldOf_attr (by decide) h] at hskip
    exact hskip
  have hs : splitOnce 44 (ascii "n,," ++ clientFirstBare nonce) =
      some (ascii "n", 44 :: clientFirstBare nonce) :=
    splitOnce_append (a := ascii "n") (by decide) _
  have hs' : splitOnce 44 (44 :: clientFirstBare nonce) = some ([], clientFirstBare nonce) :=
    splitOnce_append (a := []) (by simp) _
  have hflag : parseCbindFlag (ascii "n") = .ok (.n, none) := by decide
  rw [parseClientFirst, if_pos (isUtf8_of_isAscii (isAscii_clientFirst h))]
  simp only [hs, hs', hflag, hr]
  rfl

theorem parseSaslInitial_client (clientFirst : Bytes) :
    parseSaslInitial (mechanism ++ 0 :: (i32ToBe clientFirst.length ++ clientFirst)) =
      .ok (mechanism, clientFirst) := by
  rw [parseSaslInitial, splitOnce_append (by decide)]
  simp only [listable_mechanism.2.2, ↓reduceIte, i32ToBe, u32ToBe,
    List.cons_append, List.nil_append]

/-- The server takes the client's first message, whatever it offered. -/
theorem checkInitial_client (cb : Option Bytes) {nonce : Bytes} (h : Plain nonce) :
    checkInitial cb (RawMessage.build Tag.passwordMessage (mechanism ++
      0 :: (i32ToBe (ascii "n,," ++ clientFirstBare nonce).length ++
        (ascii "n,," ++ clientFirstBare nonce)))) =
      .ok (⟨ascii "n,,", clientFirstBare nonce, nonce, .n, none⟩, ascii "n,,") := by
  rw [checkInitial, RawMessage.payload_build, parseSaslInitial_client]
  simp only [expectSasl, RawMessage.tag_build, ↓reduceIte, orFail, chosenPlus, bind, Except.bind,
    parseClientFirst_client h]
  rfl

/-! ## The server-first message -/

theorem isAscii_serverFirst {nonce : Bytes} (h : Plain nonce) (secret : ScramSecret) :
    IsAscii (serverFirst b64 nonce secret) := by
  have hs := (plain_encode b64 secret.salt).isAscii
  have hi := (plain_decimal secret.iterations.toNat).isAscii
  have h0 : IsAscii (ascii "r=" ++ nonce) := .append (by decide) h.isAscii
  exact (((h0.append (by decide)).append hs).append (by decide)).append hi

/-- The three attributes, one after the other. -/
theorem serverFirst_eq (nonce : Bytes) (secret : ScramSecret) :
    serverFirst b64 nonce secret = ascii "r=" ++ nonce ++
      44 :: (ascii "s=" ++ b64.encode secret.salt ++
        44 :: (ascii "i=" ++ decimal secret.iterations.toNat)) := by
  have h₁ : ascii ",s=" = 44 :: ascii "s=" := by decide
  have h₂ : ascii ",i=" = 44 :: ascii "i=" := by decide
  simp only [serverFirst, h₁, h₂, List.append_assoc, List.cons_append]

theorem serverFirst_fields {nonce : Bytes} (h : Plain nonce) (secret : ScramSecret) :
    fieldOf (ascii "r=") (serverFirst b64 nonce secret) = some nonce ∧
    fieldOf (ascii "s=") (serverFirst b64 nonce secret) = some (b64.encode secret.salt) ∧
    fieldOf (ascii "i=") (serverFirst b64 nonce secret) =
      some (decimal secret.iterations.toNat) := by
  have hs := plain_encode b64 secret.salt
  have hi := plain_decimal secret.iterations.toNat
  rw [serverFirst_eq]
  refine ⟨fieldOf_attr_cons (by decide) h _, ?_, ?_⟩
  · rw [fieldOf_skip (by decide) h rfl, fieldOf_attr_cons (by decide) hs]
  · rw [fieldOf_skip (by decide) h rfl, fieldOf_skip (by decide) hs rfl, fieldOf_attr (by decide) hi]

theorem expectAuth_build (subtype : Nat) (hs : subtype < 2 ^ 31) (what : String) (data : Bytes) :
    expectAuth (RawMessage.build Tag.authentication (i32ToBe subtype ++ data)) subtype what =
      .ok () := by
  rw [expectAuth, RawMessage.tag_build, if_pos rfl, RawMessage.payload_build,
    subtypeOf_i32ToBe hs, if_pos rfl]

/-- The client reads back the nonce, the salt and the iteration count. -/
theorem parseChallenge_server {clientNonce serverNonce : Bytes} (hc : Plain clientNonce)
    (hs : Plain serverNonce) (secret : ScramSecret) :
    parseChallenge b64 clientNonce (RawMessage.build Tag.authentication
      (i32ToBe Auth.saslContinue ++ serverFirst b64 (clientNonce ++ serverNonce) secret)) =
      .ok ⟨serverFirst b64 (clientNonce ++ serverNonce) secret, clientNonce ++ serverNonce,
        secret.salt, secret.iterations⟩ := by
  obtain ⟨hr, hsalt, hi⟩ := serverFirst_fields b64 (hc.append hs) secret
  have ha := isAscii_serverFirst b64 (hc.append hs) secret
  have he := expectAuth_build 11 (by decide) "AuthenticationSASLContinue"
    (serverFirst b64 (clientNonce ++ serverNonce) secret)
  have hpre : clientNonce.isPrefixOf (clientNonce ++ serverNonce) = true := by simp
  have hdrop : (i32ToBe Auth.saslContinue ++
      serverFirst b64 (clientNonce ++ serverNonce) secret).drop 4 =
      serverFirst b64 (clientNonce ++ serverNonce) secret := rfl
  rw [parseChallenge]
  simp only [RawMessage.payload_build, hdrop, isUtf8_of_isAscii ha, ↓reduceIte, hr, hsalt, hi, hpre,
    okOr, b64.decode_encode, parseU32_decimal, bind, Except.bind]
  rw [show Auth.saslContinue = ((11 : Nat) : Int) from rfl, he]
  rfl

/-! ## The client-final message -/

theorem clientFinalWithoutProof_eq (nonce : Bytes) :
    clientFinalWithoutProof b64 nonce =
      ascii "c=" ++ b64.encode (ascii "n,,") ++ 44 :: (ascii "r=" ++ nonce) := by
  have h : ascii ",r=" = 44 :: ascii "r=" := by decide
  simp only [clientFinalWithoutProof, h, List.append_assoc, List.cons_append]

theorem isAscii_clientFinal (keys : ScramKeys) {nonce : Bytes} (h : Plain nonce) (message : Bytes) :
    IsAscii (clientFinal b64 sha256 keys nonce message) := by
  have hc := (plain_encode b64 (ascii "n,,")).isAscii
  have h0 : IsAscii (ascii "c=" ++ b64.encode (ascii "n,,")) := .append (by decide) hc
  exact (((h0.append (by decide)).append h.isAscii).append (by decide)).append
    (plain_encode b64 _).isAscii

theorem parseClientFinal_client (keys : ScramKeys) {nonce : Bytes} (h : Plain nonce)
    (message : Bytes) :
    parseClientFinal (clientFinal b64 sha256 keys nonce message) =
      .ok ⟨b64.encode (ascii "n,,"), nonce, b64.encode (clientProof keys.clientKey
        (hmacSha256 sha256 keys.storedKey.toList message)).toList,
        clientFinalWithoutProof b64 nonce⟩ := by
  have hp := plain_encode b64 (clientProof keys.clientKey
    (hmacSha256 sha256 keys.storedKey.toList message)).toList
  have hc := plain_encode b64 (ascii "n,,")
  have hsplit := @rsplitOnce_append 44 (ascii "p=") (clientFinalWithoutProof b64 nonce) _
    (by decide) hp.noComma
  have hcut : ascii ",p=" = 44 :: ascii "p=" := by decide
  have hfields : (clientFinalWithoutProof b64 nonce).splitOn 44 =
      [ascii "c=" ++ b64.encode (ascii "n,,"), ascii "r=" ++ nonce] := by
    rw [clientFinalWithoutProof_eq, List.splitOn_append_cons_self_of_not_mem
        (by simp only [List.mem_append, not_or]; exact ⟨by decide, hc.noComma⟩),
      List.splitOn_eq_singleton
        (by simp only [List.mem_append, not_or]; exact ⟨by decide, h.noComma⟩)]
  have hr : stripPrefix (ascii "c=") (ascii "r=" ++ nonce) = none := rfl
  rw [parseClientFinal, clientFinal, hcut, hsplit]
  simp only [hfields, List.foldl_cons, List.foldl_nil, scanField, stripPrefix_append, hr]

/-- The server recovers the client's key from its proof. -/
theorem checkFinal_client {secret : ScramSecret} {keys : ScramKeys} {nonce : Bytes}
    (first : ClientFirst) (challenge : Bytes) (hstored : keys.storedKey = secret.storedKey)
    (hhash : sha256 keys.clientKey.toList = keys.storedKey) (h : Plain nonce) :
    checkFinal b64 sha256 true secret first (ascii "n,,") nonce challenge
      (RawMessage.build Tag.passwordMessage (clientFinal b64 sha256 keys nonce
        (authMessage first.bare challenge (clientFinalWithoutProof b64 nonce)))) =
      .ok (keys.clientKey, authMessage first.bare challenge (clientFinalWithoutProof b64 nonce)) := by
  rw [checkFinal]
  simp only [expectSasl, RawMessage.tag_build, ↓reduceIte, RawMessage.payload_build,
    isUtf8_of_isAscii (isAscii_clientFinal b64 sha256 keys h _),
    parseClientFinal_client b64 sha256 keys h, orFail, bind, Except.bind, decode64,
    b64.decode_encode, checkProof, toKey_toList, ← hstored, recoverClientKey_clientProof, hhash,
    and_self]
  rfl

/-! ## The server-final message -/

/-- The client accepts the server's signature. -/
theorem checkServerFinal_server {keys : ScramKeys} {serverKey : Key}
    (hkey : keys.serverKey = serverKey) (message : Bytes) :
    checkServerFinal b64 sha256 keys message (RawMessage.build Tag.authentication
      (i32ToBe Auth.saslFinal ++
        (ascii "v=" ++ b64.encode (hmacSha256 sha256 serverKey.toList message).toList))) =
      .ok () := by
  have hv := plain_encode b64 (hmacSha256 sha256 serverKey.toList message).toList
  have he := expectAuth_build 12 (by decide) "AuthenticationSASLFinal"
    (ascii "v=" ++ b64.encode (hmacSha256 sha256 serverKey.toList message).toList)
  have ha : IsAscii (ascii "v=" ++ b64.encode (hmacSha256 sha256 serverKey.toList message).toList) :=
    .append (by decide) hv.isAscii
  have hdrop : (i32ToBe Auth.saslFinal ++ (ascii "v=" ++
      b64.encode (hmacSha256 sha256 serverKey.toList message).toList)).drop 4 =
      ascii "v=" ++ b64.encode (hmacSha256 sha256 serverKey.toList message).toList := rfl
  rw [checkServerFinal]
  simp only [RawMessage.payload_build, hdrop, isUtf8_of_isAscii ha, ↓reduceIte,
    fieldOf_attr (show (44 : UInt8) ∉ ascii "v=" by decide) hv, okOr, b64.decode_encode, bind,
    Except.bind, hkey]
  rw [show Auth.saslFinal = ((12 : Nat) : Int) from rfl, he]

/-- The client's two messages in an exchange with these keys, nonces and challenge. -/
def clientMessages (keys : ScramKeys) (clientNonce challenge nonce : Bytes) : List RawMessage :=
  let clientFirst := ascii "n,," ++ clientFirstBare clientNonce
  [RawMessage.build Tag.passwordMessage
      (mechanism ++ 0 :: (i32ToBe clientFirst.length ++ clientFirst)),
    RawMessage.build Tag.passwordMessage (clientFinal b64 sha256 keys nonce
      (authMessage (clientFirstBare clientNonce) challenge (clientFinalWithoutProof b64 nonce)))]

/-- The server's three messages in an exchange with these keys and nonces. -/
def serverMessages (cb : Option Bytes) (secret : ScramSecret) (serverKey : Key)
    (clientNonce nonce : Bytes) : List RawMessage :=
  let challenge := serverFirst b64 nonce secret
  let signature := hmacSha256 sha256 serverKey.toList
    (authMessage (clientFirstBare clientNonce) challenge (clientFinalWithoutProof b64 nonce))
  [RawMessage.build Tag.authentication
      (i32ToBe Auth.sasl ++ (offered cb).flatMap (· ++ [0]) ++ [0]),
    RawMessage.build Tag.authentication (i32ToBe Auth.saslContinue ++ challenge),
    RawMessage.build Tag.authentication
      (i32ToBe Auth.saslFinal ++ (ascii "v=" ++ b64.encode signature.toList))]

variable {sha256}

/-- The server accepts a client that has the keys. -/
theorem feed_exchange (auth : ScramSha256) {secret : ScramSecret} {keys : ScramKeys}
    (hstored : keys.storedKey = secret.storedKey) (hserver : keys.serverKey = secret.serverKey)
    (hhash : sha256 keys.clientKey.toList = keys.storedKey) {clientNonce serverNonce : Bytes}
    (hc : Plain clientNonce) (hs : Plain serverNonce) :
    ((auth.exchange b64 sha256 true secret serverNonce).feed (clientMessages b64 sha256 keys
      clientNonce (serverFirst b64 (clientNonce ++ serverNonce) secret)
      (clientNonce ++ serverNonce))).2 = (some (.ok (.terminated (.scram keys))), []) := by
  have hi := checkInitial_client auth.channelBinding hc
  have hf := checkFinal_client b64 sha256 ⟨ascii "n,,", clientFirstBare clientNonce, clientNonce, .n,
    none⟩ (serverFirst b64 (clientNonce ++ serverNonce) secret) hstored hhash (hc.append hs)
  simp only [ScramSha256.exchange, clientMessages, ioWrite, ioReadCapped, Prog.send_bind,
    Prog.recv_bind, Prog.feed, hi, checked_ok_bind, hf, Prog.pure_def, ← hstored, ← hserver]

theorem expectAuth_sasl (cb : Option Bytes) :
    expectAuth (RawMessage.build Tag.authentication (i32ToBe Auth.sasl ++
      (offered cb).flatMap (· ++ [0]) ++ [0])) Auth.sasl "AuthenticationSASL" = .ok () := by
  rw [List.append_assoc]
  exact expectAuth_build 10 (by decide) _ _

theorem mechanism_mem_sasl (cb : Option Bytes) :
    mechanism ∈ parseMechanisms ((RawMessage.build Tag.authentication (i32ToBe Auth.sasl ++
      (offered cb).flatMap (· ++ [0]) ++ [0])).payload.drop 4) := by
  rw [RawMessage.payload_build, List.append_assoc]
  exact mechanism_offered cb

/-- The client accepts a server that has its server key, and reads nothing more. -/
theorem feed_runScram (cb : Option Bytes) {secret : ScramSecret} {derive : Bytes → UInt32 → ScramKeys}
    (draw : Vector UInt8 18) {serverNonce : Bytes} (hs : Plain serverNonce) (more : List RawMessage) :
    ((ioRead >>= fun sasl => runScram b64 sha256 sasl derive draw).feed
      (serverMessages b64 sha256 cb secret (derive secret.salt secret.iterations).serverKey
        (randomNonce b64 draw) (randomNonce b64 draw ++ serverNonce) ++ more)).2 =
      (some (.ok ()), more) := by
  have hc := plain_randomNonce b64 draw
  simp only [serverMessages, runScram, ioWrite, ioRead, ioReadCapped, Prog.send_bind, Prog.recv_bind,
    List.cons_append, List.nil_append, Prog.feed, expectAuth_sasl, Prog.lift_ok_bind,
    mechanism_mem_sasl, ↓reduceIte, parseChallenge_server b64 hc hs secret]
  rw [checkServerFinal_server b64 sha256 rfl, Prog.lift, Prog.feed]

end

/-! ## An exchange -/

namespace Sample

open RamaPg.Startup

def password : Bytes := ascii "pencil"

def salt : Bytes := ascii "some-16-byte-slt"

def iterations : UInt32 := 4096

def keys : ScramKeys := ScramKeys.fromPassword Sha256.hash password salt iterations

def secret : ScramSecret := ScramSecret.fromPassword Sha256.hash password salt iterations

/-- A server that knows one user. -/
def server : ScramSha256 where
  store l := if l.user = ascii "alice" then .ok (some secret) else .ok none
  channelBinding := none

def context : AuthContext where
  startup := ⟨.v3_0, [(ascii "user", ascii "alice")], startupMessage [(ascii "user", ascii "alice")]⟩
  sni := none

def draws : Draws where
  salt := Vector.replicate 16 7
  storedKey := Vector.replicate 32 8
  serverKey := Vector.replicate 32 9
  nonce := Vector.replicate 18 5

def clientDraw : Vector UInt8 18 := Vector.replicate 18 3

theorem store_alice : server.store (ScramSha256.lookup context) = .ok (some secret) := by
  have h : (ScramSha256.lookup context).user = ascii "alice" := by decide
  rw [server]
  simp only [h, ↓reduceIte]

/-- What the client sends when it knows the password. -/
def messages : List RawMessage :=
  let nonce := randomNonce Base64.standard clientDraw ++ randomNonce Base64.standard draws.nonce
  clientMessages Base64.standard Sha256.hash keys (randomNonce Base64.standard clientDraw)
    (serverFirst Base64.standard nonce secret) nonce

def run : List (Event Int RawMessage) × Option (Except BoxError ClientAuth) × List RawMessage :=
  (server.authenticate Base64.standard Sha256.hash context draws).feed messages

theorem run_ok : run.2.1 = some (.ok (.terminated (.scram keys))) := by
  have h := @feed_exchange Base64.standard Sha256.hash server secret keys rfl rfl rfl _ _
    (plain_randomNonce Base64.standard clientDraw) (plain_randomNonce Base64.standard draws.nonce)
  have ha : server.authenticate Base64.standard Sha256.hash context draws =
      server.exchange Base64.standard Sha256.hash true secret
        (randomNonce Base64.standard draws.nonce) := by
    rw [ScramSha256.authenticate, store_alice, Prog.lift_ok_bind]; rfl
  rw [run, ha, messages, h]

end Sample

end RamaPg.Scram
