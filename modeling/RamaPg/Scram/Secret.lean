import RamaPg.Scram.Crypto
import RamaPg.Protocol.Message
import RamaPg.Lib.Text

/-!
# SCRAM verifiers

The model of `scram/secret.rs`: a verifier is what the backend stores instead of the password. A
store answers a lookup with an error, no verifier or a verifier; which of them it answers this time
is a parameter. A verifier's text form is cut at the first `$` and at the first `:` of each half;
no field can hold either, so the text of a verifier is read back as that verifier.
-/

namespace RamaPg.Scram

open RamaPg.Lib RamaPg.Codec

structure ScramSecret where
  iterations : UInt32
  salt : Bytes
  storedKey : Key
  serverKey : Key
  deriving DecidableEq

structure SecretLookup where
  user : Bytes
  database : Option Bytes
  sni : Option Bytes
  deriving DecidableEq

/-- `get_secret`. -/
abbrev ScramSecretStore := SecretLookup → Except BoxError (Option ScramSecret)

/-- `StaticSecretStore`: the verifiers by user, the ones added last in front. -/
abbrev StaticSecretStore := List (Bytes × ScramSecret)

def StaticSecretStore.withSecret (secrets : StaticSecretStore) (user : Bytes) (secret : ScramSecret) :
    StaticSecretStore :=
  (user, secret) :: secrets

def StaticSecretStore.getSecret (secrets : StaticSecretStore) : ScramSecretStore := fun lookup =>
  .ok (secrets.lookup lookup.user)

def ScramSecret.fromPassword (sha256 : Bytes → Key) (password salt : Bytes) (iterations : UInt32) :
    ScramSecret :=
  let keys := ScramKeys.fromPassword sha256 password salt iterations
  ⟨iterations, salt, keys.storedKey, keys.serverKey⟩

/-- A byte string as a key, if it has 32 bytes. -/
def toKey (bs : Bytes) : Option Key :=
  if h : bs.length = 32 then some ⟨bs.toArray, by simpa using h⟩ else none

@[simp] theorem toKey_toList (k : Key) : toKey k.toList = some k := by
  simp [toKey, Vector.toList]

theorem toKey_eq_some {bs : Bytes} {k : Key} (h : toKey bs = some k) : bs = k.toList := by
  unfold toKey at h
  split at h
  · cases h; simp
  · cases h

/-! ## The text form -/

/-- `decode_key`. -/
def decodeKey (b64 : Base64) (text : Bytes) : Except BoxError Key :=
  match b64.decode text with
  | none => .error .base64
  | some bs =>
    match toKey bs with
    | none => .error (.text "scram secret: key is not 32 bytes")
    | some key => .ok key

theorem decodeKey_encode (b64 : Base64) (k : Key) : decodeKey b64 (b64.encode k.toList) = .ok k := by
  simp [decodeKey, b64.decode_encode]

theorem decodeKey_ok {b64 : Base64} {text : Bytes} {k : Key} (h : decodeKey b64 text = .ok k) :
    b64.decode text = some k.toList := by
  unfold decodeKey at h
  split at h
  · cases h
  · rename_i bs hd
    split at h
    · cases h
    · rename_i key hk
      cases h
      rw [hd, toKey_eq_some hk]

namespace ScramSecret

/-- The fields of a verifier's text, in the order they are decoded. -/
def parseFields (b64 : Base64) (iterations salt storedKey serverKey : Bytes) :
    Except BoxError ScramSecret :=
  match parseU32 iterations with
  | none => .error (.text "scram secret: invalid iteration count")
  | some iterations =>
    match b64.decode salt with
    | none => .error .base64
    | some salt =>
      match decodeKey b64 storedKey with
      | .error e => .error e
      | .ok storedKey =>
        match decodeKey b64 serverKey with
        | .error e => .error e
        | .ok serverKey => .ok ⟨iterations, salt, storedKey, serverKey⟩

def parse (b64 : Base64) (s : Bytes) : Except BoxError ScramSecret :=
  match stripPrefix (ascii "SCRAM-SHA-256$") s with
  | none => .error (.text "scram secret: not a SCRAM-SHA-256 verifier")
  | some rest =>
    match splitOnce 36 rest with
    | none => .error (.text "scram secret: missing key section")
    | some (params, keys) =>
      match splitOnce 58 params with
      | none => .error (.text "scram secret: missing salt")
      | some (iterations, salt) =>
        match splitOnce 58 keys with
        | none => .error (.text "scram secret: missing server key")
        | some (storedKey, serverKey) => parseFields b64 iterations salt storedKey serverKey

/-- `SCRAM-SHA-256$<iterations>:<salt>$<stored>:<server>`. -/
def verifierText (iterations salt storedKey serverKey : Bytes) : Bytes :=
  ascii "SCRAM-SHA-256$" ++ (iterations ++ 58 :: salt ++ 36 :: (storedKey ++ 58 :: serverKey))

def toVerifierString (b64 : Base64) (secret : ScramSecret) : Bytes :=
  verifierText (decimal secret.iterations.toNat) (b64.encode secret.salt)
    (b64.encode secret.storedKey.toList) (b64.encode secret.serverKey.toList)

/-- Fields free of the separator that ends them are the fields that are decoded. -/
theorem parse_verifierText (b64 : Base64) {iterations salt storedKey serverKey : Bytes}
    (h₁ : 36 ∉ iterations) (h₂ : 58 ∉ iterations) (h₃ : 36 ∉ salt) (h₄ : 58 ∉ storedKey) :
    parse b64 (verifierText iterations salt storedKey serverKey) =
      parseFields b64 iterations salt storedKey serverKey := by
  have hparams : 36 ∉ iterations ++ 58 :: salt := by
    simp [h₁, h₃]
  unfold parse verifierText
  simp only [stripPrefix_append, splitOnce_append hparams, splitOnce_append h₂, splitOnce_append h₄]

/-- What is read has the four fields, none of them with the separator that ends it. -/
theorem parse_ok {b64 : Base64} {s : Bytes} {r : ScramSecret} (h : parse b64 s = .ok r) :
    ∃ iterations salt storedKey serverKey,
      s = verifierText iterations salt storedKey serverKey ∧ 36 ∉ iterations ∧ 58 ∉ iterations ∧
      36 ∉ salt ∧ 58 ∉ storedKey ∧ parseFields b64 iterations salt storedKey serverKey = .ok r := by
  unfold parse at h
  split at h
  · cases h
  rename_i rest hrest
  split at h
  · cases h
  rename_i params keys hparams
  split at h
  · cases h
  rename_i iterations salt hiterations
  split at h
  · cases h
  rename_i storedKey serverKey hkeys
  obtain rfl := stripPrefix_eq_some.mp hrest
  obtain ⟨rfl, hdollar⟩ := splitOnce_eq_some hparams
  obtain ⟨rfl, hcolon⟩ := splitOnce_eq_some hiterations
  obtain ⟨rfl, hcolon'⟩ := splitOnce_eq_some hkeys
  simp only [List.mem_append, List.mem_cons, not_or] at hdollar
  exact ⟨iterations, salt, storedKey, serverKey, rfl, hdollar.1, hcolon, hdollar.2.2, hcolon', h⟩

theorem parseFields_ok {b64 : Base64} {iterations salt storedKey serverKey : Bytes} {r : ScramSecret}
    (h : parseFields b64 iterations salt storedKey serverKey = .ok r) :
    parseU32 iterations = some r.iterations ∧ b64.decode salt = some r.salt ∧
      b64.decode storedKey = some r.storedKey.toList ∧
      b64.decode serverKey = some r.serverKey.toList := by
  unfold parseFields at h
  split at h
  · cases h
  rename_i n hn
  split at h
  · cases h
  rename_i salt' hsalt
  split at h
  · cases h
  rename_i stored hstored
  split at h
  · cases h
  rename_i server hserver
  cases h
  exact ⟨hn, hsalt, decodeKey_ok hstored, decodeKey_ok hserver⟩

theorem parse_toVerifierString (b64 : Base64) (secret : ScramSecret) :
    parse b64 (toVerifierString b64 secret) = .ok secret := by
  have hdigits : ∀ c, isDigit c = false → c ∉ decimal secret.iterations.toNat := by
    intro c hc hmem
    rw [decimal_digit _ c hmem] at hc
    cases hc
  have hsalt := b64.plain_encode secret.salt
  have hstored := b64.plain_encode secret.storedKey.toList
  unfold toVerifierString
  rw [parse_verifierText b64 (hdigits 36 rfl) (hdigits 58 rfl) hsalt.2.1 hstored.2.2]
  simp only [parseFields, parseU32_decimal, b64.decode_encode, decodeKey_encode]

end ScramSecret

/-- A verifier's text reads back as the verifier, and any text that is read has the four fields of
its reading. -/
theorem verifier_text_round_trip (b64 : Base64) :
    (∀ secret, ScramSecret.parse b64 (secret.toVerifierString b64) = .ok secret) ∧
    ∀ s r, ScramSecret.parse b64 s = .ok r →
      ScramSecret.parse b64 (r.toVerifierString b64) = .ok r ∧
      ∃ iterations salt storedKey serverKey,
        s = ScramSecret.verifierText iterations salt storedKey serverKey ∧
        parseU32 iterations = some r.iterations ∧ b64.decode salt = some r.salt ∧
        b64.decode storedKey = some r.storedKey.toList ∧
        b64.decode serverKey = some r.serverKey.toList := by
  constructor
  · exact ScramSecret.parse_toVerifierString b64
  · intro s r h
    obtain ⟨iterations, salt, storedKey, serverKey, hs, -, -, -, -, hf⟩ := ScramSecret.parse_ok h
    exact ⟨ScramSecret.parse_toVerifierString b64 r, iterations, salt, storedKey, serverKey, hs,
      ScramSecret.parseFields_ok hf⟩

namespace Verifier

/-- A text that is read but not printed: the count has a sign and a leading zero. -/
def signed : Bytes :=
  ascii "SCRAM-SHA-256$+04096:c2FsdA==$AAAAAAAAAAAAAAAAAAAAAAAAAAAAAAAAAAAAAAAAAAA=:" ++
    ascii "AQEBAQEBAQEBAQEBAQEBAQEBAQEBAQEBAQEBAQEBAQE="

def secret : ScramSecret := ⟨4096, ascii "salt", Vector.replicate 32 0, Vector.replicate 32 1⟩

end Verifier

theorem verifier_text_signed :
    ScramSecret.parse Base64.standard Verifier.signed = .ok Verifier.secret ∧
    ScramSecret.parse Base64.standard (Verifier.secret.toVerifierString Base64.standard) =
      .ok Verifier.secret := by
  have h : ScramSecret.parse Base64.standard Verifier.signed = .ok Verifier.secret := by
    decide +kernel
  exact ⟨h, ((verifier_text_round_trip Base64.standard).2 _ _ h).1⟩

end RamaPg.Scram
