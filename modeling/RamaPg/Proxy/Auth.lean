import RamaPg.Protocol.Message
import RamaPg.Scram.Crypto

/-!
# Client authentication

The model of `auth.rs`: what an authenticator may key on, what it reports, and the cleartext
password authenticator over a pluggable validator.
-/

namespace RamaPg.Proxy

open RamaPg.Lib RamaPg.Codec RamaPg.Startup RamaPg.Scram

structure AuthContext where
  startup : StartupMessage
  sni : Option Bytes

/-- How the proxy authenticates to the backend in terminate mode. -/
inductive BackendAuth where
  | trust
  | scram (keys : ScramKeys)
  deriving DecidableEq

inductive ClientAuth where
  | passThrough
  | terminated (auth : BackendAuth)
  deriving DecidableEq

def AuthContext.user (ctx : AuthContext) : Bytes := ctx.startup.user.getD []

/-- The password in a `PasswordMessage` payload, up to its NUL. -/
def passwordBytes (payload : Bytes) : Bytes :=
  match splitOnce 0 payload with
  | some (password, _) => password
  | none => payload

/-- The masked failure the client sees. -/
def authFailed : Bytes := Message.fatalError (ascii "28P01") (ascii "password authentication failed")

/-- `PassThrough::authenticate`. -/
def PassThrough.authenticate (_ : AuthContext) : Io ClientAuth := pure .passThrough

/-- `StaticPasswordValidator`: the passwords by user. -/
abbrev StaticPasswordValidator := List (Bytes × Bytes)

def StaticPasswordValidator.validate (credentials : StaticPasswordValidator) (ctx : AuthContext)
    (password : Bytes) : Except BoxError Bool :=
  match credentials.lookup ctx.user with
  | some expected => .ok (expected == password)
  | none => .ok false

structure CleartextPassword where
  validate : AuthContext → Bytes → Except BoxError Bool

def authenticationCleartextPassword : Bytes :=
  frame Tag.authentication (i32ToBe Auth.cleartextPassword)

/-- `CleartextPassword::authenticate`. -/
def CleartextPassword.authenticate (auth : CleartextPassword) (ctx : AuthContext) :
    Io ClientAuth := do
  ioWrite authenticationCleartextPassword
  let msg ← ioReadCapped maxAuthMessageLen
  if msg.tag ≠ Tag.passwordMessage then
    Prog.lift (.error (.text s!"expected PasswordMessage, got tag {charDebug msg.tag}"))
  else
    let valid ← Prog.lift (auth.validate ctx (passwordBytes msg.payload))
    if valid then return .terminated .trust
    else
      ioWrite authFailed
      Prog.lift (.error (.text "password authentication failed"))

/-- A client is let through for one message, a password that the validator takes. -/
theorem CleartextPassword.authenticate_ok {auth : CleartextPassword} {ctx : AuthContext}
    {es : List (Event Int RawMessage)} {a : ClientAuth}
    (h : Runs (auth.authenticate ctx) es (some (.ok a))) :
    a = .terminated .trust ∧ ∃ m,
      es = [.sent authenticationCleartextPassword, .received maxAuthMessageLen m] ∧
      m.tag = Tag.passwordMessage ∧ auth.validate ctx (passwordBytes m.payload) = .ok true := by
  rcases Runs.write_inv h with ⟨hu, -⟩ | ⟨es₁, rfl, hread⟩
  · exact (hu a rfl).elim
  rcases Runs.read_inv hread with ⟨hu, -⟩ | ⟨m, es₂, rfl, hcheck⟩
  · exact (hu a rfl).elim
  replace h : Runs (if m.tag ≠ Tag.passwordMessage then _ else _) es₂ (some (.ok a)) := hcheck
  split at h
  · obtain ⟨-, h | h⟩ := Runs.done_inv h <;> cases h
  rename_i htag
  cases hv : auth.validate ctx (passwordBytes m.payload) with
  | error e =>
    rw [hv, Prog.lift_error_bind] at h
    obtain ⟨-, h | h⟩ := Runs.done_inv h <;> cases h
  | ok valid =>
    rw [hv, Prog.lift_ok_bind] at h
    cases valid with
    | false =>
      rcases Runs.write_inv h with ⟨hu, -⟩ | ⟨es', -, h⟩
      · exact (hu a rfl).elim
      · obtain ⟨-, h | h⟩ := Runs.done_inv h <;> cases h
    | true =>
      obtain ⟨rfl, h | h⟩ := Runs.done_inv h
      · cases h
      · cases h
        exact ⟨rfl, m, rfl, not_not.mp htag, hv⟩

end RamaPg.Proxy
