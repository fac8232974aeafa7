import RamaPg.Protocol.Codec
import RamaPg.Lib.Text

/-!
# The startup phase

The model of `protocol/startup.rs`: the untagged, length-prefixed packets a client sends before
the tagged protocol starts, and the parsed `StartupMessage` with the frame it was parsed from.
Reads here are `read_exact`s, so a packet is taken from the bytes the transport delivers before
its end of stream.
-/

namespace RamaPg.Startup

open RamaPg.Lib RamaPg.Codec

/-! ## Protocol versions -/

/-- The code field of a `StartupMessage`, `(major << 16) | minor`. -/
structure ProtocolVersion where
  code : Int
  deriving DecidableEq, Repr

namespace ProtocolVersion

def v3_0 : ProtocolVersion := ⟨196608⟩

def v3_2 : ProtocolVersion := ⟨196610⟩

def max : ProtocolVersion := v3_2

def fromCode (code : Int) : ProtocolVersion := ⟨code⟩

/-- The high 16 bits. -/
def major (v : ProtocolVersion) : Int := v.code / 2 ^ 16 % 2 ^ 16

/-- The low 16 bits. -/
def minor (v : ProtocolVersion) : Int := v.code % 2 ^ 16

/-- The same major, the minor capped at `max`, as an `i32`. -/
def negotiated (v : ProtocolVersion) : ProtocolVersion :=
  ⟨wrapI32 (v.major * 2 ^ 16 + min v.minor max.minor)⟩

end ProtocolVersion

/-! ## Packets -/

def sslRequestCode : Int := 80877103

def gssencRequestCode : Int := 80877104

def cancelRequestCode : Int := 80877102

def maxStartupPacketLen : Int := 10000

/-- The opaque `pid + secret` bytes. -/
structure CancelKey where
  bytes : Bytes
  deriving DecidableEq

/-- The leading `Int32`, for logging. -/
def CancelKey.processId (k : CancelKey) : Option Int :=
  match k.bytes with
  | a :: b :: c :: d :: _ => some (i32OfBe a b c d)
  | _ => none

structure StartupMessage where
  protocolVersion : ProtocolVersion
  parameters : List (Bytes × Bytes)
  raw : Bytes
  deriving DecidableEq

inductive StartupRequest where
  | ssl
  | gssEnc
  | cancel (key : CancelKey)
  | startup (msg : StartupMessage)
  deriving DecidableEq

namespace StartupMessage

def frame (m : StartupMessage) : Bytes := m.raw

/-- The value of the first parameter with this key. -/
def get (m : StartupMessage) (key : Bytes) : Option Bytes :=
  (m.parameters.find? fun p => p.1 == key).map (·.2)

def user (m : StartupMessage) : Option Bytes := m.get (ascii "user")

/-- The database, or the user name when no `database` is given. -/
def database (m : StartupMessage) : Option Bytes := (m.get (ascii "database")).or m.user

def protocolMajor (m : StartupMessage) : Int := m.protocolVersion.major

def protocolMinor (m : StartupMessage) : Int := m.protocolVersion.minor

/-- The names of the `_pq_.` parameters, in order. -/
def pqOptions (m : StartupMessage) : List Bytes :=
  (m.parameters.filter fun p => (ascii "_pq_.").isPrefixOf p.1).map (·.1)

def negotiatedVersion (m : StartupMessage) : ProtocolVersion := m.protocolVersion.negotiated

end StartupMessage

def invalid (msg : String) : IoError := ⟨.invalidData, msg⟩

/-- `startup_message`: a protocol 3.0 packet with these parameters. -/
def startupMessage (parameters : List (Bytes × Bytes)) : Bytes :=
  let body := i32ToBe ProtocolVersion.v3_0.code ++
    parameters.flatMap (fun p => p.1 ++ 0 :: (p.2 ++ [0])) ++ [0]
  i32ToBe ((body.length + 4 : Nat) : Int) ++ body

/-- `cancel_request_frame`. -/
def cancelRequestFrame (key : Bytes) : Bytes :=
  i32ToBe ((8 + key.length : Nat) : Int) ++ i32ToBe cancelRequestCode ++ key

/-- `read_startup_frame`: the packet and what the transport keeps. -/
def readStartupFrame (stream : Bytes) : Except IoError Bytes × Bytes :=
  match stream with
  | a :: b :: c :: d :: rest =>
    let len := i32OfBe a b c d
    if 8 ≤ len ∧ len ≤ maxStartupPacketLen then
      if (len - 4).toNat ≤ rest.length then
        (.ok (a :: b :: c :: d :: rest.take (len - 4).toNat), rest.drop (len - 4).toNat)
      else (.error earlyEof, [])
    else (.error (invalid s!"invalid startup packet length: {len}"), rest)
  | _ => (.error earlyEof, [])

/-- `read_cstr`: the text up to the next NUL and what follows it. -/
def readCstr (buf : Bytes) : Except IoError (Bytes × Bytes) :=
  match splitOnce 0 buf with
  | none => .error (invalid "unterminated string in startup message")
  | some (s, rest) =>
    if isUtf8 s then .ok (s, rest) else .error (invalid "non-utf8 string in startup message")

theorem readCstr_ok {buf s rest : Bytes} (h : readCstr buf = .ok (s, rest)) :
    buf = s ++ 0 :: rest ∧ 0 ∉ s ∧ isUtf8 s = true := by
  unfold readCstr at h
  split at h
  · cases h
  · rename_i s' rest' hs
    split at h
    · rename_i hu
      cases h
      exact ⟨(splitOnce_eq_some hs).1, (splitOnce_eq_some hs).2, hu⟩
    · cases h

/-- The loop of `parse_parameters`. Each round consumes a byte, so the buffer's length bounds the
rounds; out of rounds the buffer is empty. -/
def parseParametersLoop : Nat → Bytes → Except IoError (List (Bytes × Bytes))
  | 0, _ => .error (invalid "unterminated string in startup message")
  | n + 1, buf =>
    match readCstr buf with
    | .error e => .error e
    | .ok (key, rest) =>
      if key = [] then .ok []
      else match readCstr rest with
        | .error e => .error e
        | .ok (value, rest') => (parseParametersLoop n rest').map ((key, value) :: ·)

/-- `parse_parameters`: `key NUL value NUL` pairs up to an empty key. -/
def parseParameters (buf : Bytes) : Except IoError (List (Bytes × Bytes)) :=
  parseParametersLoop buf.length buf

/-- `StartupRequest::parse`. A code whose length guard fails falls through to a
`StartupMessage`. -/
def StartupRequest.parse (frame : Bytes) : Except IoError StartupRequest :=
  match frame with
  | a :: b :: c :: d :: e :: f :: g :: h :: body =>
    let len := i32OfBe a b c d
    let code := i32OfBe e f g h
    if code = sslRequestCode ∧ len = 8 then .ok .ssl
    else if code = gssencRequestCode ∧ len = 8 then .ok .gssEnc
    else if code = cancelRequestCode ∧ 16 ≤ len then .ok (.cancel ⟨body⟩)
    else (parseParameters body).map fun ps => .startup ⟨.fromCode code, ps, frame⟩
  | _ => .error (invalid "startup frame shorter than 8 bytes")

/-- `read_startup_request`. -/
def readStartupRequest (stream : Bytes) : Except IoError StartupRequest × Bytes :=
  match readStartupFrame stream with
  | (.ok frame, rest) => (StartupRequest.parse frame, rest)
  | (.error e, rest) => (.error e, rest)

/-- A parsed message keeps the frame it was parsed from. -/
theorem StartupRequest.parse_raw {frame : Bytes} {msg : StartupMessage}
    (h : StartupRequest.parse frame = .ok (.startup msg)) : msg.frame = frame := by
  unfold StartupRequest.parse at h
  split at h
  · simp only at h
    split at h
    · cases h
    split at h
    · cases h
    split at h
    · cases h
    rename_i body _ _ _
    cases hp : parseParameters body with
    | error e => rw [hp] at h; cases h
    | ok ps => rw [hp] at h; cases h; rfl
  · cases h

end RamaPg.Startup
