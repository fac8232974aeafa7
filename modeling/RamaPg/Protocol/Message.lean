import RamaPg.Protocol.Framing
import RamaPg.Protocol.Startup
import RamaPg.Lib.Dialog

/-!
# Messages and message dialogues

The builders of `protocol/message.rs`, and the programs that exchange messages over a stream. A
read is a `read_message_capped` with its limit; `received` is what such a read finds in the bytes
that have come so far.
-/

namespace RamaPg.Codec

open RamaPg.Lib RamaPg.Startup

/-! ## Builders -/

namespace Auth

def ok : Int := 0
def cleartextPassword : Int := 3
def md5Password : Int := 5
def sasl : Int := 10
def saslContinue : Int := 11
def saslFinal : Int := 12

end Auth

namespace Message

def authenticationOk : Bytes := frame Tag.authentication (i32ToBe Auth.ok)

/-- `authentication_sasl`: the mechanism names, ended by an empty one. -/
def authenticationSasl (mechanisms : List Bytes) : Bytes :=
  frame Tag.authentication (i32ToBe Auth.sasl ++ mechanisms.flatMap (· ++ [0]) ++ [0])

def saslMessage (subtype : Int) (data : Bytes) : Bytes :=
  frame Tag.authentication (i32ToBe subtype ++ data)

def authenticationSaslContinue (data : Bytes) : Bytes := saslMessage Auth.saslContinue data

def authenticationSaslFinal (data : Bytes) : Bytes := saslMessage Auth.saslFinal data

def backendKeyDataRaw (payload : Bytes) : Bytes := frame Tag.backendKeyData payload

def readyForQuery (status : UInt8) : Bytes := frame Tag.readyForQuery [status]

/-- `put_cstr`. -/
def cstr (value : Bytes) : Bytes := value ++ [0]

def parameterStatus (name value : Bytes) : Bytes :=
  frame Tag.parameterStatus (cstr name ++ cstr value)

def commandComplete (tag : Bytes) : Bytes := frame Tag.commandComplete (cstr tag)

def textOid : Int := 25

/-- One column of a `RowDescription`: no table, variable-size text. -/
def columnDescription (name : Bytes) : Bytes :=
  cstr name ++ i32ToBe 0 ++ i16ToBe 0 ++ i32ToBe textOid ++ i16ToBe (-1) ++ i32ToBe (-1) ++ i16ToBe 0

def rowDescription (columns : List Bytes) : Bytes :=
  frame Tag.rowDescription (i16ToBe columns.length ++ columns.flatMap columnDescription)

/-- One value of a `DataRow`, with its length; a NULL has length `-1`. -/
def dataValue : Option Bytes → Bytes
  | some text => i32ToBe text.length ++ text
  | none => i32ToBe (-1)

def dataRow (values : List (Option Bytes)) : Bytes :=
  frame Tag.dataRow (i16ToBe values.length ++ values.flatMap dataValue)

/-- The body of a `NegotiateProtocolVersion`: the version to use, then the unrecognised options. -/
def negotiateBody (version : ProtocolVersion) (unsupported : List Bytes) : Bytes :=
  i32ToBe version.code ++ i32ToBe unsupported.length ++ unsupported.flatMap cstr

/-- `negotiate_protocol_version`. -/
def negotiateProtocolVersion (version : ProtocolVersion) (unsupported : List Bytes) : Bytes :=
  frame Tag.negotiateProtocolVersion (negotiateBody version unsupported)

/-- `put_field`. -/
def field (fieldType : UInt8) (value : Bytes) : Bytes := fieldType :: cstr value

def errorResponse (severity code message : Bytes) : Bytes :=
  frame Tag.errorResponse
    (field 83 severity ++ field 86 severity ++ field 67 code ++ field 77 message ++ [0])

def fatalError (code message : Bytes) : Bytes := errorResponse (ascii "FATAL") code message

end Message

/-- The `Int32` sub-type an `Authentication` payload starts with. -/
def subtypeOf : Bytes → Option Int
  | a :: b :: c :: d :: _ => some (i32OfBe a b c d)
  | _ => none

theorem subtypeOf_i32ToBe {n : Nat} (h : n < 2 ^ 31) (rest : Bytes) :
    subtypeOf (i32ToBe n ++ rest) = some (n : Int) := by
  rw [i32ToBe_natCast (by omega)]
  simp only [u32ToBe, List.cons_append, List.nil_append, subtypeOf, i32OfBe_i32ToBe h]

/-- The bytes are an `AuthenticationSASLFinal` frame. -/
def IsSaslFinal (bs : Bytes) : Prop := ∃ data, bs = Message.authenticationSaslFinal data

theorem Message.saslMessage_inj {s s' : Nat} {data data' : Bytes} (hs : s < 2 ^ 31)
    (hs' : s' < 2 ^ 31) (h : saslMessage s data = saslMessage s' data') : s = s' := by
  have hp := congrArg (List.drop 5) h
  have hb : i32ToBe s ++ data = i32ToBe s' ++ data' := hp
  have := congrArg subtypeOf hb
  rw [subtypeOf_i32ToBe hs, subtypeOf_i32ToBe hs'] at this
  simpa using this

/-- Frames of different tags differ. -/
theorem frame_tag_ne {t t' : UInt8} {b b' : Bytes} (h : t ≠ t') : frame t b ≠ frame t' b' := by
  intro he; exact h (List.cons.inj he).1

/-! ## Dialogues -/

/-- The errors a dialogue returns. The last three carry the names their texts show. -/
inductive BoxError where
  | io (e : IoError)
  | text (s : String)
  | utf8
  | base64
  | unsupportedMechanism (name : Bytes)
  | notOffered (mechanisms : List Bytes)
  | noCredentials (user : Bytes)
  deriving DecidableEq

/-- Programs over one stream; a read carries its length limit. -/
abbrev Io := Prog Int RawMessage BoxError

/-- `read_message_capped`. -/
def ioReadCapped (maxLen : Int) : Io RawMessage := Prog.recv maxLen

/-- `read_message`. -/
def ioRead : Io RawMessage := ioReadCapped maxMessageLen

/-- `write_all` and `flush`. -/
def ioWrite (bs : Bytes) : Io Unit := Prog.send bs

/-- What `read_message_capped` returns on the bytes that have come, `none` while it waits. -/
def received : Receive Int RawMessage BoxError := fun maxLen bs =>
  match bs with
  | t :: a :: b :: c :: d :: body =>
    match MessageHeader.parse t a b c d maxLen with
    | .error e => some (.error (.io e), body)
    | .ok h =>
      if h.bodyLen ≤ body.length then
        some (.ok ⟨t :: a :: b :: c :: d :: body.take h.bodyLen, by simp⟩, body.drop h.bodyLen)
      else none
  | _ => none

theorem received_stable : received.Stable := by
  intro maxLen bs r rest more h
  match bs, h with
  | t :: a :: b :: c :: d :: body, h =>
    simp only [received, List.cons_append] at h ⊢
    cases hp : MessageHeader.parse t a b c d maxLen with
    | error e => rw [hp] at h; cases h; rfl
    | ok hd =>
      rw [hp] at h
      simp only at h ⊢
      split at h
      · rename_i hle
        cases h
        rw [if_pos (by simp; omega)]
        simp only [List.take_append_of_le_length hle, List.drop_append_of_le_length hle]
      · cases h

theorem parse_frame {maxLen : Int} {t : UInt8} {body : Bytes}
    (hlen : ((body.length + 4 : Nat) : Int) ≤ maxLen) (hmax : maxLen < 2 ^ 31) :
    ∃ a b c d h, frame t body = t :: a :: b :: c :: d :: body ∧
      MessageHeader.parse t a b c d maxLen = .ok h ∧ h.bodyLen = body.length := by
  have hlt : body.length + 4 < 2 ^ 31 := by omega
  have hr := i32OfBe_i32ToBe hlt
  refine ⟨UInt8.ofNat ((body.length + 4) / 2 ^ 24), UInt8.ofNat ((body.length + 4) / 2 ^ 16),
    UInt8.ofNat ((body.length + 4) / 2 ^ 8), UInt8.ofNat (body.length + 4),
    ⟨t, _, _, _, _, by rw [hr]; omega⟩, ?_, ?_, ?_⟩
  · rw [frame, i32ToBe_natCast (by omega)]; rfl
  · rw [MessageHeader.parse, dif_pos ⟨by rw [hr]; omega, by rw [hr]; omega⟩]
  · simp only [MessageHeader.bodyLen, MessageHeader.len, hr]; omega

/-- A frame that fits the limit is received whole. -/
theorem received_frame {maxLen : Int} {t : UInt8} {body : Bytes}
    (hlen : ((body.length + 4 : Nat) : Int) ≤ maxLen) (hmax : maxLen < 2 ^ 31) :
    received maxLen (frame t body) = some (.ok (RawMessage.build t body), []) := by
  obtain ⟨a, b, c, d, h, hf, hp, hb⟩ := parse_frame (t := t) hlen hmax
  simp only [received, RawMessage.build, hf, hp, hb, Nat.le_refl, ↓reduceIte, List.take_length,
    List.drop_length]

/-- What `received` finds is what `read_message_capped` returns on the stream those bytes begin,
whatever the reads, once there are enough of them. -/
theorem received_readMessageCapped {maxLen : Int} {bs rest : Bytes}
    {r : Except BoxError RawMessage} (h : received maxLen bs = some (r, rest)) (more : Bytes)
    (sched : List Nat) (hs : (bs ++ more).length < sched.length) :
    ∃ r', readMessageCapped maxLen (bs ++ more) sched = (.done r', rest ++ more) ∧
      r'.mapError .io = r := by
  have hm := received_stable maxLen bs r rest more h
  match bs, h, hm with
  | t :: a :: b :: c :: d :: body, _, hm =>
    obtain ⟨sched', he, hlt⟩ := (fill_spec earlyEof 5 sched [] _ (by simp) hs).1 (by simp)
    simp only [List.length_nil, Nat.sub_zero, List.nil_append, List.cons_append,
      List.take_succ_cons, List.take_zero, List.drop_succ_cons, List.drop_zero] at he hlt hm ⊢
    simp only [readMessageCapped, readHeader, readExact, he]
    simp only [received] at hm
    cases hp : MessageHeader.parse t a b c d maxLen with
    | error e =>
      rw [hp] at hm
      obtain ⟨rfl, hrest⟩ := Prod.mk.inj (Option.some.inj hm)
      exact ⟨_, by rw [← hrest], rfl⟩
    | ok hd =>
      rw [hp] at hm
      simp only at hm ⊢
      have hbytes := MessageHeader.asBytes_parse hp
      split at hm
      · rename_i hle
        obtain ⟨sched2, he2, -⟩ := (fill_spec endedMidMessage (5 + hd.bodyLen) sched' hd.asBytes
          (body ++ more) (by simp [hbytes]) hlt).1 (by simpa [hbytes] using hle)
        simp only [hbytes, List.length_cons, List.length_nil, Nat.zero_add,
          Nat.add_sub_cancel_left] at he2
        simp only [readBody, hbytes, he2]
        obtain ⟨rfl, hrest⟩ := Prod.mk.inj (Option.some.inj hm)
        exact ⟨_, by rw [← hrest], by simp [toMessage, Except.mapError]⟩
      · cases hm

end RamaPg.Codec
