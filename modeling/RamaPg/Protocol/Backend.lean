import RamaPg.Protocol.ResultSet

/-!
# Messages of the server

The messages `protocol/message.rs` can build, as data, and what a client makes of a frame it is
sent: `BackendMessage.decode` goes by the tag and follows the protocol's grammar of the payload.
A message whose counts, lengths and strings fit their places is read back from its frame, and so is
a stream of them, however the reads cut it.
-/

namespace RamaPg.Codec

open RamaPg.Lib RamaPg.Startup

variable {α : Type}

inductive BackendMessage where
  | authenticationOk
  | authenticationCleartextPassword
  | authenticationSasl (mechanisms : List Bytes)
  | authenticationSaslContinue (data : Bytes)
  | authenticationSaslFinal (data : Bytes)
  | parameterStatus (name value : Bytes)
  | backendKeyData (key : Bytes)
  | readyForQuery (status : UInt8)
  | negotiateProtocolVersion (version : ProtocolVersion) (unsupported : List Bytes)
  | rowDescription (columns : List Bytes)
  | dataRow (values : List (Option Bytes))
  | commandComplete (tag : Bytes)
  | errorResponse (severity code message : Bytes)
  deriving DecidableEq

/-! ## Building -/

namespace BackendMessage

/-- The builder of each message. -/
def encode : BackendMessage → Bytes
  | authenticationOk => Message.authenticationOk
  | authenticationCleartextPassword => frame Tag.authentication (i32ToBe Auth.cleartextPassword)
  | authenticationSasl mechanisms => Message.authenticationSasl mechanisms
  | authenticationSaslContinue data => Message.authenticationSaslContinue data
  | authenticationSaslFinal data => Message.authenticationSaslFinal data
  | parameterStatus name value => Message.parameterStatus name value
  | backendKeyData key => Message.backendKeyDataRaw key
  | readyForQuery status => Message.readyForQuery status
  | negotiateProtocolVersion version unsupported =>
    Message.negotiateProtocolVersion version unsupported
  | rowDescription columns => Message.rowDescription columns
  | dataRow values => Message.dataRow values
  | commandComplete tag => Message.commandComplete tag
  | errorResponse severity code message => Message.errorResponse severity code message

def tag : BackendMessage → UInt8
  | authenticationOk | authenticationCleartextPassword | authenticationSasl _
  | authenticationSaslContinue _ | authenticationSaslFinal _ => Tag.authentication
  | parameterStatus _ _ => Tag.parameterStatus
  | backendKeyData _ => Tag.backendKeyData
  | readyForQuery _ => Tag.readyForQuery
  | negotiateProtocolVersion _ _ => Tag.negotiateProtocolVersion
  | rowDescription _ => Tag.rowDescription
  | dataRow _ => Tag.dataRow
  | commandComplete _ => Tag.commandComplete
  | errorResponse _ _ _ => Tag.errorResponse

/-- The message as a reader of frames returns it. -/
def raw (m : BackendMessage) : RawMessage := .build m.tag (m.encode.drop 5)

@[simp] theorem raw_frame (m : BackendMessage) : m.raw.frame = m.encode := by
  cases m <;> rfl

/-- The counts and lengths that the casts of the builders keep, and strings without the NUL that
ends them; a mechanism has a name. -/
def Sendable : BackendMessage → Prop
  | authenticationSasl mechanisms => ∀ m ∈ mechanisms, m ≠ [] ∧ 0 ∉ m
  | parameterStatus name value => 0 ∉ name ∧ 0 ∉ value
  | negotiateProtocolVersion version unsupported =>
    (∃ n : Nat, version.code = n ∧ n < 2 ^ 31) ∧ unsupported.length < 2 ^ 31 ∧
      ∀ option ∈ unsupported, 0 ∉ option
  | rowDescription columns => columns.length < 2 ^ 15 ∧ ∀ name ∈ columns, 0 ∉ name
  | dataRow values => values.length < 2 ^ 15 ∧ ∀ text, some text ∈ values → text.length < 2 ^ 31
  | commandComplete tag => 0 ∉ tag
  | errorResponse severity code message => 0 ∉ severity ∧ 0 ∉ code ∧ 0 ∉ message
  | _ => True

end BackendMessage

/-! ## Reading -/

/-- Items up to a NUL that stands alone, with nothing behind it. -/
def readTerminated (read : Bytes → Option (α × Bytes)) : Nat → Bytes → Option (List α)
  | 0, _ => none
  | n + 1, bs =>
    if bs = [0] then some []
    else
      match read bs with
      | none => none
      | some (a, bs) => (readTerminated read n bs).map (a :: ·)

def readField : Bytes → Option ((UInt8 × Bytes) × Bytes)
  | [] => none
  | fieldType :: bs => (splitOnce 0 bs).map fun p => ((fieldType, p.1), p.2)

def parseMechanismList (bs : Bytes) : Option (List Bytes) :=
  readTerminated (splitOnce 0) (bs.length + 1) bs

def parseFields (bs : Bytes) : Option (List (UInt8 × Bytes)) :=
  readTerminated readField (bs.length + 1) bs

namespace BackendMessage

def parseAuthentication (payload : Bytes) : Option BackendMessage :=
  match subtypeOf payload with
  | none => none
  | some subtype =>
    let data := payload.drop 4
    if subtype = Auth.ok then if data = [] then some .authenticationOk else none
    else if subtype = Auth.cleartextPassword then
      if data = [] then some .authenticationCleartextPassword else none
    else if subtype = Auth.sasl then (parseMechanismList data).map .authenticationSasl
    else if subtype = Auth.saslContinue then some (.authenticationSaslContinue data)
    else if subtype = Auth.saslFinal then some (.authenticationSaslFinal data)
    else none

def parseParameterStatus (payload : Bytes) : Option BackendMessage :=
  match splitOnce 0 payload with
  | none => none
  | some (name, bs) =>
    match splitOnce 0 bs with
    | some (value, []) => some (.parameterStatus name value)
    | _ => none

def parseNegotiate : Bytes → Option BackendMessage
  | a :: b :: c :: d :: e :: f :: g :: h :: bs =>
    if i32OfBe e f g h < 0 then none
    else
      match readMany (splitOnce 0) (i32OfBe e f g h).toNat bs with
      | some (unsupported, []) =>
        some (.negotiateProtocolVersion (.fromCode (i32OfBe a b c d)) unsupported)
      | _ => none
  | _ => none

/-- A client goes by the types of the fields, and by the severity that is not translated. -/
def parseErrorResponse (payload : Bytes) : Option BackendMessage :=
  match parseFields payload with
  | none => none
  | some fields =>
    match fields.lookup 86, fields.lookup 67, fields.lookup 77 with
    | some severity, some code, some message => some (.errorResponse severity code message)
    | _, _, _ => none

def decode (m : RawMessage) : Option BackendMessage :=
  if m.tag = Tag.authentication then parseAuthentication m.payload
  else if m.tag = Tag.parameterStatus then parseParameterStatus m.payload
  else if m.tag = Tag.backendKeyData then some (.backendKeyData m.payload)
  else if m.tag = Tag.readyForQuery then
    match m.payload with
    | [status] => some (.readyForQuery status)
    | _ => none
  else if m.tag = Tag.negotiateProtocolVersion then parseNegotiate m.payload
  else if m.tag = Tag.rowDescription then (parseRowDescription m.payload).map .rowDescription
  else if m.tag = Tag.dataRow then (parseDataRow m.payload).map .dataRow
  else if m.tag = Tag.commandComplete then (parseCommandComplete m.payload).map .commandComplete
  else if m.tag = Tag.errorResponse then parseErrorResponse m.payload
  else none

end BackendMessage

/-! ## Reading what was built -/

theorem readTerminated_flatMap {read : Bytes → Option (α × Bytes)} {emit : α → Bytes} {as : List α}
    (h : ∀ a ∈ as, ∀ rest, read (emit a ++ rest) = some (a, rest) ∧ emit a ++ rest ≠ [0]) :
    ∀ {n : Nat}, as.length < n → readTerminated read n (as.flatMap emit ++ [0]) = some as := by
  induction as with
  | nil =>
    intro n hn
    obtain ⟨n, rfl⟩ := Nat.exists_eq_succ_of_ne_zero (by omega : n ≠ 0)
    rfl
  | cons a as ih =>
    intro n hn
    obtain ⟨n, rfl⟩ := Nat.exists_eq_succ_of_ne_zero (by omega : n ≠ 0)
    obtain ⟨hread, hne⟩ := h a List.mem_cons_self (as.flatMap emit ++ [0])
    have hs := ih (fun b hb => h b (List.mem_cons_of_mem _ hb))
      (by rw [List.length_cons] at hn; omega : as.length < n)
    rw [List.flatMap_cons, List.append_assoc, readTerminated, if_neg hne, hread]
    simp only [hs, Option.map_some]

theorem splitOnce_cstr {s : Bytes} (h : 0 ∉ s) (rest : Bytes) :
    splitOnce 0 (Message.cstr s ++ rest) = some (s, rest) := by
  rw [Message.cstr, List.append_assoc]
  exact splitOnce_append h rest

theorem length_le_flatMap {emit : α → Bytes} (h : ∀ a, emit a ≠ []) (as : List α) :
    as.length ≤ (as.flatMap emit).length := by
  induction as with
  | nil => exact Nat.le_refl _
  | cons a as ih =>
    have hpos := List.length_pos_of_ne_nil (h a)
    rw [List.flatMap_cons, List.length_append, List.length_cons]
    omega

theorem parseMechanismList_build {mechanisms : List Bytes}
    (h : ∀ m ∈ mechanisms, m ≠ [] ∧ 0 ∉ m) :
    parseMechanismList (mechanisms.flatMap (· ++ [0]) ++ [0]) = some mechanisms := by
  refine readTerminated_flatMap (fun m hm rest => ⟨splitOnce_cstr (h m hm).2 rest, ?_⟩) ?_
  · obtain ⟨b, bs, rfl⟩ := List.exists_cons_of_ne_nil (h m hm).1
    simp [Message.cstr]
  · have := length_le_flatMap (fun m : Bytes => by simp : ∀ m : Bytes, m ++ [0] ≠ []) mechanisms
    rw [List.length_append]
    omega

theorem parseFields_build {fields : List (UInt8 × Bytes)} (h : ∀ f ∈ fields, 0 ∉ f.2) :
    parseFields (fields.flatMap (fun f => Message.field f.1 f.2) ++ [0]) = some fields := by
  refine readTerminated_flatMap (fun f hf rest => ⟨?_, ?_⟩) ?_
  · rw [Message.field, List.cons_append, readField, splitOnce_cstr (h f hf)]
    rfl
  · simp [Message.field, Message.cstr]
  · have := length_le_flatMap (fun f : UInt8 × Bytes => by simp [Message.field] :
      ∀ f : UInt8 × Bytes, Message.field f.1 f.2 ≠ []) fields
    rw [List.length_append]
    omega

namespace BackendMessage

theorem parseParameterStatus_build {name value : Bytes} (hn : 0 ∉ name) (hv : 0 ∉ value) :
    parseParameterStatus (Message.cstr name ++ Message.cstr value) =
      some (.parameterStatus name value) := by
  have hvalue := splitOnce_cstr hv []
  rw [List.append_nil] at hvalue
  simp only [parseParameterStatus, splitOnce_cstr hn, hvalue]

theorem parseNegotiate_build {n : Nat} (hn : n < 2 ^ 31) {unsupported : List Bytes}
    (hlen : unsupported.length < 2 ^ 31) (h : ∀ option ∈ unsupported, 0 ∉ option) :
    parseNegotiate (Message.negotiateBody ⟨n⟩ unsupported) =
      some (.negotiateProtocolVersion ⟨n⟩ unsupported) := by
  have hmany := readMany_flatMap (fun o ho => splitOnce_cstr (h o ho)) ([] : Bytes)
  rw [List.append_nil] at hmany
  have hcode := i32OfBe_i32ToBe hn
  have hcount := i32OfBe_i32ToBe hlen
  have hpos : ¬ ((unsupported.length : Nat) : Int) < 0 := by omega
  rw [Message.negotiateBody, i32ToBe_natCast (by omega), i32ToBe_natCast (by omega)]
  simp only [u32ToBe, List.cons_append, List.nil_append, parseNegotiate, hcode, hcount, hpos,
    ↓reduceIte, Int.toNat_natCast, hmany, ProtocolVersion.fromCode]

theorem parseErrorResponse_build {severity code message : Bytes} (hs : 0 ∉ severity)
    (hc : 0 ∉ code) (hm : 0 ∉ message) :
    parseErrorResponse (Message.field 83 severity ++ Message.field 86 severity ++
      Message.field 67 code ++ Message.field 77 message ++ [0]) =
        some (.errorResponse severity code message) := by
  have hfields := @parseFields_build [(83, severity), (86, severity), (67, code), (77, message)]
    (by simp [hs, hc, hm])
  simp only [List.flatMap_cons, List.flatMap_nil, List.append_nil, ← List.append_assoc] at hfields
  rw [parseErrorResponse, hfields]
  rfl

/-- Every message is read back from its frame. -/
theorem decode_raw {m : BackendMessage} (h : m.Sendable) : decode m.raw = some m := by
  cases m with
  | authenticationOk | authenticationCleartextPassword | backendKeyData | readyForQuery => rfl
  | authenticationSasl mechanisms =>
    show parseAuthentication (i32ToBe Auth.sasl ++ mechanisms.flatMap (· ++ [0]) ++ [0]) = _
    have hsasl : ∀ data, parseAuthentication (i32ToBe Auth.sasl ++ data) =
        (parseMechanismList data).map .authenticationSasl := fun _ => rfl
    rw [List.append_assoc, hsasl, parseMechanismList_build h]
    rfl
  | authenticationSaslContinue data | authenticationSaslFinal data => rfl
  | parameterStatus name value => exact parseParameterStatus_build h.1 h.2
  | negotiateProtocolVersion version unsupported =>
    obtain ⟨⟨n, hcode, hn⟩, hlen, hnul⟩ := h
    obtain rfl : version = ⟨n⟩ := congrArg ProtocolVersion.mk hcode
    exact parseNegotiate_build hn hlen hnul
  | rowDescription columns =>
    exact congrArg (Option.map _) (parseRowDescription_build h.1 h.2)
  | dataRow values => exact congrArg (Option.map _) (parseDataRow_build h.1 h.2)
  | commandComplete tag => exact congrArg (Option.map _) (parseCommandComplete_build h)
  | errorResponse severity code message => exact parseErrorResponse_build h.1 h.2.1 h.2.2

/-! ## Streams -/

/-- The frame is not longer than the readers allow. -/
def Fits (m : BackendMessage) : Prop := (m.encode.length : Int) ≤ maxMessageLen + 1

instance (m : BackendMessage) : Decidable m.Fits := inferInstanceAs (Decidable (_ ≤ _))

theorem isFrame_raw {m : BackendMessage} (h : m.Fits) : IsFrame maxMessageLen m.raw.frame := by
  have hcap : maxMessageLen = 2 ^ 30 := rfl
  have hlen : m.raw.frame.length = (m.encode.drop 5).length + 5 := length_frame _ _
  rw [Fits, ← raw_frame, hlen, hcap] at h
  exact isFrame_frame (by omega) (by rw [hcap]; omega)

theorem flatMap_encode (ms : List BackendMessage) :
    ms.flatMap encode = (ms.map raw).flatMap RawMessage.frame := by
  rw [List.flatMap_map]
  exact List.flatMap_congr fun m _ => (raw_frame m).symm

/-- What is read of a stream: each frame whole, and each message as it was sent. -/
structure ReadBack (bytes : Bytes) (ms : List BackendMessage) (raws : List RawMessage) : Prop where
  framed : ∀ calls : List (List Nat), bytes.length < (calls.filter (· ≠ [])).length →
    (drive FramedReader.new bytes calls).1 = raws.map (fun m => .ok (some m)) ++ [.ok none]
  whole : ∀ scheds : List (List Nat), scheds.length = raws.length →
    (∀ s ∈ scheds, bytes.length < s.length) → readMessages scheds bytes = (raws.map .ok, [])
  decoded : raws.map decode = ms.map some

end BackendMessage

/-- **A stream of server messages is read back**, by either reader, whatever the reads. -/
theorem server_stream_read_back {ms : List BackendMessage} (h : ∀ m ∈ ms, m.Sendable ∧ m.Fits) :
    BackendMessage.ReadBack (ms.flatMap BackendMessage.encode) ms (ms.map BackendMessage.raw) := by
  have hframe : ∀ m ∈ ms.map BackendMessage.raw, IsFrame maxMessageLen m.frame := by
    intro _ hraw
    obtain ⟨m, hm, rfl⟩ := List.mem_map.mp hraw
    exact BackendMessage.isFrame_raw (h m hm).2
  have hbytes : ms.flatMap BackendMessage.encode =
      (ms.map BackendMessage.raw).flatMap RawMessage.frame ++ [] := by
    rw [List.append_nil, BackendMessage.flatMap_encode]
  refine ⟨fun calls hcalls => ?_, fun scheds hn hs => ?_, ?_⟩
  · have hall := ((framedReader_refines_decode maxMessageLen _ calls).1).2 hcalls
    rw [hbytes, decode_frames hframe, decode_nil] at hall
    rw [hbytes]
    exact hall
  · rw [hbytes] at hs ⊢
    exact readMessages_frames hframe [] hn hs
  · rw [List.map_map]
    exact List.map_congr_left fun m hm => BackendMessage.decode_raw (h m hm).1

/-- A client that asked too much is offered an older version, a choice of mechanisms, and refused. -/
def refusedGreeting : List BackendMessage :=
  [.negotiateProtocolVersion .v3_0 [ascii "_pq_.option"],
    .authenticationSasl [ascii "SCRAM-SHA-256-PLUS", ascii "SCRAM-SHA-256"],
    .errorResponse (ascii "FATAL") (ascii "28P01") (ascii "password authentication failed")]

theorem server_stream_read_back_greeting :
    (∀ m ∈ refusedGreeting, m.Sendable ∧ m.Fits) ∧
      (refusedGreeting.map BackendMessage.raw).map BackendMessage.decode =
        refusedGreeting.map some := by
  have h : ∀ m ∈ refusedGreeting, m.Sendable ∧ m.Fits := by
    intro m hm
    simp only [refusedGreeting, List.mem_cons, List.not_mem_nil, or_false] at hm
    rcases hm with rfl | rfl | rfl
    · exact ⟨⟨⟨196608, rfl, by decide⟩, by decide, by decide⟩, by decide⟩
    · have hnames : ∀ name ∈ [ascii "SCRAM-SHA-256-PLUS", ascii "SCRAM-SHA-256"],
          name ≠ [] ∧ 0 ∉ name := by
        decide
      exact ⟨hnames, by decide⟩
    · exact ⟨⟨by decide, by decide, by decide⟩, by decide⟩
  exact ⟨h, (server_stream_read_back h).decoded⟩

end RamaPg.Codec
