import RamaPg.Lib.Bytes

/-!
# Tagged-message framing

The model of `protocol/codec.rs`. A frame is a tag byte, a big-endian `i32` length that counts
itself but not the tag, and the body.

A transport is the byte string `rest` it has still to deliver before its end of stream. One
completed read of at most `want` bytes is `readBuf want c rest`: the transport has `c + 1` bytes
ready, so the read is empty only at the end of the stream (or when nothing was asked for), and
every splitting of the stream into reads is some sequence of `c`s. An asynchronous read takes the
list of reads that complete before its future is dropped; it is `pending` when that list runs out.
-/

namespace RamaPg.Codec

open RamaPg.Lib

namespace Tag

def authentication : UInt8 := 82
def backendKeyData : UInt8 := 75
def parameterStatus : UInt8 := 83
def readyForQuery : UInt8 := 90
def errorResponse : UInt8 := 69
def negotiateProtocolVersion : UInt8 := 118
def rowDescription : UInt8 := 84
def dataRow : UInt8 := 68
def commandComplete : UInt8 := 67
def passwordMessage : UInt8 := 112
def query : UInt8 := 81
def terminate : UInt8 := 88

end Tag

def maxMessageLen : Int := 2 ^ 30

def maxAuthMessageLen : Int := 2 ^ 16

/-! ## Errors -/

/-- The `io::ErrorKind`s the codec reports. -/
inductive ErrorKind where
  | invalidData
  | unexpectedEof
  | invalidInput
  deriving DecidableEq, Repr

structure IoError where
  kind : ErrorKind
  msg : String
  deriving DecidableEq, Repr

def hexDigits (n : Nat) : String := String.ofList (Nat.toDigits 16 n)

/-- `{:?}` of a byte taken as a `char`: printable characters stand for themselves. -/
def charDebug (b : UInt8) : String :=
  if b = 0 then "'\\0'" else if b = 9 then "'\\t'" else if b = 10 then "'\\n'"
  else if b = 13 then "'\\r'" else if b = 39 then "'\\''" else if b = 92 then "'\\\\'"
  else if (32 ≤ b ∧ b ≤ 126) ∨ (161 ≤ b ∧ b ≠ 173) then s!"'{Char.ofNat b.toNat}'"
  else "'\\u\x7b" ++ hexDigits b.toNat ++ "\x7d'"

def invalidLength (len : Int) (tag : UInt8) : IoError :=
  ⟨.invalidData, s!"invalid message length {len} for tag {charDebug tag}"⟩

def endedMidMessage : IoError := ⟨.unexpectedEof, "stream ended mid-message"⟩

/-- `read_exact` at the end of the stream. -/
def earlyEof : IoError := ⟨.unexpectedEof, "early eof"⟩

/-! ## Headers and frames -/

/-- A validated header: the tag and the four length bytes. -/
structure MessageHeader where
  tag : UInt8
  l0 : UInt8
  l1 : UInt8
  l2 : UInt8
  l3 : UInt8
  valid : 4 ≤ i32OfBe l0 l1 l2 l3
  deriving DecidableEq

namespace MessageHeader

def parse (t a b c d : UInt8) (maxLen : Int) : Except IoError MessageHeader :=
  if h : 4 ≤ i32OfBe a b c d ∧ i32OfBe a b c d ≤ maxLen then .ok ⟨t, a, b, c, d, h.1⟩
  else .error (invalidLength (i32OfBe a b c d) t)

def len (h : MessageHeader) : Int := i32OfBe h.l0 h.l1 h.l2 h.l3

def bodyLen (h : MessageHeader) : Nat := (h.len - 4).toNat

def asBytes (h : MessageHeader) : Bytes := [h.tag, h.l0, h.l1, h.l2, h.l3]

end MessageHeader

/-- A complete frame, kept verbatim. -/
structure RawMessage where
  frame : Bytes
  wf : 5 ≤ frame.length
  deriving DecidableEq

namespace RawMessage

def tag (m : RawMessage) : UInt8 := m.frame.get ⟨0, by have := m.wf; omega⟩

def payload (m : RawMessage) : Bytes := m.frame.drop 5

def asBytes (m : RawMessage) : Bytes := m.frame

theorem ext_frame {m n : RawMessage} (h : m.frame = n.frame) : m = n := by
  cases m; cases n; cases h; rfl

end RawMessage

/-- Build a frame from a tag and a body. -/
def frame (tag : UInt8) (body : Bytes) : Bytes :=
  tag :: (i32ToBe ((body.length + 4 : Nat) : Int) ++ body)

@[simp] theorem length_frame (tag : UInt8) (body : Bytes) :
    (frame tag body).length = body.length + 5 := by
  simp [frame]; omega

def RawMessage.build (tag : UInt8) (body : Bytes) : RawMessage :=
  ⟨Codec.frame tag body, by simp⟩

@[simp] theorem RawMessage.tag_build (t : UInt8) (body : Bytes) :
    (RawMessage.build t body).tag = t := rfl

@[simp] theorem RawMessage.payload_build (t : UInt8) (body : Bytes) :
    (RawMessage.build t body).payload = body := rfl

/-! ## Reads -/

/-- One completed read of at most `want` bytes: what it got and what the transport keeps. -/
def readBuf (want c : Nat) (rest : Bytes) : Bytes × Bytes :=
  (rest.take (min (c + 1) want), rest.drop (min (c + 1) want))

/-- Where an asynchronous read stands. -/
inductive Outcome (α : Type) where
  | pending
  | done (r : α)
  deriving DecidableEq

/-- Read until `acc` holds `want` bytes; `eof` is the error of a stream that ends before. -/
def fill (eof : IoError) (want : Nat) : Bytes → Bytes → List Nat →
    Outcome (Except IoError Bytes) × Bytes × List Nat
  | acc, rest, sched =>
    if want ≤ acc.length then (.done (.ok acc), rest, sched)
    else match sched with
      | [] => (.pending, rest, [])
      | c :: sched =>
        if (readBuf (want - acc.length) c rest).1 = [] then (.done (.error eof), rest, sched)
        else fill eof want (acc ++ (readBuf (want - acc.length) c rest).1)
          (readBuf (want - acc.length) c rest).2 sched

/-- `read_exact` into an empty buffer of `want` bytes. -/
def readExact (want : Nat) (rest : Bytes) (sched : List Nat) :
    Outcome (Except IoError Bytes) × Bytes × List Nat :=
  fill earlyEof want [] rest sched

/-- `read_header`. -/
def readHeader (maxLen : Int) (rest : Bytes) (sched : List Nat) :
    Outcome (Except IoError MessageHeader) × Bytes × List Nat :=
  match readExact 5 rest sched with
  | (.done (.ok [t, a, b, c, d]), rest, sched) =>
    (.done (MessageHeader.parse t a b c d maxLen), rest, sched)
  | (.done (.ok _), rest, sched) => (.done (.error earlyEof), rest, sched)
  | (.done (.error e), rest, sched) => (.done (.error e), rest, sched)
  | (.pending, rest, sched) => (.pending, rest, sched)

/-- The body loop of `read_message_capped`: grow `frame` up to `total` bytes. -/
def readBody (total : Nat) (frame rest : Bytes) (sched : List Nat) :
    Outcome (Except IoError Bytes) × Bytes × List Nat :=
  fill endedMidMessage total frame rest sched

/-- A byte string as a message; a frame is never shorter than its header. -/
def toMessage (bs : Bytes) : Except IoError RawMessage :=
  if h : 5 ≤ bs.length then .ok ⟨bs, h⟩ else .error endedMidMessage

/-- `read_message_capped`. -/
def readMessageCapped (maxLen : Int) (rest : Bytes) (sched : List Nat) :
    Outcome (Except IoError RawMessage) × Bytes :=
  match readHeader maxLen rest sched with
  | (.done (.ok h), rest, sched) =>
    match readBody (5 + h.bodyLen) h.asBytes rest sched with
    | (.done (.ok bs), rest, _) => (.done (toMessage bs), rest)
    | (.done (.error e), rest, _) => (.done (.error e), rest)
    | (.pending, rest, _) => (.pending, rest)
  | (.done (.error e), rest, _) => (.done (.error e), rest)
  | (.pending, rest, _) => (.pending, rest)

/-- `read_message`. -/
def readMessage (rest : Bytes) (sched : List Nat) : Outcome (Except IoError RawMessage) × Bytes :=
  readMessageCapped maxMessageLen rest sched

/-! ## The cancel-safe reader -/

structure FramedReader where
  buf : Bytes
  maxLen : Int
  deriving DecidableEq

namespace FramedReader

def withMaxLen (maxLen : Int) : FramedReader := ⟨[], maxLen⟩

def new : FramedReader := withMaxLen maxMessageLen

/-- What the head of the `read_frame` loop decides from the buffer. -/
inductive Advance where
  | read (missing : Nat)
  | frame (m : RawMessage) (buf : Bytes)
  | fail (e : IoError)

/-- The loop head: the buffer holds a partial header, a bad header, a whole frame or a part
of one. -/
def advance (r : FramedReader) : Advance :=
  match r.buf with
  | t :: a :: b :: c :: d :: body =>
    match MessageHeader.parse t a b c d r.maxLen with
    | .error e => .fail e
    | .ok h =>
      if hl : (t :: a :: b :: c :: d :: body).length = 5 + h.bodyLen then
        .frame ⟨(t :: a :: b :: c :: d :: body).take (5 + h.bodyLen), by simp at hl ⊢⟩
          ((t :: a :: b :: c :: d :: body).drop (5 + h.bodyLen))
      else .read (5 + h.bodyLen - (t :: a :: b :: c :: d :: body).length)
  | _ => .read (5 - r.buf.length)

/-- `read_frame` with the reads that complete before its future is dropped: the outcome, the
reader and what the transport keeps. -/
def readFrame : FramedReader → Bytes → List Nat →
    Outcome (Except IoError (Option RawMessage)) × FramedReader × Bytes
  | r, rest, sched =>
    match r.advance with
    | .fail e => (.done (.error e), r, rest)
    | .frame m buf => (.done (.ok (some m)), { r with buf := buf }, rest)
    | .read missing =>
      match sched with
      | [] => (.pending, r, rest)
      | c :: sched =>
        if (readBuf missing c rest).1 = [] then
          (.done (if r.buf.isEmpty then .ok none else .error endedMidMessage), r, rest)
        else readFrame { r with buf := r.buf ++ (readBuf missing c rest).1 }
          (readBuf missing c rest).2 sched

end FramedReader

end RamaPg.Codec
