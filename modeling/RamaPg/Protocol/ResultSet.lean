import RamaPg.Protocol.Message

/-!
# Reading a result set

What a client makes of the messages of a result set: `parseRowDescription`, `parseDataRow` and
`parseCommandComplete` follow the protocol's grammar, with a count in front of the columns and of
the values of a row, a NUL behind each name and a length in front of each value. They undo the
builders on every table whose counts and lengths the casts of the builders keep.
-/

namespace RamaPg.Codec

open RamaPg.Lib

variable {α : Type}

/-! ## The grammar -/

/-- `n` items, one after the other. -/
def readMany (read : Bytes → Option (α × Bytes)) : Nat → Bytes → Option (List α × Bytes)
  | 0, bs => some ([], bs)
  | n + 1, bs =>
    match read bs with
    | none => none
    | some (a, bs) =>
      match readMany read n bs with
      | none => none
      | some (as, bs) => some (a :: as, bs)

/-- An `Int16` and that many items, with nothing behind them. -/
def readCounted (read : Bytes → Option (α × Bytes)) : Bytes → Option (List α)
  | a :: b :: bs =>
    if i16OfBe a b < 0 then none
    else
      match readMany read (i16OfBe a b).toNat bs with
      | some (as, []) => some as
      | _ => none
  | _ => none

/-- A column: its name and the 18 bytes of its table, number, type and format. -/
def readColumn (bs : Bytes) : Option (Bytes × Bytes) :=
  match splitOnce 0 bs with
  | none => none
  | some (name, bs) => if 18 ≤ bs.length then some (name, bs.drop 18) else none

/-- A value behind its length; the length `-1` is a NULL. -/
def readValue : Bytes → Option (Option Bytes × Bytes)
  | a :: b :: c :: d :: bs =>
    let len := i32OfBe a b c d
    if len = -1 then some (none, bs)
    else if 0 ≤ len ∧ len.toNat ≤ bs.length then some (some (bs.take len.toNat), bs.drop len.toNat)
    else none
  | _ => none

def parseRowDescription (payload : Bytes) : Option (List Bytes) := readCounted readColumn payload

def parseDataRow (payload : Bytes) : Option (List (Option Bytes)) := readCounted readValue payload

def parseCommandComplete (payload : Bytes) : Option Bytes :=
  match splitOnce 0 payload with
  | some (tag, []) => some tag
  | _ => none

/-! ## Reading what was built -/

theorem readMany_flatMap {read : Bytes → Option (α × Bytes)} {emit : α → Bytes} {as : List α}
    (h : ∀ a ∈ as, ∀ rest, read (emit a ++ rest) = some (a, rest)) (rest : Bytes) :
    readMany read as.length (as.flatMap emit ++ rest) = some (as, rest) := by
  induction as with
  | nil => rfl
  | cons a as ih =>
    have ha := h a List.mem_cons_self (as.flatMap emit ++ rest)
    have hs := ih fun b hb => h b (List.mem_cons_of_mem _ hb)
    rw [List.flatMap_cons, List.append_assoc, List.length_cons, readMany, ha]
    simp only [hs]

theorem readCounted_flatMap {read : Bytes → Option (α × Bytes)} {emit : α → Bytes} {as : List α}
    (hn : as.length < 2 ^ 15) (h : ∀ a ∈ as, ∀ rest, read (emit a ++ rest) = some (a, rest)) :
    readCounted read (i16ToBe as.length ++ as.flatMap emit) = some as := by
  obtain ⟨hbytes, hcount⟩ := i16OfBe_i16ToBe hn
  have hmany := readMany_flatMap h []
  rw [List.append_nil] at hmany
  rw [hbytes]
  simp only [List.cons_append, List.nil_append, readCounted, hcount, Int.toNat_natCast, hmany]
  rw [if_neg (by omega)]

theorem readColumn_columnDescription {name : Bytes} (h : 0 ∉ name) (rest : Bytes) :
    readColumn (Message.columnDescription name ++ rest) = some (name, rest) := by
  obtain ⟨fixed, hfixed, hcol⟩ : ∃ fixed : Bytes, fixed.length = 18 ∧
      Message.columnDescription name ++ rest = name ++ 0 :: (fixed ++ rest) :=
    ⟨i32ToBe 0 ++ i16ToBe 0 ++ i32ToBe Message.textOid ++ i16ToBe (-1) ++ i32ToBe (-1) ++ i16ToBe 0,
      rfl, by simp [Message.columnDescription, Message.cstr]⟩
  rw [readColumn, hcol, splitOnce_append h]
  simp [← hfixed]

/-- The length in front of a value that is no NULL. -/
theorem dataValue_some {text : Bytes} (h : text.length < 2 ^ 31) (rest : Bytes) :
    ∃ a b c d, Message.dataValue (some text) ++ rest = a :: b :: c :: d :: (text ++ rest) ∧
      i32OfBe a b c d = text.length := by
  refine ⟨_, _, _, _, ?_, i32OfBe_i32ToBe h⟩
  rw [Message.dataValue, i32ToBe_natCast (by omega)]
  rfl

theorem dataValue_none (rest : Bytes) :
    Message.dataValue none ++ rest = 255 :: 255 :: 255 :: 255 :: rest := rfl

theorem readValue_dataValue {v : Option Bytes} (h : ∀ text, v = some text → text.length < 2 ^ 31)
    (rest : Bytes) : readValue (Message.dataValue v ++ rest) = some (v, rest) := by
  cases v with
  | none =>
    have hlen : i32OfBe 255 255 255 255 = -1 := by decide
    simp only [dataValue_none, readValue, hlen, ↓reduceIte]
  | some text =>
    obtain ⟨a, b, c, d, hbytes, hlen⟩ := dataValue_some (h text rfl) rest
    rw [hbytes]
    simp only [readValue, hlen, Int.toNat_natCast]
    rw [if_neg (by omega), if_pos (by simp)]
    simp

theorem parseRowDescription_build {columns : List Bytes} (hn : columns.length < 2 ^ 15)
    (h : ∀ c ∈ columns, 0 ∉ c) :
    parseRowDescription (i16ToBe columns.length ++ columns.flatMap Message.columnDescription) =
      some columns :=
  readCounted_flatMap hn fun c hc => readColumn_columnDescription (h c hc)

theorem parseDataRow_build {values : List (Option Bytes)} (hn : values.length < 2 ^ 15)
    (h : ∀ text, some text ∈ values → text.length < 2 ^ 31) :
    parseDataRow (i16ToBe values.length ++ values.flatMap Message.dataValue) = some values :=
  readCounted_flatMap hn fun _ hv => readValue_dataValue fun text ht => h text (ht ▸ hv)

theorem parseCommandComplete_build {tag : Bytes} (h : 0 ∉ tag) :
    parseCommandComplete (Message.cstr tag) = some tag := by
  rw [parseCommandComplete, Message.cstr, splitOnce_append h]

/-! ## Splitting what was written -/

/-- A built message is a frame if its length is in range. -/
theorem isFrame_frame {maxLen : Int} {tag : UInt8} {body : Bytes} (h31 : body.length + 4 < 2 ^ 31)
    (h : ((body.length + 4 : Nat) : Int) ≤ maxLen) : IsFrame maxLen (frame tag body) := by
  have hlen := i32OfBe_i32ToBe h31
  have hrange : 4 ≤ i32OfBe (UInt8.ofNat ((body.length + 4) / 2 ^ 24))
      (UInt8.ofNat ((body.length + 4) / 2 ^ 16)) (UInt8.ofNat ((body.length + 4) / 2 ^ 8))
      (UInt8.ofNat (body.length + 4)) := by
    rw [hlen]
    omega
  rw [frame, i32ToBe_natCast (by omega)]
  refine ⟨tag, _, _, _, _, body, ⟨tag, _, _, _, _, hrange⟩, rfl, ?_, ?_⟩
  · exact dif_pos ⟨hrange, hlen ▸ h⟩
  · simp only [MessageHeader.bodyLen, MessageHeader.len, hlen]
    omega

/-- `read_message` again and again, each time with the reads that then complete, until one fails. -/
def readMessages : List (List Nat) → Bytes → List (Except IoError RawMessage) × Bytes
  | [], rest => ([], rest)
  | sched :: scheds, rest =>
    match readMessage rest sched with
    | (.done (.ok m), rest) => (.ok m :: (readMessages scheds rest).1, (readMessages scheds rest).2)
    | (.done (.error e), rest) => ([.error e], rest)
    | (.pending, rest) => ([], rest)

/-- Frames that follow one another are read one by one, whatever the reads. -/
theorem readMessages_frames {ms : List RawMessage} (hm : ∀ m ∈ ms, IsFrame maxMessageLen m.frame)
    (rest : Bytes) {scheds : List (List Nat)} (hn : scheds.length = ms.length)
    (hs : ∀ s ∈ scheds, (ms.flatMap RawMessage.frame ++ rest).length < s.length) :
    readMessages scheds (ms.flatMap RawMessage.frame ++ rest) = (ms.map .ok, rest) := by
  induction ms generalizing scheds with
  | nil =>
    obtain rfl := List.eq_nil_of_length_eq_zero hn
    rfl
  | cons m ms ih =>
    match scheds, hn with
    | s :: scheds, hn =>
      have hread := readMessageCapped_frame (hm m List.mem_cons_self)
        (ms.flatMap RawMessage.frame ++ rest) s (by
          have := hs s List.mem_cons_self
          rwa [List.flatMap_cons, List.append_assoc] at this)
      have hrest := ih (fun m' h => hm m' (List.mem_cons_of_mem _ h)) (by simpa using hn)
        (fun s' h => by
          have := hs s' (List.mem_cons_of_mem _ h)
          simp only [List.flatMap_cons, List.append_assoc, List.length_append] at this ⊢
          omega)
      rw [List.flatMap_cons, List.append_assoc, readMessages, readMessage, hread]
      simp only [hrest, List.map_cons]

end RamaPg.Codec
