import RamaPg.Protocol.ResultSet
import RamaPg.Pgbouncer.Authid
import RamaPg.Proxy.Custom

/-!
# Result sets on the wire

What a handler answers with rows is what the client reads: `run_query` writes one frame for the
columns, one a row, one for the command tag and one `ReadyForQuery`, every reader of frames splits
them there, and their payloads decode to the columns, cells and tag. The reader of `pg_authid` finds
the first cell of each row.
-/

namespace RamaPg.Proxy

open RamaPg.Lib RamaPg.Codec RamaPg.Pgbouncer

/-- The bytes written to the client. -/
def writtenBytes (effects : List Effect) : Bytes :=
  effects.flatMap fun
    | .sent bs => bs
    | _ => []

/-- A table whose counts and lengths the casts keep, whose strings fit their places and whose frames
fit the cap of the readers; cells are text. -/
structure Encodable (columns : List Bytes) (rows : List (List (Option Bytes))) (tag : Bytes) :
    Prop where
  columns_lt : columns.length < 2 ^ 15
  row_lt : ∀ row ∈ rows, row.length < 2 ^ 15
  cell_lt : ∀ row ∈ rows, ∀ text, some text ∈ row → text.length < 2 ^ 31
  cell_utf8 : ∀ row ∈ rows, ∀ text, some text ∈ row → isUtf8 text = true
  names_noNul : ∀ name ∈ columns, 0 ∉ name
  tag_noNul : 0 ∉ tag
  fits : ∀ f ∈ (QueryResponse.rows columns rows tag).frames, (f.length : Int) ≤ maxMessageLen + 1

/-! ## The messages -/

def descriptionMessage (columns : List Bytes) : RawMessage :=
  .build Tag.rowDescription (i16ToBe columns.length ++ columns.flatMap Message.columnDescription)

def rowMessage (row : List (Option Bytes)) : RawMessage :=
  .build Tag.dataRow (i16ToBe row.length ++ row.flatMap Message.dataValue)

def completeMessage (tag : Bytes) : RawMessage := .build Tag.commandComplete (Message.cstr tag)

def readyMessage (status : TxnStatus) : RawMessage := .build Tag.readyForQuery [status.code]

/-- The messages of an answer with rows. -/
def rowsMessages (columns : List Bytes) (rows : List (List (Option Bytes))) (tag : Bytes)
    (status : TxnStatus) : List RawMessage :=
  descriptionMessage columns :: rows.map rowMessage ++ [completeMessage tag, readyMessage status]

theorem writtenBytes_frames (frames : List Bytes) :
    writtenBytes (frames.map Effect.sent) = frames.flatten := by
  induction frames with
  | nil => rfl
  | cons f frames ih =>
    rw [List.map_cons, List.flatten_cons, ← ih]
    rfl

theorem writtenBytes_append (a b : List Effect) :
    writtenBytes (a ++ b) = writtenBytes a ++ writtenBytes b :=
  List.flatMap_append

/-- What `run_query` writes when the handler answers with rows. -/
theorem writtenBytes_runQuery {user database sql : Bytes} {handler : QueryHandler}
    {status : TxnStatus} {columns : List Bytes} {rows : List (List (Option Bytes))} {tag : Bytes}
    (hstatus : status ≠ .failed) (hverb : verbOf sql = .other)
    (hanswer : handler ⟨user, database, status⟩ (trimmedSql sql).flatten = .rows columns rows tag) :
    writtenBytes (runQuery user database handler status sql).2 =
      (rowsMessages columns rows tag status).flatMap RawMessage.frame := by
  have hrows : (rows.map Message.dataRow).flatten = (rows.map rowMessage).flatMap RawMessage.frame := by
    rw [List.flatMap_map]
    rfl
  have hquery : (runQuery user database handler status sql).2 =
      .called ⟨user, database, status⟩ (trimmedSql sql).flatten ::
        ((QueryResponse.rows columns rows tag).frames.map Effect.sent ++
          [.sent (Message.readyForQuery status.code)]) := by
    simp only [runQuery, answerQuery, hverb, hanswer, hstatus, false_and, ↓reduceIte]
    rfl
  have hskip : ∀ ctx sql es, writtenBytes (.called ctx sql :: es) = writtenBytes es :=
    fun _ _ _ => rfl
  have hready : writtenBytes [.sent (Message.readyForQuery status.code)] =
      (readyMessage status).frame := rfl
  rw [hquery, hskip, writtenBytes_append, writtenBytes_frames, hready]
  simp only [QueryResponse.frames, rowsMessages, List.flatten_cons, List.flatten_append,
    List.flatMap_cons, List.flatMap_append, List.cons_append, hrows, List.flatten_nil,
    List.flatMap_nil, List.append_nil, List.append_assoc]
  rfl

theorem isFrame_build {tag : UInt8} {body : Bytes}
    (h : ((Codec.frame tag body).length : Int) ≤ maxMessageLen + 1) :
    IsFrame maxMessageLen (RawMessage.build tag body).frame := by
  have hcap : maxMessageLen = 2 ^ 30 := rfl
  rw [length_frame, hcap] at h
  exact isFrame_frame (by omega) (by rw [hcap]; omega)

theorem Encodable.isFrame {columns : List Bytes} {rows : List (List (Option Bytes))} {tag : Bytes}
    (h : Encodable columns rows tag) (status : TxnStatus) :
    ∀ m ∈ rowsMessages columns rows tag status, IsFrame maxMessageLen m.frame := by
  have hfit := h.fits
  simp only [QueryResponse.frames, List.cons_append, List.forall_mem_cons, List.forall_mem_append,
    List.forall_mem_map] at hfit
  obtain ⟨hdescription, hrow, hcomplete, -⟩ := hfit
  simp only [rowsMessages, List.cons_append, List.forall_mem_cons, List.forall_mem_append,
    List.forall_mem_map]
  have hready : ((Codec.frame Tag.readyForQuery [status.code]).length : Int) ≤ maxMessageLen + 1 := by
    rw [length_frame, List.length_singleton]
    decide
  exact ⟨@isFrame_build Tag.rowDescription _ hdescription,
    fun row hr => @isFrame_build Tag.dataRow _ (hrow row hr),
    @isFrame_build Tag.commandComplete (Message.cstr tag) hcomplete,
    @isFrame_build Tag.readyForQuery [status.code] hready, by simp⟩

/-! ## The reader of `pg_authid` -/

/-- The first cell, none for a NULL or an empty row. -/
def firstCell (row : List (Option Bytes)) : Option Bytes := row.head?.join

theorem firstColumn_row {row : List (Option Bytes)} (hn : row.length < 2 ^ 15)
    (hlen : ∀ text, some text ∈ row → text.length < 2 ^ 31)
    (hutf8 : ∀ text, some text ∈ row → isUtf8 text = true) :
    firstColumn (rowMessage row).payload = firstCell row := by
  obtain ⟨hbytes, hcount⟩ := i16OfBe_i16ToBe hn
  have hpayload : (rowMessage row).payload =
      UInt8.ofNat (row.length / 2 ^ 8) :: UInt8.ofNat row.length ::
        row.flatMap Message.dataValue := by
    show i16ToBe row.length ++ _ = _
    rw [hbytes]
    rfl
  cases row with
  | nil => rfl
  | cons v row =>
    have hpos : ¬ i16OfBe (UInt8.ofNat ((v :: row).length / 2 ^ 8))
        (UInt8.ofNat (v :: row).length) < 1 := by
      rw [hcount, List.length_cons]
      omega
    cases v with
    | none =>
      rw [List.flatMap_cons, dataValue_none] at hpayload
      have hnull : columnText (i32OfBe 255 255 255 255) (row.flatMap Message.dataValue) = none := by
        simp [columnText, show i32OfBe 255 255 255 255 = -1 from by decide]
      rw [hpayload, firstColumn, if_neg hpos, hnull]
      rfl
    | some text =>
      obtain ⟨a, b, c, d, hvalue, hl⟩ := dataValue_some (hlen text List.mem_cons_self)
        (row.flatMap Message.dataValue)
      rw [List.flatMap_cons, hvalue] at hpayload
      have htext : columnText (i32OfBe a b c d) (text ++ row.flatMap Message.dataValue) =
          some text := by
        have hu := hutf8 text List.mem_cons_self
        rw [columnText, hl, if_neg (by omega)]
        simp [hu]
      rw [hpayload, firstColumn, if_neg hpos, htext]
      rfl

/-! ## The result set -/

/-- A result set is split into its messages by every reader and decodes to what the handler
answered. -/
theorem result_set_lossless {user database sql : Bytes} {handler : QueryHandler}
    {status : TxnStatus} {columns : List Bytes} {rows : List (List (Option Bytes))} {tag : Bytes}
    (hstatus : status ≠ .failed) (hverb : verbOf sql = .other)
    (hanswer : handler ⟨user, database, status⟩ (trimmedSql sql).flatten = .rows columns rows tag)
    (h : Encodable columns rows tag) :
    let bytes := writtenBytes (runQuery user database handler status sql).2
    ∃ (description : RawMessage) (data : List RawMessage) (complete ready : RawMessage),
      let messages := description :: data ++ [complete, ready]
      (∀ calls : List (List Nat), bytes.length < (calls.filter (· ≠ [])).length →
        (drive FramedReader.new bytes calls).1 =
          messages.map (fun m => .ok (some m)) ++ [.ok none]) ∧
      (∀ scheds : List (List Nat), scheds.length = messages.length →
        (∀ s ∈ scheds, bytes.length < s.length) →
        readMessages scheds bytes = (messages.map .ok, [])) ∧
      (description.tag = Tag.rowDescription ∧ parseRowDescription description.payload = some columns) ∧
      (∀ m ∈ data, m.tag = Tag.dataRow) ∧
      data.map (fun m => parseDataRow m.payload) = rows.map some ∧
      data.map (fun m => firstColumn m.payload) = rows.map firstCell ∧
      (complete.tag = Tag.commandComplete ∧ parseCommandComplete complete.payload = some tag) ∧
      (ready.tag = Tag.readyForQuery ∧ ready.payload = [status.code]) := by
  intro bytes
  have hbytes : bytes = (rowsMessages columns rows tag status).flatMap RawMessage.frame ++ [] := by
    rw [List.append_nil]
    exact writtenBytes_runQuery hstatus hverb hanswer
  have hframe := h.isFrame status
  refine ⟨descriptionMessage columns, rows.map rowMessage, completeMessage tag, readyMessage status,
    ?_, ?_, ⟨rfl, parseRowDescription_build h.columns_lt h.names_noNul⟩, ?_, ?_, ?_,
    ⟨rfl, parseCommandComplete_build h.tag_noNul⟩, rfl, rfl⟩
  · intro calls hcalls
    have hall := ((framedReader_refines_decode maxMessageLen bytes calls).1).2 hcalls
    rw [hbytes, decode_frames hframe, decode_nil] at hall
    rw [hbytes]
    exact hall
  · intro scheds hn hs
    rw [hbytes] at hs ⊢
    exact readMessages_frames hframe [] hn hs
  · intro m hm
    obtain ⟨row, -, rfl⟩ := List.mem_map.mp hm
    rfl
  · rw [List.map_map]
    exact List.map_congr_left fun row hr => parseDataRow_build (h.row_lt row hr) (h.cell_lt row hr)
  · rw [List.map_map]
    exact List.map_congr_left fun row hr =>
      firstColumn_row (h.row_lt row hr) (h.cell_lt row hr) (h.cell_utf8 row hr)

namespace Table

def columns : List Bytes := [ascii "id", ascii "name"]

/-- A NULL, an empty text and a text with a NUL. -/
def rows : List (List (Option Bytes)) :=
  [[some (ascii "1"), none], [some [], some [97, 0, 98]], [none, some (ascii "c")]]

def tag : Bytes := ascii "SELECT 3"

def handler : QueryHandler := fun _ _ => .rows columns rows tag

theorem mem_row {row : List (Option Bytes)} {text : Bytes} (hr : row ∈ rows) (ht : some text ∈ row) :
    text ∈ [ascii "1", [], [97, 0, 98], ascii "c"] := by
  simp only [rows, List.mem_cons, List.not_mem_nil, or_false] at hr
  rcases hr with rfl | rfl | rfl <;> simp at ht <;> simp [ht]
  rcases ht with rfl | rfl <;> simp

theorem encodable : Encodable columns rows tag where
  columns_lt := by decide
  row_lt := by decide
  cell_lt row hr text ht := by
    have hall : ∀ t ∈ [ascii "1", [], [97, 0, 98], ascii "c"], t.length < 2 ^ 31 := by decide
    exact hall text (mem_row hr ht)
  cell_utf8 row hr text ht := by
    have hall : ∀ t ∈ [ascii "1", [], [97, 0, 98], ascii "c"], IsAscii t := by decide
    exact isUtf8_of_isAscii (hall text (mem_row hr ht))
  names_noNul := by decide
  tag_noNul := by decide
  fits := by decide +kernel

end Table

theorem result_set_of_table :
    ∃ data : List RawMessage, data.map (fun m => parseDataRow m.payload) = Table.rows.map some ∧
      data.map (fun m => firstColumn m.payload) = [some (ascii "1"), some [], none] := by
  have hverb : verbOf (ascii "select * from t;") = .other := by decide +kernel
  obtain ⟨-, data, -, -, -, -, -, -, hrows, hfirst, -⟩ :=
    @result_set_lossless [] [] (ascii "select * from t;") Table.handler .inTransaction Table.columns
      Table.rows Table.tag (by decide) hverb rfl Table.encodable
  exact ⟨data, hrows, hfirst⟩

end RamaPg.Proxy
