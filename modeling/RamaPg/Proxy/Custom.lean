import RamaPg.Proxy.Session
import RamaPg.Lib.Monitor

/-!
# Custom forwarding

The model of `query.rs` and `proxy/custom.rs`: a session that answers simple queries in the proxy,
with no backend. The loop is a reactive machine whose state is the transaction status; a `Round` is
one message that `read_message` returned together with the handler as it behaves then, so that what
a handler remembers, or a cancel that fires, may change its answers from one query to the next. The
rounds end when the read fails.
-/

namespace RamaPg.Proxy

open RamaPg.Lib RamaPg.Codec RamaPg.Startup

/-! ## Session state and handlers -/

inductive TxnStatus where
  | idle
  | inTransaction
  | failed
  deriving DecidableEq, Repr

/-- The status byte of a `ReadyForQuery`. -/
def TxnStatus.code : TxnStatus → UInt8
  | .idle => 73
  | .inTransaction => 84
  | .failed => 69

/-- What a handler is told; the cancellation token is part of how it behaves. -/
structure QueryContext where
  user : Bytes
  database : Bytes
  status : TxnStatus
  deriving DecidableEq

inductive QueryResponse where
  | rows (columns : List Bytes) (rows : List (List (Option Bytes))) (tag : Bytes)
  | command (tag : Bytes)
  | error (code message : Bytes)
  deriving DecidableEq

/-- A handler that leaves the session state alone. -/
abbrev QueryHandler := QueryContext → Bytes → QueryResponse

/-- The frames of an answer. -/
def QueryResponse.frames : QueryResponse → List Bytes
  | .rows columns cells tag =>
    Message.rowDescription columns :: cells.map Message.dataRow ++ [Message.commandComplete tag]
  | .command tag => [Message.commandComplete tag]
  | .error code message => [Message.errorResponse (ascii "ERROR") code message]

/-- The status after an answer. -/
def QueryResponse.status (status : TxnStatus) : QueryResponse → TxnStatus
  | .error _ _ => if status = .inTransaction then .failed else status
  | _ => status

/-! ## Queries -/

/-- `query_sql`: up to the NUL, empty if it is no UTF-8. -/
def querySql (payload : Bytes) : Bytes :=
  let sql := match splitOnce 0 payload with
    | some (sql, _) => sql
    | none => payload
  if isUtf8 sql then sql else []

/-- `sql.trim().trim_end_matches(';').trim()`. -/
def trimmedSql (sql : Bytes) : List Bytes := trim (trimEndMatches (· == [59]) (trim (chars sql)))

/-- What `run_query` makes of the first word. -/
inductive Verb where
  | begin
  | commit
  | rollback
  | other
  deriving DecidableEq, Repr

def verbOf (sql : Bytes) : Verb :=
  let verb := toAsciiUppercase (firstWord (trimmedSql sql))
  if verb = ascii "BEGIN" ∨ verb = ascii "START" then .begin
  else if verb = ascii "COMMIT" ∨ verb = ascii "END" then .commit
  else if verb = ascii "ROLLBACK" ∨ verb = ascii "ABORT" then .rollback
  else .other

/-- What a session does. `set` points the cancel handle at a fresh token, `clear` takes it away. -/
inductive Effect where
  | received (m : RawMessage)
  | set
  | called (ctx : QueryContext) (sql : Bytes)
  | sent (bs : Bytes)
  | clear

def failedBlock : Bytes :=
  Message.errorResponse (ascii "ERROR") (ascii "25P02")
    (ascii "current transaction is aborted, commands ignored until end of transaction block")

/-- `run_query` up to its `ReadyForQuery`: the new status and what is done. -/
def answerQuery (user database : Bytes) (handler : QueryHandler) (status : TxnStatus)
    (sql : Bytes) : TxnStatus × List Effect :=
  if status = .failed ∧ verbOf sql ≠ .commit ∧ verbOf sql ≠ .rollback then
    (status, [.sent failedBlock])
  else
    match verbOf sql with
    | .begin => (.inTransaction, [.sent (Message.commandComplete (ascii "BEGIN"))])
    | .commit => (.idle, [.sent (Message.commandComplete (ascii "COMMIT"))])
    | .rollback => (.idle, [.sent (Message.commandComplete (ascii "ROLLBACK"))])
    | .other =>
      let ctx : QueryContext := ⟨user, database, status⟩
      let response := handler ctx (trimmedSql sql).flatten
      (response.status status,
        .called ctx (trimmedSql sql).flatten :: response.frames.map .sent)

/-- `run_query`. -/
def runQuery (user database : Bytes) (handler : QueryHandler) (status : TxnStatus) (sql : Bytes) :
    TxnStatus × List Effect :=
  let (status, effects) := answerQuery user database handler status sql
  (status, effects ++ [.sent (Message.readyForQuery status.code)])

/-! ## The session -/

structure Round where
  message : RawMessage
  handler : QueryHandler

def unsupported : Bytes :=
  Message.errorResponse (ascii "ERROR") (ascii "0A000")
    (ascii "rama-pg virtual server supports only the simple query protocol")

/-- One round of the loop of `serve_custom`. -/
def customStep (user database : Bytes) (status : TxnStatus) (r : Round) :
    Option (TxnStatus × List Effect) :=
  if r.message.tag = Tag.query then
    let (status, effects) := runQuery user database r.handler status (querySql r.message.payload)
    some (status, .received r.message :: .set :: effects ++ [.clear])
  else if r.message.tag = Tag.terminate then none
  else some (status, [.received r.message, .sent unsupported,
    .sent (Message.readyForQuery status.code)])

def virtualParameters : List (Bytes × Bytes) :=
  [(ascii "server_version", ascii "16.0 (rama-pg virtual)"),
   (ascii "server_encoding", ascii "UTF8"),
   (ascii "client_encoding", ascii "UTF8"),
   (ascii "DateStyle", ascii "ISO, MDY"),
   (ascii "TimeZone", ascii "UTC"),
   (ascii "standard_conforming_strings", ascii "on"),
   (ascii "integer_datetimes", ascii "on")]

/-- A session: the frames before the first read, then each message with what it led to. -/
structure CustomSession where
  opening : List Bytes
  answers : List (Round × List Effect)

def CustomSession.effects (s : CustomSession) : List Effect :=
  s.opening.map .sent ++ s.answers.flatMap Prod.snd

/-- `serve_custom`. Without cancellation the key is drawn at random. -/
def serveCustom (user database : Bytes) (outcome : ClientAuth) (clientKey : Option CancelKey)
    (draw : Vector UInt8 8) (rounds : List Round) : CustomSession :=
  match outcome with
  | .passThrough =>
    ⟨[Message.fatalError (ascii "0A000")
      (ascii "rama-pg: custom-query mode requires a terminating auth mode")], []⟩
  | .terminated _ =>
    ⟨synthesizeStartup (virtualParameters.map fun p => Message.parameterStatus p.1 p.2)
      (clientKey.getD ⟨draw.toList⟩).bytes, replies (customStep user database) .idle rounds⟩

/-- `CustomForwarder::serve`, with the key the cancellation store issued. -/
def CustomForwarder.serve (client : PgClient) (clientKey : Option CancelKey) (draw : Vector UInt8 8)
    (rounds : List Round) : CustomSession :=
  serveCustom (client.startup.user.getD []) (client.startup.database.getD []) client.auth clientKey
    draw rounds

end RamaPg.Proxy
