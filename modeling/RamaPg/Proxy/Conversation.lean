import RamaPg.Protocol.Backend
import RamaPg.Proxy.Results
import RamaPg.Proxy.Transactions

/-!
# The conversation of a custom session

What a client makes of all the bytes a custom session writes to it. A client of the simple query
protocol takes the messages up to each `ReadyForQuery` as one reply (`splitReplies`) and tells from their
kinds whether it is a table, a command or an error (`readAnswer`). It finds the parameters and its
cancel key first, and then one reply for each message it sent, which is the answer the session gave
(`transcript`), with the status of its transaction block.
-/

namespace RamaPg.Proxy

open RamaPg.Lib RamaPg.Codec RamaPg.Startup

/-! ## What is said -/

def QueryResponse.messages : QueryResponse → List BackendMessage
  | .rows columns cells tag => .rowDescription columns :: cells.map .dataRow ++ [.commandComplete tag]
  | .command tag => [.commandComplete tag]
  | .error code message => [.errorResponse (ascii "ERROR") code message]

/-- The answer fits its frames. -/
def QueryResponse.Sayable (response : QueryResponse) : Prop :=
  ∀ m ∈ response.messages, m.Sendable ∧ m.Fits

def refusal : QueryResponse :=
  .error (ascii "25P02")
    (ascii "current transaction is aborted, commands ignored until end of transaction block")

def notSimple : QueryResponse :=
  .error (ascii "0A000") (ascii "rama-pg virtual server supports only the simple query protocol")

/-- The answer to a message and the status after it; none to `Terminate`. -/
def answerTo (user database : Bytes) (status : TxnStatus) (r : Round) :
    Option (QueryResponse × TxnStatus) :=
  if r.message.tag = Tag.query then
    let sql := querySql r.message.payload
    if status = .failed ∧ verbOf sql ≠ .commit ∧ verbOf sql ≠ .rollback then some (refusal, status)
    else
      match verbOf sql with
      | .begin => some (.command (ascii "BEGIN"), .inTransaction)
      | .commit => some (.command (ascii "COMMIT"), .idle)
      | .rollback => some (.command (ascii "ROLLBACK"), .idle)
      | .other =>
        let response := r.handler ⟨user, database, status⟩ (trimmedSql sql).flatten
        some (response, response.status status)
  else if r.message.tag = Tag.terminate then none
  else some (notSimple, status)

/-- The answers of a session, in order. -/
def transcript (user database : Bytes) : TxnStatus → List Round → List (QueryResponse × TxnStatus)
  | _, [] => []
  | status, r :: rounds =>
    match answerTo user database status r with
    | none => []
    | some (response, status') => (response, status') :: transcript user database status' rounds

/-- The messages of one reply. -/
def replyMessages (a : QueryResponse × TxnStatus) : List BackendMessage :=
  a.1.messages ++ [.readyForQuery a.2.code]

/-- The messages that complete the startup, up to their `ReadyForQuery`. -/
def openingMessages (key : Bytes) : List BackendMessage :=
  .authenticationOk :: virtualParameters.map (fun p => .parameterStatus p.1 p.2) ++
    [.backendKeyData key]

/-! ## What is understood -/

/-- The replies in what a client is sent, each with its status; `reply` is the one that has begun. -/
def splitReplies (reply : List BackendMessage) :
    List BackendMessage → List (List BackendMessage × UInt8)
  | [] => []
  | .readyForQuery status :: ms => (reply, status) :: splitReplies [] ms
  | m :: ms => splitReplies (reply ++ [m]) ms

/-- The rows of a table up to its command tag. -/
def readRows : List BackendMessage → Option (List (List (Option Bytes)) × Bytes)
  | [.commandComplete tag] => some ([], tag)
  | .dataRow values :: ms => (readRows ms).map fun p => (values :: p.1, p.2)
  | _ => none

def readAnswer : List BackendMessage → Option QueryResponse
  | .rowDescription columns :: ms => (readRows ms).map fun p => .rows columns p.1 p.2
  | [.commandComplete tag] => some (.command tag)
  | [.errorResponse severity code message] =>
    if severity = ascii "ERROR" then some (.error code message) else none
  | _ => none

theorem readRows_messages (cells : List (List (Option Bytes))) (tag : Bytes) :
    readRows (cells.map .dataRow ++ [.commandComplete tag]) = some (cells, tag) := by
  induction cells with
  | nil => rfl
  | cons row cells ih =>
    rw [List.map_cons, List.cons_append, readRows, ih]
    rfl

theorem readAnswer_messages (response : QueryResponse) :
    readAnswer response.messages = some response := by
  cases response with
  | rows columns cells tag =>
    rw [QueryResponse.messages, List.cons_append, readAnswer, readRows_messages]
    rfl
  | command tag => rfl
  | error code message => rfl

theorem splitReplies_append {body : List BackendMessage}
    (h : ∀ m ∈ body, ∀ status, m ≠ .readyForQuery status) (reply : List BackendMessage)
    (status : UInt8) (ms : List BackendMessage) :
    splitReplies reply (body ++ .readyForQuery status :: ms) =
      (reply ++ body, status) :: splitReplies [] ms := by
  induction body generalizing reply with
  | nil => rw [List.nil_append, splitReplies, List.append_nil]
  | cons m body ih =>
    have hm := h m List.mem_cons_self
    have hs := ih (fun m' h' => h m' (List.mem_cons_of_mem _ h')) (reply ++ [m])
    rw [List.append_assoc, List.singleton_append] at hs
    rw [List.cons_append, ← hs]
    cases m with
    | readyForQuery status => exact absurd rfl (hm status)
    | _ => rfl

theorem messages_not_ready (response : QueryResponse) :
    ∀ m ∈ response.messages, ∀ status, m ≠ .readyForQuery status := by
  intro m hm status
  cases response with
  | rows columns cells tag =>
    simp only [QueryResponse.messages, List.cons_append, List.mem_cons, List.mem_append,
      List.mem_map, List.not_mem_nil, or_false] at hm
    rcases hm with rfl | ⟨row, -, rfl⟩ | rfl <;> rintro ⟨⟩
  | command tag | error code message =>
    obtain rfl := List.mem_singleton.mp hm
    rintro ⟨⟩

theorem splitReplies_replies (answers : List (QueryResponse × TxnStatus)) :
    splitReplies [] (answers.flatMap replyMessages) =
      answers.map fun a => (a.1.messages, a.2.code) := by
  induction answers with
  | nil => rfl
  | cons a answers ih =>
    rw [List.flatMap_cons, replyMessages, List.append_assoc, List.singleton_append,
      splitReplies_append (messages_not_ready a.1), ih]
    rfl

/-! ## What is written -/

theorem map_encode_messages (response : QueryResponse) :
    response.messages.map BackendMessage.encode = response.frames := by
  cases response with
  | rows columns cells tag =>
    rw [QueryResponse.messages, QueryResponse.frames, List.map_append, List.map_cons, List.map_map]
    rfl
  | command tag | error code message => rfl

/-- The bytes of an answer and of the `ReadyForQuery` behind it. -/
theorem writtenBytes_reply (response : QueryResponse) (status : TxnStatus) :
    writtenBytes (response.frames.map Effect.sent ++ [.sent (Message.readyForQuery status.code)]) =
      (replyMessages (response, status)).flatMap BackendMessage.encode := by
  rw [replyMessages, List.flatMap_append, List.flatMap_def, map_encode_messages,
    writtenBytes_append, writtenBytes_frames]
  rfl

/-- Text of the session's own. -/
theorem sayable_error {code message : Bytes} (hc : 0 ∉ code) (hm : 0 ∉ message)
    (hl : code.length + message.length ≤ 1000) : (QueryResponse.error code message).Sayable := by
  intro m hmem
  obtain rfl := List.mem_singleton.mp hmem
  refine ⟨⟨by decide, hc, hm⟩, ?_⟩
  have hcap : maxMessageLen = 2 ^ 30 := rfl
  have hs : (ascii "ERROR").length = 5 := rfl
  simp only [BackendMessage.Fits, BackendMessage.encode, Message.errorResponse, length_frame,
    List.length_append, Message.field, Message.cstr, List.length_cons, List.length_nil, hs, hcap]
  omega

theorem sayable_command {tag : Bytes} (ht : 0 ∉ tag) (hl : tag.length ≤ 1000) :
    (QueryResponse.command tag).Sayable := by
  intro m hmem
  obtain rfl := List.mem_singleton.mp hmem
  refine ⟨ht, ?_⟩
  have hcap : maxMessageLen = 2 ^ 30 := rfl
  simp only [BackendMessage.Fits, BackendMessage.encode, Message.commandComplete, length_frame,
    Message.cstr, List.length_append, List.length_cons, List.length_nil, hcap]
  omega

section

variable {user database : Bytes} {status status' : TxnStatus} {r : Round} {effects : List Effect}

/-- What one step of the session writes, and whose the answer is. -/
theorem customStep_said (h : customStep user database status r = some (status', effects)) :
    ∃ response, answerTo user database status r = some (response, status') ∧
      writtenBytes effects = (replyMessages (response, status')).flatMap BackendMessage.encode ∧
      (response.Sayable ∨ ∃ ctx sql, .called ctx sql ∈ effects ∧ response = r.handler ctx sql) := by
  have hround : ∀ (m : RawMessage) (es : List Effect),
      writtenBytes (.received m :: .set :: es ++ [.clear]) = writtenBytes es := by
    intro m es
    show writtenBytes (es ++ [.clear]) = _
    rw [writtenBytes_append]
    exact List.append_nil _
  unfold customStep at h
  unfold answerTo
  split at h
  next hq =>
    rw [if_pos hq]
    simp only [runQuery, answerQuery] at h
    split at h
    next hf =>
      cases h
      refine ⟨refusal, by rw [if_pos hf], ?_, .inl (sayable_error ?_ ?_ ?_)⟩
      · rw [hround]
        exact writtenBytes_reply refusal _
      all_goals decide +kernel
    next hf =>
      rw [if_neg hf]
      cases hv : verbOf (querySql r.message.payload) with
      | begin | commit | rollback =>
        rw [hv] at h
        cases h
        refine ⟨_, rfl, ?_, .inl (sayable_command ?_ ?_)⟩
        · rw [hround]
          exact writtenBytes_reply (.command _) _
        all_goals decide +kernel
      | other =>
        rw [hv] at h
        cases h
        refine ⟨_, rfl, ?_, .inr ⟨_, _, ?_, rfl⟩⟩
        · rw [hround]
          exact writtenBytes_reply _ _
        · simp
  next hq =>
    rw [if_neg hq]
    split at h
    · cases h
    next ht =>
      cases h
      refine ⟨notSimple, by rw [if_neg ht], writtenBytes_reply notSimple _,
        .inl (sayable_error ?_ ?_ ?_)⟩
      all_goals decide +kernel

theorem customStep_silent (h : customStep user database status r = none) :
    answerTo user database status r = none := by
  have ht := customStep_stop h
  have hq : r.message.tag ≠ Tag.query := by
    rw [ht]
    decide
  rw [answerTo, if_neg hq, if_pos ht]

/-- What a whole session writes after its opening. -/
theorem replies_said (user database : Bytes) : ∀ (rounds : List Round) (status : TxnStatus),
    writtenBytes ((replies (customStep user database) status rounds).flatMap Prod.snd) =
      ((transcript user database status rounds).flatMap replyMessages).flatMap
        BackendMessage.encode ∧
    ∀ a ∈ transcript user database status rounds, a.1.Sayable ∨
      ∃ x ∈ replies (customStep user database) status rounds,
        ∃ ctx sql, .called ctx sql ∈ x.2 ∧ a.1 = x.1.handler ctx sql := by
  intro rounds
  induction rounds with
  | nil => exact fun _ => ⟨rfl, nofun⟩
  | cons r rounds ih =>
    intro status
    cases h : customStep user database status r with
    | none =>
      rw [replies_stop h, transcript, customStep_silent h]
      exact ⟨rfl, nofun⟩
    | some x =>
      obtain ⟨status', effects⟩ := x
      obtain ⟨response, hanswer, hbytes, hsay⟩ := customStep_said h
      obtain ⟨ihb, ihs⟩ := ih status'
      rw [replies_cons h, transcript, hanswer]
      refine ⟨?_, fun a ha => ?_⟩
      · rw [List.flatMap_cons, writtenBytes_append, hbytes, ihb, List.flatMap_cons,
          List.flatMap_append]
      · rcases List.mem_cons.mp ha with rfl | ha
        · exact hsay.imp_right fun ⟨ctx, sql, hc, he⟩ =>
            ⟨_, List.mem_cons_self, ctx, sql, hc, he⟩
        · exact (ihs a ha).imp_right fun ⟨x, hx, hcall⟩ => ⟨x, List.mem_cons_of_mem _ hx, hcall⟩

end

/-! ## The whole session -/

theorem encode_opening (key : Bytes) :
    (synthesizeStartup (virtualParameters.map fun p => Message.parameterStatus p.1 p.2) key).flatten =
      (openingMessages key ++ [BackendMessage.readyForQuery TxnStatus.idle.code]).flatMap
        BackendMessage.encode := by
  rw [List.flatMap_def]
  rfl

theorem opening_sendable {key : Bytes} (hk : (BackendMessage.backendKeyData key).Fits) :
    ∀ m ∈ openingMessages key, m.Sendable ∧ m.Fits := by
  have hparameter : ∀ p ∈ virtualParameters, (0 ∉ p.1 ∧ 0 ∉ p.2) ∧
      (BackendMessage.parameterStatus p.1 p.2).Fits := by
    decide +kernel
  intro m hm
  simp only [openingMessages, List.cons_append, List.mem_cons, List.mem_append, List.mem_map,
    List.not_mem_nil, or_false] at hm
  rcases hm with rfl | ⟨p, hp, rfl⟩ | rfl
  · exact ⟨trivial, by decide⟩
  · exact hparameter p hp
  · exact ⟨trivial, hk⟩

theorem ready_fits (status : UInt8) : (BackendMessage.readyForQuery status).Fits := by
  have hlen : (Message.readyForQuery status).length = 6 := rfl
  show ((Message.readyForQuery status).length : Int) ≤ maxMessageLen + 1
  rw [hlen]
  decide

theorem reply_sendable {a : QueryResponse × TxnStatus} (h : a.1.Sayable) :
    ∀ m ∈ replyMessages a, m.Sendable ∧ m.Fits := by
  intro m hm
  rcases List.mem_append.mp hm with hm | hm
  · exact h m hm
  · obtain rfl := List.mem_singleton.mp hm
    exact ⟨trivial, ready_fits _⟩

/-- **A custom session is understood.** Of all that a session writes, in any run of messages and
with whatever handlers, a client that reads it by any reads finds the session's parameters and key
and then, up to each `ReadyForQuery`, the answer to its next message, complete, with the status. -/
theorem custom_session_read_back (user database : Bytes) (auth : BackendAuth)
    (clientKey : Option CancelKey) (draw : Vector UInt8 8) (rounds : List Round)
    (hkey : (BackendMessage.backendKeyData (clientKey.getD ⟨draw.toList⟩).bytes).Fits)
    (hanswers : ∀ x ∈ (serveCustom user database (.terminated auth) clientKey draw rounds).answers,
      ∀ ctx sql, .called ctx sql ∈ x.2 → (x.1.handler ctx sql).Sayable) :
    ∃ messages raws, BackendMessage.ReadBack
        (writtenBytes (serveCustom user database (.terminated auth) clientKey draw rounds).effects)
        messages raws ∧
      ∃ replies, splitReplies [] messages =
          (openingMessages (clientKey.getD ⟨draw.toList⟩).bytes, 73) :: replies ∧
        replies.map (fun c => (readAnswer c.1, c.2)) =
          (transcript user database .idle rounds).map fun a => (some a.1, a.2.code) := by
  generalize hk : (clientKey.getD ⟨draw.toList⟩).bytes = key at hkey ⊢
  obtain ⟨hbytes, hsay⟩ := replies_said user database rounds .idle
  have hopening : writtenBytes ((serveCustom user database (.terminated auth) clientKey draw
      rounds).effects) = (openingMessages key ++ .readyForQuery TxnStatus.idle.code ::
        (transcript user database .idle rounds).flatMap replyMessages).flatMap
          BackendMessage.encode := by
    rw [CustomSession.effects, writtenBytes_append, writtenBytes_frames]
    simp only [serveCustom, hk]
    rw [hbytes, encode_opening, ← List.flatMap_append, List.append_assoc]
    rfl
  have hsendable : ∀ m ∈ openingMessages key ++ .readyForQuery TxnStatus.idle.code ::
      (transcript user database .idle rounds).flatMap replyMessages, m.Sendable ∧ m.Fits := by
    intro m hm
    rcases List.mem_append.mp hm with hm | hm
    · exact opening_sendable hkey m hm
    · rcases List.mem_cons.mp hm with rfl | hm
      · exact ⟨trivial, ready_fits _⟩
      · obtain ⟨a, ha, hm⟩ := List.mem_flatMap.mp hm
        refine reply_sendable ?_ m hm
        rcases hsay a ha with hown | ⟨x, hx, ctx, sql, hcall, he⟩
        · exact hown
        · rw [he]
          exact hanswers x hx ctx sql hcall
  have hnot : ∀ m ∈ openingMessages key, ∀ status, m ≠ .readyForQuery status := by
    intro m hm status
    simp only [openingMessages, List.cons_append, List.mem_cons, List.mem_append, List.mem_map,
      List.not_mem_nil, or_false] at hm
    rcases hm with rfl | ⟨p, -, rfl⟩ | rfl <;> rintro ⟨⟩
  refine ⟨_, _, hopening ▸ server_stream_read_back hsendable,
    (transcript user database .idle rounds).map (fun a => (a.1.messages, a.2.code)), ?_, ?_⟩
  · rw [splitReplies_append hnot, splitReplies_replies, List.nil_append]
    rfl
  · rw [List.map_map]
    exact List.map_congr_left fun a _ => congrArg (·, a.2.code) (readAnswer_messages a.1)

theorem Encodable.sayable {columns : List Bytes} {rows : List (List (Option Bytes))} {tag : Bytes}
    (h : Encodable columns rows tag) : (QueryResponse.rows columns rows tag).Sayable := by
  intro m hm
  refine ⟨?_, h.fits m.encode ?_⟩
  · simp only [QueryResponse.messages, List.cons_append, List.mem_cons, List.mem_append,
      List.mem_map, List.not_mem_nil, or_false] at hm
    rcases hm with rfl | ⟨row, hr, rfl⟩ | rfl
    · exact ⟨h.columns_lt, h.names_noNul⟩
    · exact ⟨h.row_lt row hr, h.cell_lt row hr⟩
    · exact h.tag_noNul
  · rw [← map_encode_messages]
    exact List.mem_map_of_mem hm

namespace CustomSample

/-- A block with a table, an error, a refusal and a message that is no query, rolled back. -/
def rolledBack : List Round :=
  [queryOf (ascii "BEGIN"),
    ⟨RawMessage.build Tag.query (Message.cstr (ascii "select * from t;")), Table.handler⟩,
    queryOf (ascii "SELECT 1/0"), queryOf (ascii "SELECT 2"), parse, queryOf (ascii "ROLLBACK")]

theorem rolledBack_sayable {r : Round} (h : r ∈ rolledBack) (ctx : QueryContext) (sql : Bytes) :
    (r.handler ctx sql).Sayable := by
  have hfailing : (failing ctx sql).Sayable := sayable_error (by decide) (by decide) (by decide)
  simp only [rolledBack, List.mem_cons, List.not_mem_nil, or_false] at h
  rcases h with rfl | rfl | rfl | rfl | rfl | rfl
  case inr.inl => exact Table.encodable.sayable
  all_goals exact hfailing

end CustomSample

theorem custom_session_read_back_rolled_back : ∃ messages replies,
    splitReplies [] messages = (openingMessages [0, 0, 0, 0, 0, 0, 0, 7], 73) :: replies ∧
    replies.map (fun c => (readAnswer c.1, c.2)) =
      [(some (.command (ascii "BEGIN")), 84), (some (.rows Table.columns Table.rows Table.tag), 84),
        (some (.error (ascii "22012") (ascii "division by zero")), 69), (some refusal, 69),
        (some notSimple, 69), (some (.command (ascii "ROLLBACK")), 73)] := by
  obtain ⟨messages, raws, -, replies, hsplit, hreplies⟩ := custom_session_read_back (ascii "alice")
    (ascii "app") .trust none #v[0, 0, 0, 0, 0, 0, 0, 7] CustomSample.rolledBack (by decide)
    fun x hx ctx sql _ => CustomSample.rolledBack_sayable (by
      have hmem := List.mem_map_of_mem (f := Prod.fst) hx
      rw [serveCustom, (replies_customStep _ _ _ _).1] at hmem
      exact (List.takeWhile_prefix _).subset hmem) ctx sql
  refine ⟨messages, replies, hsplit, hreplies.trans ?_⟩
  decide +kernel

end RamaPg.Proxy
