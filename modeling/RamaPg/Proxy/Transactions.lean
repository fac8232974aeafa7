import RamaPg.Proxy.Custom

/-!
# Transaction blocks in custom mode

Monitors over what a custom session does. `blockRules` follows the transaction block as PostgreSQL
does, from the queries received and the errors sent, and compares every `ReadyForQuery` with it;
`ledger` keeps whether an error was sent in the open block, and compares every `COMMIT` with that.
Both meet the session as far as every error is one the status records: the error for an unsupported
message is not, and a `COMMIT` in a failed block is answered as one that was committed.
-/

namespace RamaPg.Proxy

open RamaPg.Lib RamaPg.Codec RamaPg.Startup

/-! ## Frames -/

def isError (bs : Bytes) : Bool := bs.head? == some Tag.errorResponse

def isReady (bs : Bytes) : Bool := bs.head? == some Tag.readyForQuery

@[simp] theorem isError_frame (t : UInt8) (body : Bytes) :
    isError (frame t body) = (t == Tag.errorResponse) := rfl

@[simp] theorem isReady_frame (t : UInt8) (body : Bytes) :
    isReady (frame t body) = (t == Tag.readyForQuery) := rfl

@[simp] theorem isError_readyForQuery (status : UInt8) :
    isError (Message.readyForQuery status) = false := rfl

@[simp] theorem isReady_readyForQuery (status : UInt8) :
    isReady (Message.readyForQuery status) = true := rfl

@[simp] theorem isError_errorResponse (severity code message : Bytes) :
    isError (Message.errorResponse severity code message) = true := rfl

@[simp] theorem isReady_errorResponse (severity code message : Bytes) :
    isReady (Message.errorResponse severity code message) = false := rfl

@[simp] theorem isError_commandComplete (tag : Bytes) :
    isError (Message.commandComplete tag) = false := rfl

@[simp] theorem isReady_commandComplete (tag : Bytes) :
    isReady (Message.commandComplete tag) = false := rfl

/-- The handler's answer is an error. -/
def QueryResponse.isError : QueryResponse → Bool
  | .error _ _ => true
  | _ => false

/-- An answer that is no error has no error frame. -/
theorem QueryResponse.frames_plain {response : QueryResponse} (h : response.isError = false) :
    ∀ bs ∈ response.frames, Proxy.isError bs = false ∧ isReady bs = false := by
  intro bs hbs
  cases response with
  | rows columns cells tag =>
    simp only [frames, List.cons_append, List.mem_cons, List.mem_append, List.mem_map,
      List.not_mem_nil, or_false] at hbs
    rcases hbs with rfl | ⟨row, -, rfl⟩ | rfl <;> exact ⟨rfl, rfl⟩
  | command tag =>
    obtain rfl := List.mem_singleton.mp hbs
    exact ⟨rfl, rfl⟩
  | error code message => cases h

/-! ## One round -/

/-- The verb of a message, if it is a query. -/
def queryVerb (m : RawMessage) : Option Verb :=
  if m.tag = Tag.query then some (verbOf (querySql m.payload)) else none

/-- A query's round: what is done for it, then `ReadyForQuery`. -/
def queryRound (m : RawMessage) (done : List Effect) (status : TxnStatus) : List Effect :=
  .received m :: .set :: (done ++ [.sent (Message.readyForQuery status.code), .clear])

/-- What a round can do: the status before it and after it, and its effects. -/
inductive Served (r : Round) : TxnStatus → TxnStatus → List Effect → Prop where
  | refused (verb : Verb) (hv : queryVerb r.message = some verb) (hc : verb ≠ .commit)
      (hr : verb ≠ .rollback) :
      Served r .failed .failed (queryRound r.message [.sent failedBlock] .failed)
  | began (status : TxnStatus) (hv : queryVerb r.message = some .begin) (hs : status ≠ .failed) :
      Served r status .inTransaction
        (queryRound r.message [.sent (Message.commandComplete (ascii "BEGIN"))] .inTransaction)
  | committed (status : TxnStatus) (hv : queryVerb r.message = some .commit) :
      Served r status .idle
        (queryRound r.message [.sent (Message.commandComplete (ascii "COMMIT"))] .idle)
  | rolledBack (status : TxnStatus) (hv : queryVerb r.message = some .rollback) :
      Served r status .idle
        (queryRound r.message [.sent (Message.commandComplete (ascii "ROLLBACK"))] .idle)
  | handled (status : TxnStatus) (ctx : QueryContext) (sql : Bytes)
      (hv : queryVerb r.message = some .other) (hs : status ≠ .failed) :
      Served r status ((r.handler ctx sql).status status)
        (queryRound r.message (.called ctx sql :: (r.handler ctx sql).frames.map .sent)
          ((r.handler ctx sql).status status))
  | unsupported (status : TxnStatus) (hq : r.message.tag ≠ Tag.query)
      (ht : r.message.tag ≠ Tag.terminate) :
      Served r status status
        [.received r.message, .sent unsupported, .sent (Message.readyForQuery status.code)]

theorem queryVerb_query {m : RawMessage} (h : m.tag = Tag.query) :
    queryVerb m = some (verbOf (querySql m.payload)) := if_pos h

theorem queryVerb_other {m : RawMessage} (h : m.tag ≠ Tag.query) : queryVerb m = none := if_neg h

theorem customStep_served {user database : Bytes} {status status' : TxnStatus} {r : Round}
    {effects : List Effect} (h : customStep user database status r = some (status', effects)) :
    Served r status status' effects := by
  unfold customStep at h
  split at h
  · rename_i hq
    have hv := queryVerb_query hq
    simp only [runQuery, answerQuery] at h
    generalize hverb : verbOf (querySql r.message.payload) = verb at h hv
    split at h
    · rename_i hf
      obtain ⟨rfl, hc, hr⟩ := hf
      cases h
      exact .refused verb hv hc hr
    · rename_i hf
      cases verb with
      | begin =>
        cases h
        exact .began status hv fun hs => hf ⟨hs, nofun, nofun⟩
      | commit => cases h; exact .committed status hv
      | rollback => cases h; exact .rolledBack status hv
      | other =>
        cases h
        have hserved := Served.handled status ⟨user, database, status⟩
          (trimmedSql (querySql r.message.payload)).flatten hv fun hs => hf ⟨hs, nofun, nofun⟩
        simpa [queryRound] using hserved
  · rename_i hq
    split at h
    · cases h
    · rename_i ht
      cases h
      exact .unsupported status hq ht

theorem customStep_stop {user database : Bytes} {status : TxnStatus} {r : Round}
    (h : customStep user database status r = none) : r.message.tag = Tag.terminate := by
  unfold customStep at h
  split at h
  · cases h
  · split at h
    · assumption
    · cases h

/-! ## The status of the block -/

/-- PostgreSQL's transaction-block rules: a block opens with `BEGIN`, fails with the first error sent
in it and lasts to the query that ends it; every `ReadyForQuery` shows where it stands, and no
query is handled while it has failed. -/
def blockRules : Monitor TxnStatus Effect where
  next status
    | .received m =>
      match queryVerb m with
      | some .begin => if status = .idle then .inTransaction else status
      | some .commit | some .rollback => .idle
      | some .other | none => status
    | .sent bs => if isError bs ∧ status = .inTransaction then .failed else status
    | .set | .called _ _ | .clear => status
  allows status
    | .sent bs => isReady bs → bs = Message.readyForQuery status.code
    | .called _ _ => status ≠ .failed
    | .received _ | .set | .clear => True

theorem blockRules_plain {status : TxnStatus} {frames : List Bytes}
    (h : ∀ bs ∈ frames, isError bs = false ∧ isReady bs = false) :
    blockRules.Accepts status (frames.map .sent) ∧
      blockRules.after status (frames.map .sent) = status := by
  refine Monitor.accepts_quiet fun e he => ?_
  obtain ⟨bs, hbs, rfl⟩ := List.mem_map.mp he
  obtain ⟨he, hr⟩ := h bs hbs
  simp [blockRules, he, hr]

/-- An answer moves the block as it moves the session. -/
theorem blockRules_answer {status : TxnStatus} (response : QueryResponse) :
    blockRules.Accepts status (response.frames.map .sent) ∧
      blockRules.after status (response.frames.map .sent) = response.status status := by
  cases response with
  | rows columns cells tag =>
    exact blockRules_plain (QueryResponse.frames_plain rfl)
  | command tag => exact blockRules_plain (QueryResponse.frames_plain rfl)
  | error code message => simp [blockRules, QueryResponse.frames, QueryResponse.status]

/-- A message that is neither a query nor the end does not come while the block is open. -/
def NoStray (status : TxnStatus) (r : Round) : Prop :=
  status = .inTransaction → r.message.tag = Tag.query ∨ r.message.tag = Tag.terminate

theorem queryVerb_tag {m : RawMessage} {verb : Verb} (h : queryVerb m = some verb) :
    m.tag = Tag.query := by
  unfold queryVerb at h
  split at h
  · assumption
  · cases h

/-- A query's round follows the rules if what is done for it leads to the status it reports. -/
theorem blockRules_queryRound {m : RawMessage} {status opened status' : TxnStatus}
    {done : List Effect} (hnext : blockRules.next status (.received m) = opened)
    (hacc : blockRules.Accepts opened done) (hafter : blockRules.after opened done = status') :
    blockRules.Accepts status (queryRound m done status') ∧
      blockRules.after status (queryRound m done status') = status' := by
  subst hnext hafter
  simp only [queryRound, Monitor.accepts_cons, Monitor.accepts_append, Monitor.after_cons,
    Monitor.after_append]
  refine ⟨⟨trivial, trivial, hacc, fun _ => rfl, trivial, trivial⟩, ?_⟩
  simp [blockRules]

/-- A round follows the rules exactly if it is not for a stray message in an open block. -/
theorem Served.follows_iff {r : Round} {status status' : TxnStatus} {effects : List Effect}
    (h : Served r status status' effects) :
    (blockRules.Accepts status effects ↔ NoStray status r) ∧
      (NoStray status r → blockRules.after status effects = status') := by
  have hquery : ∀ verb, queryVerb r.message = some verb →
      blockRules.Accepts status effects ∧ blockRules.after status effects = status' →
      (blockRules.Accepts status effects ↔ NoStray status r) ∧
        (NoStray status r → blockRules.after status effects = status') := by
    intro verb hv ⟨ha, he⟩
    exact ⟨⟨fun _ _ => .inl (queryVerb_tag hv), fun _ => ha⟩, fun _ => he⟩
  cases h with
  | refused verb hv hc hr =>
    refine hquery verb hv (@blockRules_queryRound _ _ .failed _ _ ?_ ?_ ?_)
    · cases verb with
      | begin => simp [blockRules, hv]
      | commit => exact (hc rfl).elim
      | rollback => exact (hr rfl).elim
      | other => simp [blockRules, hv]
    · simp [blockRules, failedBlock]
    · simp [blockRules]
  | began _ hv hs =>
    refine hquery _ hv (@blockRules_queryRound _ _ .inTransaction _ _ ?_ ?_ ?_)
    · cases status with
      | idle => simp [blockRules, hv]
      | inTransaction => simp [blockRules, hv]
      | failed => exact (hs rfl).elim
    · simp [blockRules]
    · simp [blockRules]
  | committed _ hv =>
    refine hquery _ hv (@blockRules_queryRound _ _ .idle _ _ ?_ ?_ ?_) <;> simp [blockRules, hv]
  | rolledBack _ hv =>
    refine hquery _ hv (@blockRules_queryRound _ _ .idle _ _ ?_ ?_ ?_) <;> simp [blockRules, hv]
  | handled _ ctx sql hv hs =>
    refine hquery _ hv (@blockRules_queryRound _ _ status _ _ (by simp [blockRules, hv]) ?_ ?_)
    · exact ⟨hs, (blockRules_answer _).1⟩
    · exact (blockRules_answer _).2
  | unsupported _ hq ht =>
    have hv := queryVerb_other hq
    cases status with
    | idle => simp [blockRules, hv, NoStray, Proxy.unsupported]
    | failed => simp [blockRules, hv, NoStray, Proxy.unsupported]
    | inTransaction =>
      have hcode : Message.readyForQuery TxnStatus.inTransaction.code ≠
          Message.readyForQuery TxnStatus.failed.code := by decide
      simp [blockRules, hv, NoStray, Proxy.unsupported, hq, ht, hcode]

/-- The opening is nothing but plain frames and the idle `ReadyForQuery`. -/
theorem mem_synthesizeStartup {params : List (Bytes × Bytes)} {key : Bytes} {bs : Bytes}
    (h : bs ∈ synthesizeStartup (params.map fun p => Message.parameterStatus p.1 p.2) key) :
    isError bs = false ∧ (isReady bs = true → bs = Message.readyForQuery TxnStatus.idle.code) ∧
      bs ≠ Message.commandComplete (ascii "COMMIT") := by
  simp only [synthesizeStartup, List.cons_append, List.mem_cons, List.mem_append, List.mem_map,
    List.not_mem_nil, or_false] at h
  rcases h with rfl | ⟨p, -, rfl⟩ | rfl | rfl
  · exact ⟨rfl, nofun, frame_tag_ne (by decide)⟩
  · exact ⟨rfl, nofun, frame_tag_ne (by decide)⟩
  · exact ⟨rfl, nofun, frame_tag_ne (by decide)⟩
  · exact ⟨rfl, fun _ => rfl, frame_tag_ne (by decide)⟩

section

variable (user database : Bytes) (clientKey : Option CancelKey) (draw : Vector UInt8 8)

/-- A monitor that is not moved by the opening sees the rounds only. -/
theorem accepts_terminated {σ : Type} {M : Monitor σ Effect} {s : σ}
    (hopen : ∀ bs, isError bs = false →
      (isReady bs = true → bs = Message.readyForQuery TxnStatus.idle.code) →
      bs ≠ Message.commandComplete (ascii "COMMIT") → M.allows s (.sent bs) ∧ M.next s (.sent bs) = s)
    (auth : BackendAuth) (rounds : List Round) :
    M.Accepts s (serveCustom user database (.terminated auth) clientKey draw rounds).effects ↔
      M.Accepts s (outputs (customStep user database) .idle rounds) := by
  have hquiet : M.Accepts s ((synthesizeStartup
      (virtualParameters.map fun p => Message.parameterStatus p.1 p.2)
      (clientKey.getD ⟨draw.toList⟩).bytes).map .sent) ∧ M.after s
      ((synthesizeStartup (virtualParameters.map fun p => Message.parameterStatus p.1 p.2)
        (clientKey.getD ⟨draw.toList⟩).bytes).map .sent) = s := by
    refine Monitor.accepts_quiet fun e he => ?_
    obtain ⟨bs, hbs, rfl⟩ := List.mem_map.mp he
    obtain ⟨he, hr, hc⟩ := mem_synthesizeStartup hbs
    exact hopen bs he hr hc
  rw [serveCustom, CustomSession.effects, Monitor.accepts_append, hquiet.2]
  exact and_iff_right hquiet.1

theorem blockRules_outputs_iff (rounds : List Round) :
    blockRules.Accepts .idle (outputs (customStep user database) .idle rounds) ↔
      Along (moves (customStep user database)) NoStray .idle rounds := by
  refine @Monitor.accepts_outputs_iff _ _ _ _ (customStep user database) blockRules
    (fun status status' => status = status') NoStray (fun _ => True) ?_ ?_ rounds .idle .idle
    (fun _ _ => trivial) rfl
  · rintro status _ r status' effects - rfl h
    exact (customStep_served h).follows_iff.imp_right fun h hg => (h hg).symm
  · exact fun status r h _ => .inr (customStep_stop h)

theorem blockRules_terminated (auth : BackendAuth) (rounds : List Round) :
    blockRules.Accepts .idle
        (serveCustom user database (.terminated auth) clientKey draw rounds).effects ↔
      Along (moves (customStep user database)) NoStray .idle rounds := by
  rw [accepts_terminated _ _ _ _ fun bs he hr _ => ⟨hr, by simp [blockRules]⟩,
    blockRules_outputs_iff]

/-- **Transaction status.** A custom session, however far it comes, follows the transaction-block
rules if and only if no message other than a query or `Terminate` is received while its status is
`InTransaction`. -/
theorem session_follows_block_rules_iff (outcome : ClientAuth) (rounds : List Round) :
    (∀ run, run <+: (serveCustom user database outcome clientKey draw rounds).effects →
        blockRules.Accepts .idle run) ↔
      (outcome ≠ .passThrough →
        Along (moves (customStep user database)) NoStray .idle rounds) := by
  rw [Monitor.accepts_prefixes_iff]
  cases outcome with
  | passThrough => simp [serveCustom, CustomSession.effects, blockRules, Message.fatalError]
  | terminated auth =>
    rw [blockRules_terminated]
    exact ⟨fun h _ => h, fun h => h nofun⟩

end

namespace CustomSample

/-- A handler that fails every query. -/
def failing : QueryHandler := fun _ _ => .error (ascii "22012") (ascii "division by zero")

def queryOf (sql : Bytes) : Round := ⟨RawMessage.build Tag.query (Message.cstr sql), failing⟩

/-- `Parse` of an unnamed statement. -/
def parse : Round :=
  ⟨RawMessage.build 80 (Message.cstr [] ++ Message.cstr (ascii "SELECT 1") ++ i16ToBe 0), failing⟩

def session (rounds : List Round) : CustomSession :=
  serveCustom (ascii "alice") (ascii "app") (.terminated .trust) none (Vector.replicate 8 1) rounds

theorem moves_begin : moves (customStep (ascii "alice") (ascii "app")) .idle
    (queryOf (ascii "BEGIN")) = some .inTransaction := by decide +kernel

end CustomSample

/-- `BEGIN` and `Parse`: the error leaves the block open. -/
theorem parse_leaves_block_open :
    ¬ ∀ run, run <+: (CustomSample.session [CustomSample.queryOf (ascii "BEGIN"), CustomSample.parse]).effects →
      blockRules.Accepts .idle run := by
  rw [Monitor.accepts_prefixes_iff, CustomSample.session, blockRules_terminated]
  rintro ⟨-, h⟩
  rcases (h _ CustomSample.moves_begin).1 rfl with h | h <;> exact absurd h (by decide)

/-! ## Commits -/

/-- What a client is told of the open block. -/
structure Ledger where
  /-- The open block, and whether an error was sent in it. -/
  block : Option Bool
  /-- The block in which the query under way was received. -/
  asked : Option Bool

/-- A `COMMIT` for a query received in a block in which no error was sent. -/
def ledger : Monitor Ledger Effect where
  next l
    | .received m =>
      match queryVerb m with
      | some .begin => ⟨some (l.block.getD false), l.block⟩
      | some .commit | some .rollback => ⟨none, l.block⟩
      | some .other => ⟨l.block, l.block⟩
      | none => ⟨l.block, none⟩
    | .sent bs =>
      if isError bs then ⟨l.block.map fun _ => true, l.asked.map fun _ => true⟩ else l
    | .set | .called _ _ | .clear => l
  allows l
    | .sent bs => bs = Message.commandComplete (ascii "COMMIT") → l.asked ≠ some true
    | .received _ | .set | .called _ _ | .clear => True

/-- The command tag of an answer. -/
def QueryResponse.tag : QueryResponse → Option Bytes
  | .rows _ _ tag => some tag
  | .command tag => some tag
  | .error _ _ => none

/-- The handler does not say `COMMIT` itself. -/
def NeverCommits (r : Round) : Prop := ∀ ctx sql, (r.handler ctx sql).tag ≠ some (ascii "COMMIT")

theorem commandComplete_inj {tag tag' : Bytes}
    (h : Message.commandComplete tag = Message.commandComplete tag') : tag = tag' :=
  List.append_cancel_right (congrArg (List.drop 5) h)

theorem QueryResponse.frames_not_commit {response : QueryResponse}
    (h : response.tag ≠ some (ascii "COMMIT")) :
    ∀ bs ∈ response.frames, bs ≠ Message.commandComplete (ascii "COMMIT") := by
  intro bs hbs
  cases response with
  | rows columns cells tag =>
    simp only [frames, List.cons_append, List.mem_cons, List.mem_append, List.mem_map,
      List.not_mem_nil, or_false] at hbs
    rcases hbs with rfl | ⟨row, -, rfl⟩ | rfl
    · exact frame_tag_ne (by decide)
    · exact frame_tag_ne (by decide)
    · intro he
      exact h (congrArg some (commandComplete_inj he))
  | command tag =>
    obtain rfl := List.mem_singleton.mp hbs
    intro he
    exact h (congrArg some (commandComplete_inj he))
  | error code message =>
    obtain rfl := List.mem_singleton.mp hbs
    exact frame_tag_ne (by decide)

/-- The note kept beside the status: a message that is no query came in the open block. -/
def noteStray (stray : Bool) (status : TxnStatus) (r : Round) : Bool :=
  status ≠ .idle && (stray || r.message.tag ≠ Tag.query)

/-- A query that commits comes neither in a failed block nor after a stray message in it. -/
def CleanCommit (s : TxnStatus × Bool) (r : Round) : Prop :=
  queryVerb r.message = some .commit → s.1 ≠ .failed ∧ (s.1 = .inTransaction → s.2 = false)

/-- The block as the ledger has it. -/
def blockOf : TxnStatus × Bool → Option Bool
  | (.idle, _) => none
  | (.inTransaction, stray) => some stray
  | (.failed, _) => some true

theorem cleanCommit_iff {s : TxnStatus × Bool} {r : Round}
    (hv : queryVerb r.message = some .commit) : CleanCommit s r ↔ blockOf s ≠ some true := by
  obtain ⟨status, stray⟩ := s
  cases status <;> simp [CleanCommit, blockOf, hv]

theorem cleanCommit_of_ne {s : TxnStatus × Bool} {r : Round}
    (hv : queryVerb r.message ≠ some .commit) : CleanCommit s r := fun h => (hv h).elim

theorem ledger_queryRound {m : RawMessage} {l opened : Ledger} (done : List Effect)
    (status : TxnStatus) (hnext : ledger.next l (.received m) = opened) :
    (ledger.Accepts l (queryRound m done status) ↔ ledger.Accepts opened done) ∧
      ledger.after l (queryRound m done status) = ledger.after opened done := by
  subst hnext
  have hready : Message.readyForQuery status.code ≠ Message.commandComplete (ascii "COMMIT") :=
    frame_tag_ne (by decide)
  simp only [queryRound, Monitor.accepts_cons, Monitor.accepts_append, Monitor.after_cons,
    Monitor.after_append]
  constructor
  · simp [ledger, hready]
  · simp [ledger]

/-- Another command tag neither needs the ledger nor moves it. -/
theorem ledger_commandComplete {tag : Bytes} (h : tag ≠ ascii "COMMIT") (l : Ledger) :
    ledger.Accepts l [.sent (Message.commandComplete tag)] ∧
      ledger.after l [.sent (Message.commandComplete tag)] = l := by
  have hne : Message.commandComplete tag ≠ Message.commandComplete (ascii "COMMIT") :=
    fun he => h (commandComplete_inj he)
  simp [ledger, hne]

/-- The ledger moves with the status of an answer that does not say `COMMIT`. -/
theorem ledger_answer {response : QueryResponse} (h : response.tag ≠ some (ascii "COMMIT"))
    {l : Ledger} {status : TxnStatus} {stray : Bool} (hs : status ≠ .failed)
    (hb : l.block = blockOf (status, stray)) :
    ledger.Accepts l (response.frames.map .sent) ∧
      (ledger.after l (response.frames.map .sent)).block =
        blockOf (response.status status, stray) := by
  have hplain : response.isError = false → ledger.Accepts l (response.frames.map .sent) ∧
      ledger.after l (response.frames.map .sent) = l := by
    intro he
    refine Monitor.accepts_quiet fun e hmem => ?_
    obtain ⟨bs, hbs, rfl⟩ := List.mem_map.mp hmem
    have hne := QueryResponse.frames_not_commit h bs hbs
    exact ⟨fun hc => (hne hc).elim, by simp [ledger, (QueryResponse.frames_plain he bs hbs).1]⟩
  cases response with
  | rows columns cells tag => exact ⟨(hplain rfl).1, by rw [(hplain rfl).2]; exact hb⟩
  | command tag => exact ⟨(hplain rfl).1, by rw [(hplain rfl).2]; exact hb⟩
  | error code message =>
    have hne : Message.errorResponse (ascii "ERROR") code message ≠
        Message.commandComplete (ascii "COMMIT") := frame_tag_ne (by decide)
    refine ⟨by simp [ledger, QueryResponse.frames, hne], ?_⟩
    cases status with
    | idle => simp [ledger, QueryResponse.frames, QueryResponse.status, hb, blockOf]
    | inTransaction => simp [ledger, QueryResponse.frames, QueryResponse.status, hb, blockOf]
    | failed => exact (hs rfl).elim

/-- A round answers `COMMIT` rightly exactly if it is not for a commit in a block with an error. -/
theorem Served.clean_iff {r : Round} {status status' : TxnStatus} {effects : List Effect}
    (h : Served r status status' effects) (hn : NeverCommits r) {l : Ledger} {stray : Bool}
    (hb : l.block = blockOf (status, stray)) :
    (ledger.Accepts l effects ↔ CleanCommit (status, stray) r) ∧
      (ledger.after l effects).block = blockOf (status', noteStray stray status r) := by
  have hnote : ∀ verb, queryVerb r.message = some verb →
      noteStray stray status r = (status ≠ .idle && stray) := by
    intro verb hv
    simp [noteStray, queryVerb_tag hv]
  cases h with
  | refused verb hv hc hr =>
    have hne : failedBlock ≠ Message.commandComplete (ascii "COMMIT") := frame_tag_ne (by decide)
    have hopen : ledger.next l (.received r.message) = ⟨some true, some true⟩ := by
      cases verb with
      | begin => simp [ledger, hv, hb, blockOf]
      | commit => exact (hc rfl).elim
      | rollback => exact (hr rfl).elim
      | other => simp [ledger, hv, hb, blockOf]
    obtain ⟨hacc, hafter⟩ := ledger_queryRound [.sent failedBlock] .failed hopen
    rw [hacc, hafter]
    refine ⟨iff_of_true ?_ (cleanCommit_of_ne ?_), ?_⟩
    · simp [ledger, hne]
    · rw [hv]; exact fun he => hc (Option.some.inj he)
    · simp [ledger, blockOf, failedBlock]
  | began _ hv hs =>
    have htag := ledger_commandComplete (show ascii "BEGIN" ≠ ascii "COMMIT" by decide)
      ⟨some (l.block.getD false), l.block⟩
    have hopen : ledger.next l (.received r.message) =
        ⟨some (l.block.getD false), l.block⟩ := by simp [ledger, hv]
    obtain ⟨hacc, hafter⟩ := ledger_queryRound
      [.sent (Message.commandComplete (ascii "BEGIN"))] .inTransaction hopen
    rw [hacc, hafter, hnote _ hv, htag.2]
    refine ⟨iff_of_true htag.1 (cleanCommit_of_ne (by simp [hv])), ?_⟩
    cases status with
    | idle => simp [hb, blockOf]
    | inTransaction => simp [hb, blockOf]
    | failed => exact (hs rfl).elim
  | committed _ hv =>
    have hopen : ledger.next l (.received r.message) = ⟨none, l.block⟩ := by simp [ledger, hv]
    obtain ⟨hacc, hafter⟩ := ledger_queryRound
      [.sent (Message.commandComplete (ascii "COMMIT"))] .idle hopen
    rw [hacc, hafter, cleanCommit_iff hv]
    refine ⟨?_, by simp [ledger, blockOf]⟩
    simp [ledger, hb]
  | rolledBack _ hv =>
    have htag := ledger_commandComplete (show ascii "ROLLBACK" ≠ ascii "COMMIT" by decide)
      ⟨none, l.block⟩
    have hopen : ledger.next l (.received r.message) = ⟨none, l.block⟩ := by simp [ledger, hv]
    obtain ⟨hacc, hafter⟩ := ledger_queryRound
      [.sent (Message.commandComplete (ascii "ROLLBACK"))] .idle hopen
    rw [hacc, hafter, htag.2]
    exact ⟨iff_of_true htag.1 (cleanCommit_of_ne (by simp [hv])), rfl⟩
  | handled _ ctx sql hv hs =>
    have hopen : ledger.next l (.received r.message) = ⟨l.block, l.block⟩ := by simp [ledger, hv]
    obtain ⟨ha, hblock⟩ := @ledger_answer _ (hn ctx sql) ⟨l.block, l.block⟩ _ stray hs hb
    obtain ⟨hacc, hafter⟩ := ledger_queryRound
      (.called ctx sql :: (r.handler ctx sql).frames.map .sent)
      ((r.handler ctx sql).status status) hopen
    rw [hacc, hafter]
    refine ⟨iff_of_true ⟨trivial, ha⟩ (cleanCommit_of_ne (by simp [hv])), ?_⟩
    refine Eq.trans hblock ?_
    rw [hnote _ hv]
    cases status with
    | idle => cases r.handler ctx sql <;> rfl
    | inTransaction => simp
    | failed => exact (hs rfl).elim
  | unsupported _ hq ht =>
    have hv := queryVerb_other hq
    have hready : Message.readyForQuery status.code ≠ Message.commandComplete (ascii "COMMIT") :=
      frame_tag_ne (by decide)
    have hne : Proxy.unsupported ≠ Message.commandComplete (ascii "COMMIT") :=
      frame_tag_ne (by decide)
    refine ⟨iff_of_true ?_ (cleanCommit_of_ne (by simp [hv])), ?_⟩
    · simp [ledger, hne, hready]
    · cases status <;> simp [ledger, hv, hb, blockOf, noteStray, hq, Proxy.unsupported]

section

variable (user database : Bytes) (clientKey : Option CancelKey) (draw : Vector UInt8 8)

theorem ledger_terminated {rounds : List Round} (hn : ∀ r ∈ rounds, NeverCommits r)
    (auth : BackendAuth) :
    ledger.Accepts ⟨none, none⟩
        (serveCustom user database (.terminated auth) clientKey draw rounds).effects ↔
      Along (moves (noting noteStray (customStep user database))) CleanCommit (.idle, false)
        rounds := by
  have hopen : ∀ bs, isError bs = false →
      (isReady bs = true → bs = Message.readyForQuery TxnStatus.idle.code) →
      bs ≠ Message.commandComplete (ascii "COMMIT") →
      ledger.allows ⟨none, none⟩ (.sent bs) ∧ ledger.next ⟨none, none⟩ (.sent bs) = ⟨none, none⟩ :=
    fun bs _ _ hc => ⟨fun h => (hc h).elim, by simp [ledger]⟩
  rw [accepts_terminated _ _ _ _ hopen, ← outputs_noting noteStray rounds .idle false]
  refine @Monitor.accepts_outputs_iff _ _ _ _ _ ledger (fun s l => l.block = blockOf s) CleanCommit
    NeverCommits ?_ ?_ rounds (.idle, false) ⟨none, none⟩ hn rfl
  · rintro ⟨status, stray⟩ l r ⟨status', stray'⟩ effects hr hb h
    obtain ⟨hs, rfl⟩ := noting_eq_some h
    obtain ⟨hacc, hblock⟩ := (customStep_served hs).clean_iff hr hb
    exact ⟨hacc, fun _ => hblock⟩
  · rintro ⟨status, stray⟩ r h hv
    have ht := customStep_stop (noting_eq_none h)
    rw [queryVerb_tag hv] at ht
    exact absurd ht (by decide)

/-- **Commits.** In a custom session whose handlers do not say `COMMIT` themselves, every `COMMIT`
for a query received in a transaction block is sent with no error since the block was opened, if and
only if no `COMMIT` or `END` query is received in a failed block, or in one in which a message other
than a query came since it was opened. -/
theorem commits_are_clean_iff (outcome : ClientAuth) {rounds : List Round}
    (hn : ∀ r ∈ rounds, NeverCommits r) :
    (∀ run, run <+: (serveCustom user database outcome clientKey draw rounds).effects →
        ledger.Accepts ⟨none, none⟩ run) ↔
      (outcome ≠ .passThrough →
        Along (moves (noting noteStray (customStep user database))) CleanCommit (.idle, false)
          rounds) := by
  rw [Monitor.accepts_prefixes_iff]
  cases outcome with
  | passThrough => simp [serveCustom, CustomSession.effects, ledger]
  | terminated auth =>
    rw [ledger_terminated _ _ _ _ hn]
    exact ⟨fun h _ => h, fun h => h nofun⟩

end

namespace CustomSample

theorem neverCommits_failing (m : RawMessage) : NeverCommits ⟨m, failing⟩ := nofun

def emptyBlock : List Round := [queryOf (ascii "BEGIN"), queryOf (ascii "COMMIT")]

/-- A block that fails and is then committed. -/
def failedCommit : List Round :=
  [queryOf (ascii "BEGIN"), queryOf (ascii "SELECT 1/0"), queryOf (ascii "COMMIT")]

end CustomSample

/-- `BEGIN`, a failing query and `COMMIT`: the client is told that the block was committed. -/
theorem failed_block_is_committed :
    (∀ r ∈ CustomSample.failedCommit, NeverCommits r) ∧
    ¬ ∀ run, run <+: (CustomSample.session CustomSample.failedCommit).effects →
      ledger.Accepts ⟨none, none⟩ run := by
  have hn : ∀ r ∈ CustomSample.failedCommit, NeverCommits r := by
    intro r hr
    simp only [CustomSample.failedCommit, List.mem_cons, List.not_mem_nil, or_false] at hr
    rcases hr with rfl | rfl | rfl <;> exact CustomSample.neverCommits_failing _
  refine ⟨hn, ?_⟩
  rw [Monitor.accepts_prefixes_iff, CustomSample.session, ledger_terminated _ _ _ _ hn]
  rintro ⟨-, h⟩
  have h₁ := h (.inTransaction, false) (by decide +kernel)
  have h₂ := h₁.2 (.failed, false) (by decide +kernel)
  exact (h₂.1 (by decide +kernel)).1 rfl

/-- A block in which nothing went wrong. -/
theorem commits_are_clean_iff_for_empty_block :
    (∀ r ∈ CustomSample.emptyBlock, NeverCommits r) ∧
    ∀ run, run <+: (CustomSample.session CustomSample.emptyBlock).effects →
      ledger.Accepts ⟨none, none⟩ run := by
  have hn : ∀ r ∈ CustomSample.emptyBlock, NeverCommits r := by
    intro r hr
    simp only [CustomSample.emptyBlock, List.mem_cons, List.not_mem_nil, or_false] at hr
    rcases hr with rfl | rfl <;> exact CustomSample.neverCommits_failing _
  refine ⟨hn, (commits_are_clean_iff _ _ _ _ _ hn).mpr fun _ =>
    ⟨cleanCommit_of_ne (by decide +kernel), fun s hs => ?_⟩⟩
  obtain rfl : (TxnStatus.inTransaction, false) = s := by
    have hmove : moves (noting noteStray (customStep (ascii "alice") (ascii "app"))) (.idle, false)
        (CustomSample.queryOf (ascii "BEGIN")) = some (.inTransaction, false) := by decide +kernel
    rw [hmove] at hs
    exact Option.some.inj hs
  exact ⟨fun _ => ⟨nofun, fun _ => rfl⟩, fun _ _ => trivial⟩

/-! ## Counting ReadyForQuery -/

/-- The tag of `Sync`, which the proxy does not read. -/
def syncTag : UInt8 := 83

/-- A client waits for a `ReadyForQuery` after these. -/
def awaitsReady (m : RawMessage) : Bool := m.tag == Tag.query || m.tag == syncTag

def Effect.isReady : Effect → Bool
  | .sent bs => Proxy.isReady bs
  | _ => false

def readyCount (effects : List Effect) : Nat := effects.countP Effect.isReady

/-- One `ReadyForQuery` for each message that asks for one and none for the others. -/
def Accounted (answers : List (Round × List Effect)) : Prop :=
  (∀ x ∈ answers, readyCount x.2 = if awaitsReady x.1.message then 1 else 0) ∧
    readyCount (answers.flatMap Prod.snd) = answers.countP fun x => awaitsReady x.1.message

theorem readyCount_sent {frames : List Bytes} (h : ∀ bs ∈ frames, isReady bs = false) :
    readyCount (frames.map .sent) = 0 := by
  refine List.countP_eq_zero.mpr fun e he => ?_
  obtain ⟨bs, hbs, rfl⟩ := List.mem_map.mp he
  simp [Effect.isReady, h bs hbs]

theorem readyCount_queryRound (m : RawMessage) {done : List Effect} (h : readyCount done = 0)
    (status : TxnStatus) : readyCount (queryRound m done status) = 1 := by
  have hend : readyCount [.sent (Message.readyForQuery status.code), .clear] = 1 := rfl
  simp only [readyCount] at h hend
  simp [readyCount, queryRound, Effect.isReady, h, hend]

theorem QueryResponse.frames_not_ready (response : QueryResponse) :
    ∀ bs ∈ response.frames, isReady bs = false := by
  cases response with
  | rows columns cells tag => exact fun bs hbs => (frames_plain rfl bs hbs).2
  | command tag => exact fun bs hbs => (frames_plain rfl bs hbs).2
  | error code message =>
    intro bs hbs
    obtain rfl := List.mem_singleton.mp hbs
    rfl

/-- Every round ends in one `ReadyForQuery`, whatever the message. -/
theorem Served.readyCount {r : Round} {status status' : TxnStatus} {effects : List Effect}
    (h : Served r status status' effects) : readyCount effects = 1 := by
  cases h with
  | refused => exact readyCount_queryRound _ rfl _
  | began => exact readyCount_queryRound _ rfl _
  | committed => exact readyCount_queryRound _ rfl _
  | rolledBack => exact readyCount_queryRound _ rfl _
  | handled ctx sql _ hv hs =>
    exact readyCount_queryRound _ (readyCount_sent (QueryResponse.frames_not_ready _)) _
  | unsupported => rfl

theorem Served.not_terminate {r : Round} {status status' : TxnStatus} {effects : List Effect}
    (h : Served r status status' effects) : r.message.tag ≠ Tag.terminate := by
  have hquery : ∀ verb, queryVerb r.message = some verb → r.message.tag ≠ Tag.terminate := by
    intro verb hv
    rw [queryVerb_tag hv]; decide
  cases h with
  | refused verb hv => exact hquery _ hv
  | began _ hv => exact hquery _ hv
  | committed _ hv => exact hquery _ hv
  | rolledBack _ hv => exact hquery _ hv
  | handled _ ctx sql hv => exact hquery _ hv
  | unsupported _ hq ht => exact ht

theorem replies_customStep (user database : Bytes) : ∀ (rounds : List Round) (status : TxnStatus),
    (replies (customStep user database) status rounds).map Prod.fst =
        rounds.takeWhile (fun r => r.message.tag ≠ Tag.terminate) ∧
      ∀ x ∈ replies (customStep user database) status rounds, readyCount x.2 = 1
  | [], _ => ⟨rfl, nofun⟩
  | r :: rounds, status => by
    cases h : customStep user database status r with
    | none =>
      rw [replies_stop h, List.takeWhile_cons_of_neg (by simp [customStep_stop h])]
      exact ⟨rfl, nofun⟩
    | some x =>
      obtain ⟨status', effects⟩ := x
      obtain ⟨ihm, ihr⟩ := replies_customStep user database rounds status'
      have hserved := customStep_served h
      have ht := hserved.not_terminate
      rw [replies_cons h, List.takeWhile_cons_of_pos (by simp [ht]), List.map_cons, ihm]
      refine ⟨rfl, fun x hx => ?_⟩
      rcases List.mem_cons.mp hx with rfl | hx
      · exact hserved.readyCount
      · exact ihr x hx

theorem readyCount_flatMap : ∀ {answers : List (Round × List Effect)},
    (∀ x ∈ answers, readyCount x.2 = 1) → readyCount (answers.flatMap Prod.snd) = answers.length
  | [], _ => rfl
  | x :: answers, h => by
    have ih := readyCount_flatMap fun y hy => h y (.tail x hy)
    have hx := h x List.mem_cons_self
    rw [readyCount] at ih hx ⊢
    rw [List.flatMap_cons, List.countP_append, ih, hx, List.length_cons, Nat.add_comm]

/-- When each answer has one `ReadyForQuery`, the accounts hold exactly if every message awaits
it. -/
theorem accounted_iff {answers : List (Round × List Effect)}
    (h : ∀ x ∈ answers, readyCount x.2 = 1) :
    Accounted answers ↔ ∀ x ∈ answers, awaitsReady x.1.message = true := by
  constructor
  · rintro ⟨heach, -⟩ x hx
    have hone := heach x hx
    rw [h x hx] at hone
    split at hone
    · assumption
    · cases hone
  · intro hall
    refine ⟨fun x hx => by rw [h x hx, if_pos (hall x hx)], ?_⟩
    rw [readyCount_flatMap h]
    exact (List.countP_eq_length.mpr hall).symm

theorem accounted_terminated (user database : Bytes) (auth : BackendAuth)
    (clientKey : Option CancelKey) (draw : Vector UInt8 8) (rounds : List Round) :
    Accounted (serveCustom user database (.terminated auth) clientKey draw rounds).answers ↔
      ∀ r ∈ rounds.takeWhile (fun r => r.message.tag ≠ Tag.terminate),
        awaitsReady r.message = true := by
  obtain ⟨hmap, hready⟩ := replies_customStep user database rounds .idle
  rw [serveCustom, accounted_iff hready, ← hmap]
  simp only [List.mem_map, forall_exists_index, and_imp, forall_apply_eq_imp_iff₂]

/-- **Accounting.** The `ReadyForQuery`s a custom session sends after its startup are one for each
`Query` and `Sync` and none for another message if and only if no other message is received before
`Terminate`. -/
theorem ready_accounting_iff (user database : Bytes) (outcome : ClientAuth)
    (clientKey : Option CancelKey) (draw : Vector UInt8 8) (rounds : List Round) :
    Accounted (serveCustom user database outcome clientKey draw rounds).answers ↔
      (outcome ≠ .passThrough → ∀ r ∈ rounds.takeWhile (fun r => r.message.tag ≠ Tag.terminate),
        awaitsReady r.message = true) := by
  cases outcome with
  | passThrough => exact ⟨fun _ h => (h rfl).elim, fun _ => ⟨nofun, rfl⟩⟩
  | terminated auth =>
    rw [accounted_terminated]
    exact ⟨fun h _ => h, fun h => h nofun⟩

namespace CustomSample

/-- `Bind` of the unnamed statement, `Execute` of the unnamed portal and `Sync`. -/
def bind : Round :=
  ⟨RawMessage.build 66 (Message.cstr [] ++ Message.cstr [] ++ i16ToBe 0 ++ i16ToBe 0 ++ i16ToBe 0),
    failing⟩

def execute : Round := ⟨RawMessage.build 69 (Message.cstr [] ++ i32ToBe 0), failing⟩

def sync : Round := ⟨RawMessage.build syncTag [], failing⟩

end CustomSample

/-- One extended query: the client awaits one `ReadyForQuery` and is sent four. -/
theorem extended_query_miscounts :
    ¬ Accounted (CustomSample.session [CustomSample.parse, CustomSample.bind, CustomSample.execute,
      CustomSample.sync]).answers := by
  rw [CustomSample.session, accounted_terminated]
  intro h
  rw [List.takeWhile_cons_of_pos (by decide)] at h
  exact absurd (h CustomSample.parse List.mem_cons_self) (by decide)

end RamaPg.Proxy
