import RamaPg.Pool.Ownership

/-!
# Responses stay with the session that asked

`run_lease` takes one idle `ReadyForQuery` for the end of all work on its backend, and `Lease::reset`
drains up to the next one. That is right when the `ReadyForQuery` it acts on answers the only
`Query` or `Sync` outstanding (`LastAnswer`): then a backend is quiet whenever it is checked in, and
what a session is relayed answers a frame that session sent. A client that pipelines a second query
breaks it: the reset drains the second answer and leaves its own to the next client.
-/

namespace RamaPg.Pool

open RamaPg.Lib RamaPg.Codec RamaPg.Startup

def Response.async (r : Response) : Prop := r.answers = none ∧ r.frame.tag ∈ asyncTags

/-- No request is still to be answered and no response unread. -/
def Quiet (k : Conn) : Prop := k.inbox = [] ∧ ∀ r ∈ k.outbox, r.async

def Request.askedBy (s : SessionId) (k : Conn) (q : Request) : Prop :=
  q.source = .client s ∧ .client s q.frame ∈ k.log

/-- A frame that may go to session `s`: an asynchronous one, or one that answers a frame that `s`
wrote to the connection. -/
def Response.belongsTo (s : SessionId) (k : Conn) (r : Response) : Prop :=
  r.frame.tag ∈ asyncTags ∨ ∃ q, r.answers = some q ∧ q.askedBy s k

def Mine (s : SessionId) (k : Conn) : Prop :=
  (∀ q ∈ k.inbox, q.askedBy s k) ∧ ∀ r ∈ k.outbox, r.belongsTo s k

/-- No `ReadyForQuery` is on its way or still owed. -/
def NoSync (k : Conn) : Prop :=
  (∀ q ∈ k.inbox, q.sync = false) ∧ ∀ r ∈ k.outbox, r.isReady = false

/-- The only `ReadyForQuery` to come, or on its way, is that of the reset query, and nothing but
asynchronous messages follows it. -/
def Draining (k : Conn) : Prop :=
  (∃ qs, k.inbox = qs ++ [⟨.reset, discardAll⟩] ∧ (∀ q ∈ qs, q.sync = false) ∧
    ∀ r ∈ k.outbox, r.isReady = false) ∨
  (k.inbox = [] ∧ ∃ pre r post, k.outbox = pre ++ r :: post ∧ (∀ r ∈ pre, r.isReady = false) ∧
    r.isReady = true ∧ ∀ r ∈ post, r.async)

def idleReady (m : RawMessage) : Bool := m.tag == Tag.readyForQuery && rfqStatus m == 73

/-- When the relay reads an idle `ReadyForQuery`, no other `Query` or `Sync` of the lease is still
awaiting its own. -/
def LastAnswer (w : World) : Action → Bool
  | .session s (.backend (.ok (some m))) =>
    match (w.sessions s).phase with
    | .relay c =>
      !idleReady m || ((w.conns c).inbox.all (!·.sync) && (w.conns c).outbox.tail.all (!·.isReady))
    | _ => true
  | _ => true

/-- What each phase knows of the frames under way. -/
def IsolatedAt (s : SessionId) (p : Phase) (k : Conn) : Prop :=
  match p with
  | .held _ _ | .forward _ _ | .checkin _ => Quiet k
  | .relay _ | .send _ _ => Mine s k
  | .deliver _ m => Mine s k ∧ (idleReady m → NoSync k)
  | .reset _ m => NoSync k ∧ m = discardAll
  | .drain _ => Draining k
  | _ => True

/-! ## Backends keep it -/

theorem not_ready_of_async {m : RawMessage} {a : Option Request} (h : m.tag ∈ asyncTags) :
    (Response.mk m a).isReady = false := by
  simp only [asyncTags, List.mem_cons, List.not_mem_nil, or_false] at h
  rcases h with h | h | h <;> simp [Response.isReady, h, Tag.readyForQuery]

/-- The ways a backend moves, with the queue it finds. -/
inductive Acted (k : Conn) : Conn → Prop where
  | emit {q : Request} {qs : List Request} {m : RawMessage} (hk : k.inbox = q :: qs)
      (hm : m.tag ≠ Tag.readyForQuery) :
      Acted k { k with outbox := k.outbox ++ [⟨m, some q⟩] }
  | ready {q : Request} {qs : List Request} (payload : Bytes) (hk : k.inbox = q :: qs)
      (hq : q.sync = true) :
      Acted k { k with
        inbox := qs
        outbox := k.outbox ++ [⟨RawMessage.build Tag.readyForQuery payload, some q⟩] }
  | finish {q : Request} {qs : List Request} (hk : k.inbox = q :: qs) (hq : q.sync = false) :
      Acted k { k with inbox := qs }
  | notify {m : RawMessage} (hm : m.tag ∈ asyncTags) :
      Acted k { k with outbox := k.outbox ++ [⟨m, none⟩] }

theorem acted {k k' : Conn} {b : BackendAct} (h : k.act b = some k') : Acted k k' := by
  unfold Conn.act at h
  cases b with
  | emit m =>
    simp only at h
    split at h
    next hk =>
      split at h
      · cases h
      next hm =>
        cases h
        exact .emit hk fun he => hm (.inr he)
    · cases h
  | ready payload =>
    simp only at h
    split at h
    next hk =>
      split at h
      next hq =>
        cases h
        exact .ready payload hk hq
      · cases h
    · cases h
  | finish =>
    simp only at h
    split at h
    next hk =>
      split at h
      · cases h
      next hq =>
        cases h
        exact .finish hk (by simpa using hq)
    · cases h
  | notify m =>
    simp only at h
    split at h
    next hm =>
      cases h
      exact .notify hm
    · cases h

variable {k k' : Conn} {s : SessionId}

theorem forall_snoc {α : Type} {P : α → Prop} {l : List α} {x : α} (hl : ∀ y ∈ l, P y) (hx : P x) :
    ∀ y ∈ l ++ [x], P y := by
  rw [List.forall_mem_append]
  exact ⟨hl, by simpa using hx⟩

theorem forall_of_cons {P : Request → Prop} {q : Request} {qs : List Request}
    (h : ∀ q ∈ k.inbox, P q) (hk : k.inbox = q :: qs) : P q ∧ ∀ q ∈ qs, P q := by
  simpa [hk] using h

theorem Quiet.acted (hk : Quiet k) (h : Acted k k') : Quiet k' := by
  cases h with
  | emit hq | ready _ hq | finish hq => simp [hk.1] at hq
  | notify hm => exact ⟨hk.1, forall_snoc hk.2 ⟨rfl, hm⟩⟩

theorem Mine.acted (hk : Mine s k) (h : Acted k k') : Mine s k' := by
  cases h with
  | @emit q _ _ hq _ =>
    exact ⟨hk.1, forall_snoc hk.2 (.inr ⟨q, rfl, (forall_of_cons hk.1 hq).1⟩)⟩
  | @ready q _ _ hq _ =>
    obtain ⟨hhead, htail⟩ := forall_of_cons hk.1 hq
    exact ⟨htail, forall_snoc hk.2 (.inr ⟨q, rfl, hhead⟩)⟩
  | finish hq => exact ⟨(forall_of_cons hk.1 hq).2, hk.2⟩
  | notify hm => exact ⟨hk.1, forall_snoc hk.2 (.inl hm)⟩

theorem NoSync.acted (hk : NoSync k) (h : Acted k k') : NoSync k' := by
  cases h with
  | emit hq hm => exact ⟨hk.1, forall_snoc hk.2 (by simpa [Response.isReady] using hm)⟩
  | ready _ hq hs => simp [(forall_of_cons hk.1 hq).1] at hs
  | finish hq => exact ⟨(forall_of_cons hk.1 hq).2, hk.2⟩
  | notify hm => exact ⟨hk.1, forall_snoc hk.2 (not_ready_of_async hm)⟩

theorem Draining.acted (hk : Draining k) (h : Acted k k') : Draining k' := by
  rcases hk with ⟨qs, hin, hqs, hout⟩ | ⟨hin, pre, r, post, hout, hpre, hr, hpost⟩
  · cases h with
    | emit hq hm =>
      exact .inl ⟨qs, hin, hqs, forall_snoc hout (by simpa [Response.isReady] using hm)⟩
    | ready payload hq hs =>
      -- only the reset query itself can be answered with a `ReadyForQuery`
      cases qs with
      | nil =>
        cases hin.symm.trans hq
        exact .inr ⟨rfl, k.outbox, _, [], rfl, hout, rfl, nofun⟩
      | cons q qs =>
        cases hin.symm.trans hq
        simp [hqs _ List.mem_cons_self] at hs
    | finish hq hs =>
      cases qs with
      | nil =>
        cases hin.symm.trans hq
        cases hs
      | cons q qs =>
        cases hin.symm.trans hq
        exact .inl ⟨qs, rfl, fun q' hq' => hqs q' (.tail _ hq'), hout⟩
    | notify hm => exact .inl ⟨qs, hin, hqs, forall_snoc hout (not_ready_of_async hm)⟩
  · cases h with
    | emit hq | ready _ hq | finish hq => simp [hin] at hq
    | @notify m hm =>
      exact .inr ⟨hin, pre, r, post ++ [⟨m, none⟩], by simp [hout], hpre, hr,
        forall_snoc hpost ⟨rfl, hm⟩⟩

theorem IsolatedAt.acted {p : Phase} (hk : IsolatedAt s p k) (h : Acted k k') :
    IsolatedAt s p k' := by
  cases p
  case held | forward | checkin => exact Quiet.acted hk h
  case relay | send => exact Mine.acted hk h
  case deliver => exact ⟨hk.1.acted h, fun hi => (hk.2 hi).acted h⟩
  case reset => exact ⟨hk.1.acted h, hk.2⟩
  case drain => exact Draining.acted hk h
  all_goals trivial

/-! ## The program keeps it -/

theorem Quiet.mine (hk : Quiet k) (s : SessionId) : Mine s k :=
  ⟨by simp [hk.1], fun r hr => .inl (hk.2 r hr).2⟩

/-- What session `s` writes is its own. -/
theorem Mine.send (hk : Mine s k) (c : ConnId) (m : RawMessage) :
    Mine s (k.perform s (.send c m true)) := by
  have hlog : ∀ q : Request, q.askedBy s k → q.askedBy s (k.perform s (.send c m true)) :=
    fun q hq => ⟨hq.1, List.mem_append_left _ hq.2⟩
  refine ⟨forall_snoc (fun q hq => hlog q (hk.1 q hq)) ⟨rfl, ?_⟩, fun r hr => ?_⟩
  · exact List.mem_append_right _ List.mem_cons_self
  · exact (hk.2 r hr).imp_right fun ⟨q, ha, hq⟩ => ⟨q, ha, hlog q hq⟩

theorem Mine.tail (hk : Mine s k) : Mine s { k with outbox := k.outbox.tail } :=
  ⟨hk.1, fun r hr => hk.2 r (List.mem_of_mem_tail hr)⟩

theorem isolatedAt_clientArm (hk : Mine s k) (c : ConnId) (r : Codec.Result) :
    IsolatedAt s (clientArm c r) k := by
  unfold clientArm
  split
  · trivial
  · trivial
  · split
    · trivial
    · exact hk

theorem isolatedAt_relayed (mode : PoolMode) (c : ConnId) {m : RawMessage} (hk : Mine s k)
    (hi : idleReady m → NoSync k) : IsolatedAt s (relayed mode (some discardAll) c m) k := by
  unfold relayed
  split
  next ht =>
    unfold runLease
    split
    next hs => exact ⟨hi (by simp [idleReady, ht, hs]), rfl⟩
    · split
      · exact hk
      · trivial
      · trivial
  · exact hk

theorem NoSync.reset (hk : NoSync k) (s : SessionId) (c : ConnId) :
    Draining (k.perform s (.reset c discardAll true)) :=
  .inl ⟨k.inbox, rfl, hk.1, hk.2⟩

theorem resetResult_of_not_ready {r : Response} (h : r.isReady = false) :
    resetResult r.frame = none ∨ resetResult r.frame = some false := by
  have ht : r.frame.tag ≠ Tag.readyForQuery := by simpa [Response.isReady] using h
  unfold resetResult
  rw [if_neg ht]
  split
  · exact .inr rfl
  · exact .inl rfl

/-- `Lease::reset` reads one more frame. -/
theorem Draining.drain (hk : Draining k) (c : ConnId) {r : Response} (hr : k.outbox.head? = some r) :
    IsolatedAt s (drainArm c r.frame)
      (k.perform s (.drained c r.frame (resetResult r.frame = some true))) := by
  obtain ⟨rest, hout⟩ : ∃ rest, k.outbox = r :: rest := List.head?_eq_some_iff.mp hr
  rcases hk with ⟨qs, hin, hqs, hno⟩ | ⟨hin, pre, x, post, hsplit, hpre, hx, hpost⟩
  · rw [hout] at hno
    unfold drainArm
    rcases resetResult_of_not_ready (hno r List.mem_cons_self) with he | he
    · rw [he]
      refine .inl ⟨qs, hin, hqs, fun y hy => hno y ?_⟩
      exact List.mem_cons_of_mem _ (by simpa [Conn.perform, hout] using hy)
    · rw [he]
      trivial
  · cases pre with
    | nil =>
      cases hsplit.symm.trans hout
      have ht : r.frame.tag = Tag.readyForQuery := by simpa [Response.isReady] using hx
      unfold drainArm resetResult
      rw [if_pos ht]
      by_cases hi : r.frame.payload.head? = some 73
      · simp only [hi, decide_true]
        exact ⟨hin, fun y hy => hpost y (by simpa [Conn.perform, hout] using hy)⟩
      · simp only [hi, decide_false]
        trivial
    | cons y pre =>
      cases hsplit.symm.trans hout
      unfold drainArm
      rcases resetResult_of_not_ready (hpre r List.mem_cons_self) with he | he
      · rw [he]
        exact .inr ⟨hin, pre, x, post, by simp [Conn.perform, hout],
          fun z hz => hpre z (.tail _ hz), hx, hpost⟩
      · rw [he]
        trivial

/-- The head of the connection's outbox is the frame that a read returns. -/
theorem head_of_offers {pool : BackendPool} {w : World} {c : ConnId} {m : RawMessage}
    (hc : (w.sessions s).phase.holds = some c) (h : w.offers pool s (.backend (.ok (some m)))) :
    ∃ r, (w.conns c).outbox.head? = some r ∧ r.frame = m := by
  simpa [World.offers, hc] using h

/-- Under `LastAnswer`, one step of the program keeps `IsolatedAt`. -/
theorem isolatedAt_uses {pool : BackendPool} {w : World} {c : ConnId} {p : Phase} {i : In}
    {e : Effect} (hpool : pool.resetQuery = some discardAll)
    (h : Uses pool.mode pool.resetQuery c (w.sessions s).phase i p e) (hof : w.offers pool s i)
    (hG : LastAnswer w (.session s i)) (hk : IsolatedAt s (w.sessions s).phase (w.conns c)) :
    IsolatedAt s p ((w.conns c).perform s e) := by
  rw [hpool] at h
  generalize hph : (w.sessions s).phase = ph at h hk
  cases h with
  | copy | carry | copied | cleared | lost | terminate | drainLost => trivial
  | begin => exact hk
  | forward m ok =>
    cases ok
    · trivial
    · exact Mine.send (hk.mine s) c m
  | read m =>
    obtain ⟨r, hr, rfl⟩ := head_of_offers (c := c) (by rw [hph]; rfl) hof
    refine ⟨Mine.tail hk, fun hi => ?_⟩
    simp only [LastAnswer, hph, hi, Bool.not_true, Bool.false_or, Bool.and_eq_true] at hG
    exact ⟨by simpa [Conn.perform] using hG.1, by simpa [Conn.perform] using hG.2⟩
  | client r => exact isolatedAt_clientArm hk c r
  | deliver m ok =>
    cases ok
    · trivial
    · exact isolatedAt_relayed pool.mode c hk.1 hk.2
  | send m ok =>
    cases ok
    · trivial
    · exact Mine.send hk c m
  | reset m ok =>
    obtain ⟨hk, rfl⟩ := hk
    cases ok
    · trivial
    · exact hk.reset s c
  | drain m =>
    obtain ⟨r, hr, rfl⟩ := head_of_offers (c := c) (by rw [hph]; rfl) hof
    exact Draining.drain hk c hr

theorem isolated_local (replicas : List Bytes) (mode : PoolMode) :
    Local (.withConnector replicas mode) (fun w a => LastAnswer w a) (fun s _ => IsolatedAt s)
      Quiet where
  reuse hk _ := hk
  fresh _ := ⟨rfl, nofun⟩
  spare _ := ⟨rfl, nofun⟩
  use hu hof hG hj := isolatedAt_uses rfl hu hof hG hj
  checkin hj := hj
  checkin_params hj := hj
  backend hb hj := hj.acted (acted hb)
  backend_idle hb hk := hk.acted (acted hb)

/-! ## What sessions are relayed -/

/-- All that session `s` was relayed from connection `c` was its own. -/
def Relayed (w : World) : Prop :=
  ∀ s c r, (c, r) ∈ (w.sessions s).relayed →
    (w.conns c).place ≠ .fresh ∧ r.belongsTo s (w.conns c)

theorem Response.belongsTo.grows {r : Response} (h : r.belongsTo s k) (hk : Grows k k') :
    r.belongsTo s k' :=
  h.imp_right fun ⟨q, ha, hs, hl⟩ => ⟨q, ha, hs, hk.log.subset hl⟩

/-- A session is relayed at most the frame its program takes from the connection it holds. -/
theorem relayed_perform {x : Session} {conns : ConnId → Conn} {e : Effect} {c : ConnId}
    {r : Response} (h : (c, r) ∈ (x.perform conns e).relayed) :
    (c, r) ∈ x.relayed ∨ ∃ m, e = .take c m ∧ (conns c).outbox.head? = some r := by
  cases e with
  | take c' m =>
    simp only [Session.perform, List.mem_append, Option.mem_toList, Option.map_eq_some_iff] at h
    rcases h with h | ⟨r', hr, he⟩
    · exact .inl h
    · cases he
      exact .inr ⟨m, rfl, hr⟩
  | set c' =>
    simp only [Session.perform] at h
    split at h <;> exact .inl h
  | _ => exact .inl h

theorem relayed_step {pool : BackendPool} {w w' : World} {a : Action}
    (hg : ∀ c, Good (fun s _ => IsolatedAt s) Quiet w c) (hr : Relayed w)
    (h : step pool w a = some w') : Relayed w' := by
  intro s c r hmem
  -- what was relayed before stays its session's, since logs only grow
  have hkeep : (c, r) ∈ (w.sessions s).relayed →
      (w'.conns c).place ≠ .fresh ∧ r.belongsTo s (w'.conns c) := fun hold =>
    ⟨not_fresh_step hg h (hr s c r hold).1, (hr s c r hold).2.grows (grows_step h (hr s c r hold).1)⟩
  cases stepped h with
  | @begin s₀ =>
    by_cases he : s = s₀
    · subst he
      rw [World.sessions_setSession] at hmem
      cases hmem
    · rw [World.sessions_setSession_ne _ he] at hmem
      exact hkeep hmem
  | @session s₀ i p e hon hof =>
    by_cases he : s = s₀
    · subst he
      have hmem : (c, r) ∈ ((w.sessions s).perform w.conns e).relayed := by
        simpa [World.advance] using hmem
      rcases relayed_perform hmem with hold | ⟨m, rfl, hhead⟩
      · exact hkeep hold
      · have hph := (Phase.on_take hon).1
        have hplace : (w.conns c).place = .leased s := by
          rw [← (hg c).owner s, hph]
          rfl
        have hne : (w.conns c).place ≠ .fresh := by simp [hplace]
        have hmine : Mine s (w.conns c) := by
          have := (hg c).leased s hplace
          rwa [hph] at this
        exact ⟨not_fresh_step hg h hne,
          (hmine.2 r (List.mem_of_mem_head? hhead)).grows (grows_step h hne)⟩
    · rw [World.sessions_advance he] at hmem
      exact hkeep hmem
  | @drop s₀ | @abandon s₀ =>
    by_cases he : s = s₀
    · subst he
      exact hkeep (by simpa [World.abort, World.setConn] using hmem)
    · rw [World.sessions_abort he] at hmem
      exact hkeep hmem
  | evict | backend | cancel | readSlot | readEmpty | deliver => exact hkeep hmem

/-- **Responses stay with the session that asked.** In every state of a run in which the relay acts
on an idle `ReadyForQuery` only when it is the last one outstanding: a connection is quiet when it
is about to be checked in and as long as it is idle, and every frame a session was relayed is
asynchronous or answers a frame which that session wrote to that connection, never the reset
query. -/
theorem responses_stay_with_session (replicas : List Bytes) (mode : PoolMode) {as : List Action}
    {w : World} (hG : Along (step (.withConnector replicas mode)) (fun w a => LastAnswer w a)
      World.init as) (h : run (.withConnector replicas mode) as = some w) :
    (∀ s c, (w.sessions s).phase = .checkin c → Quiet (w.conns c)) ∧
    (∀ c, (w.conns c).place = .idle → Quiet (w.conns c)) ∧
    (∀ s c r, (c, r) ∈ (w.sessions s).relayed → r.frame.tag ∈ asyncTags ∨
      ∃ q, r.answers = some q ∧ q.source = .client s ∧ .client s q.frame ∈ (w.conns c).log) := by
  have hinv := exec_inv (I := fun w => (∀ c, Good (fun s _ => IsolatedAt s) Quiet w c) ∧ Relayed w)
    (fun w a w' hi hG ha => ⟨(isolated_local replicas mode).step hi.1 hG ha,
      relayed_step hi.1 hi.2 ha⟩) ⟨Good.init, nofun⟩ hG h
  refine ⟨fun s c hp => ?_, fun c => (hinv.1 c).idle, fun s c r hr => (hinv.2 s c r hr).2⟩
  have hl := (hinv.1 c).leased s (((hinv.1 c).owner s).mp (by rw [hp]; rfl))
  rwa [hp] at hl

/-- The client sends a second query before the first is answered; the relay then reads the idle
`ReadyForQuery` of the first. -/
def pipelined : List Action :=
  Sample.arrive 0 aliceInApp 0 ++ Sample.lease 0 0 ++
    [.session 0 (.client (.ok (some Sample.select1))), .session 0 (.wrote true)] ++ Sample.release 0 0

/-- The next client is leased the connection, and the backend gets to the reset query. -/
def pipelinedThenNext : List Action :=
  pipelined ++ Sample.arriveNext 1 aliceInApp 0 ++ Sample.lease 1 0 ++ Sample.answer 1 0

/-- Session 0 pipelines two queries. Its connection is checked in with the reset query unanswered,
and the answer to the reset query is relayed to session 1. -/
theorem pipelined_query_breaks_isolation :
    (run (.withConnector [ascii "db"] .transaction) pipelined).map
        (fun w => ((w.conns 0).place, (w.conns 0).inbox)) =
      some (.idle, [⟨.reset, discardAll⟩]) ∧
    (run (.withConnector [ascii "db"] .transaction) pipelinedThenNext).map
        (fun w => (w.sessions 1).relayed) =
      some [(0, ⟨Sample.ready, some ⟨.reset, discardAll⟩⟩)] := by
  decide +kernel

def oneQueryAtATime : List Action :=
  Sample.arrive 0 aliceInApp 0 ++ Sample.lease 0 0 ++ Sample.release 0 0 ++
    Sample.arriveNext 1 aliceInApp 0 ++ Sample.lease 1 0 ++ Sample.answer 1 0

theorem responses_stay_with_session_one_at_a_time :
    ∃ w, run (.withConnector [ascii "db"] .transaction) oneQueryAtATime = some w ∧
      (w.sessions 1).relayed.length = 1 ∧
      ∀ s c r, (c, r) ∈ (w.sessions s).relayed → r.frame.tag ∈ asyncTags ∨
        ∃ q, r.answers = some q ∧ q.source = .client s ∧ .client s q.frame ∈ (w.conns c).log := by
  have h : (run (.withConnector [ascii "db"] .transaction) oneQueryAtATime).map
      (fun w => (w.sessions 1).relayed.length) = some 1 := by
    decide +kernel
  obtain ⟨w, hw, hl⟩ := Option.map_eq_some_iff.mp h
  exact ⟨w, hw, hl, (responses_stay_with_session [ascii "db"] .transaction
    (checkAlong_along (by decide +kernel)) hw).2.2⟩

end RamaPg.Pool
