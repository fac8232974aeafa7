import RamaPg.Protocol.Framing

/-!
# The control flow of a pooled session

`serve_pooled`, `relay_pooled`, `run_lease`, `forward_first`, `relay_to_next_rfq`, `Lease::reset`
and `BackendPool::startup_params` are one asynchronous program per client. A `Phase` is a point
of that program at which it waits, or at which it is about to touch something it shares with
other tasks (the pool, the parameter cache, its cancel slot). `Phase.on` is the program itself:
what the event `In` makes it do (one `Effect`) and where it goes next.
-/

namespace RamaPg.Pool

open RamaPg.Lib RamaPg.Codec

abbrev ConnId := Nat

/-- When a leased backend is returned to the pool. -/
inductive PoolMode where
  | session
  | transaction
  | statement
  deriving DecidableEq, Repr

/-- The pool's `reset_query`. -/
def discardAll : RawMessage := RawMessage.build Tag.query (ascii "DISCARD ALL\x00")

/-- The captured `ParameterStatus` frames; `origin` is the connection they were captured from. -/
structure CapturedParams where
  frames : List RawMessage
  origin : ConnId
  deriving DecidableEq

/-- What `lease` was called for: `startup_params`, session mode, or the first frame of a
transaction. -/
inductive Want where
  | params
  | session
  | transaction (first : RawMessage)
  deriving DecidableEq

/-- How `run_lease` ended after it discarded its lease: `Ok(true)`, `Ok(false)` or an error. -/
inductive Ended where
  | keepServing
  | clientGone
  | failed
  deriving DecidableEq, Repr

inductive Phase where
  /-- No session, or not yet. -/
  | absent
  /-- `reject`: an `ErrorResponse` is being written. -/
  | rejecting
  /-- `startup_params`, before the cache is consulted. -/
  | lookup
  /-- `lease`, before `next_replica`. -/
  | pick (w : Want)
  /-- `lease`, awaiting the connector. -/
  | connect (w : Want) (shard : Bytes)
  | held (w : Want) (c : ConnId)
  /-- `startup_params`, after the checkin and before the cache is filled. -/
  | cache (ps : CapturedParams)
  /-- `synthesize_startup`. -/
  | synthesize (ps : CapturedParams)
  /-- Session mode: `copy_bidirectional`, then `clear`, then `discard`. -/
  | copy (c : ConnId)
  | copied (c : ConnId)
  | cleared (c : ConnId)
  /-- `relay_pooled`, awaiting the first frame of a transaction. -/
  | idle
  /-- `forward_first`. -/
  | forward (c : ConnId) (first : RawMessage)
  /-- The `select!` of `relay_to_next_rfq`. -/
  | relay (c : ConnId)
  /-- Its backend arm: `m` is being written to the client. -/
  | deliver (c : ConnId) (m : RawMessage)
  /-- Its client arm: `m` is being written to the backend. -/
  | send (c : ConnId) (m : RawMessage)
  | terminate (c : ConnId) (m : RawMessage)
  /-- `Lease::reset`: writing `m`, then draining its response. -/
  | reset (c : ConnId) (m : RawMessage)
  | drain (c : ConnId)
  | checkin (c : ConnId)
  | discard (c : ConnId) (r : Ended)
  /-- `run_lease` has returned and the cancel slot is still set. -/
  | checkedIn
  | discarded (r : Ended)
  /-- The session is over; its cancel handle is still to be dropped. -/
  | closing
  | closed
  deriving DecidableEq

namespace Phase

/-- The connection the session has leased. -/
def holds : Phase → Option ConnId
  | held _ c | copy c | copied c | cleared c | forward c _ | relay c | deliver c _ | send c _
  | terminate c _ | reset c _ | drain c | checkin c | discard c _ => some c
  | _ => none

/-- The points at which the source awaits, so that the task can be dropped there. -/
def awaits : Phase → Bool
  | rejecting | connect _ _ | synthesize _ | copy _ | idle | forward _ _ | relay _ | deliver _ _
  | send _ _ | terminate _ _ | reset _ _ | drain _ => true
  | _ => false

end Phase

/-- What the program waits for. -/
inductive In where
  | go
  /-- The cache's answer. -/
  | cached (ps : Option CapturedParams)
  | replica (shard : Bytes)
  /-- The connector reused an idle connection, established a new one, or failed. -/
  | leased (c : ConnId)
  | established (c : ConnId) (frames : List RawMessage) (hasKey : Bool)
  | leaseFailed
  | params (ps : CapturedParams)
  /-- The result of `read_frame` on the client, and of a read of the backend. -/
  | client (r : Codec.Result)
  | backend (r : Codec.Result)
  /-- A write and its flush, to whichever side the phase writes to, ended well or not. -/
  | wrote (ok : Bool)
  /-- `copy_bidirectional` carried client bytes to the backend, or is over. -/
  | carried (bytes : Bytes)
  | copyDone
  deriving DecidableEq

/-- What a step does outside the session's own control state. -/
inductive Effect where
  | none
  | reject
  | store (ps : CapturedParams)
  | startup (ps : CapturedParams)
  | set (c : ConnId)
  | clear
  | deregister
  /-- A client frame is written to the backend; `ok` is false when the write failed on the way. -/
  | send (c : ConnId) (m : RawMessage) (ok : Bool)
  | carry (c : ConnId) (bytes : Bytes)
  /-- A frame read from the backend is taken for the client, and then written to it. -/
  | take (c : ConnId) (m : RawMessage)
  | toClient (c : ConnId) (m : RawMessage) (ok : Bool)
  | reset (c : ConnId) (m : RawMessage) (ok : Bool)
  /-- A frame is drained by `Lease::reset`, which returns `Ok` on it when `ok`. -/
  | drained (c : ConnId) (m : RawMessage) (ok : Bool)
  | checkin (c : ConnId)
  | discard (c : ConnId)
  deriving DecidableEq

/-- The status byte `relay_to_next_rfq` returns for a `ReadyForQuery`. -/
def rfqStatus (m : RawMessage) : UInt8 := m.payload.head?.getD 73

/-- What `run_lease` does with the status of a `ReadyForQuery` it has relayed. -/
def runLease (mode : PoolMode) (reset : Option RawMessage) (c : ConnId) (status : UInt8) : Phase :=
  if status = 73 then
    match reset with
    | some m => .reset c m
    | none => .checkin c
  else
    match mode with
    | .transaction => .relay c
    | .statement => .discard c .keepServing
    -- `unreachable!`: the unwinding task drops the lease
    | .session => .discard c .failed

/-- The backend arm of `relay_to_next_rfq` once the frame is written to the client. -/
def relayed (mode : PoolMode) (reset : Option RawMessage) (c : ConnId) (m : RawMessage) : Phase :=
  if m.tag = Tag.readyForQuery then runLease mode reset c (rfqStatus m) else .relay c

/-- The client arm of `relay_to_next_rfq`. -/
def clientArm (c : ConnId) : Codec.Result → Phase
  | .error _ => .discard c .failed
  | .ok none => .discard c .clientGone
  | .ok (some m) => if m.tag = Tag.terminate then .terminate c m else .send c m

/-- What the loop of `Lease::reset` makes of a frame: it returns `Ok` or an error, or goes on. -/
def resetResult (m : RawMessage) : Option Bool :=
  if m.tag = Tag.readyForQuery then some (m.payload.head? = some 73)
  else if m.tag = Tag.errorResponse then some false
  else none

def drainArm (c : ConnId) (m : RawMessage) : Phase :=
  match resetResult m with
  | some true => .checkin c
  | some false => .discard c .keepServing
  | none => .drain c

/-- The head of the `relay_pooled` loop. -/
def firstFrame : Codec.Result → Phase
  | .ok (some m) => if m.tag = Tag.terminate then .closing else .pick (.transaction m)
  | _ => .closing

/-- The program: the next phase and the effect on the event `i`. -/
def Phase.on (mode : PoolMode) (reset : Option RawMessage) : Phase → In → Option (Phase × Effect)
  -- `startup_params` and `lease`
  | .lookup, .cached (some ps) => some (.synthesize ps, .none)
  | .lookup, .cached none => some (.pick .params, .none)
  | .pick w, .replica shard => some (.connect w shard, .none)
  | .connect w _, .leased c => some (.held w c, .none)
  | .connect w _, .established c _ _ => some (.held w c, .none)
  | .connect .params _, .leaseFailed => some (.rejecting, .none)
  | .connect _ _, .leaseFailed => some (.closing, .none)
  | .held .params c, .params ps => some (.cache ps, .checkin c)
  | .cache ps, .go => some (.synthesize ps, .store ps)
  -- `serve_pooled`
  | .rejecting, .wrote _ => some (.closing, .reject)
  | .synthesize ps, .wrote true =>
    some (if mode = .session then .pick .session else .idle, .startup ps)
  | .synthesize _, .wrote false => some (.closing, .none)
  | .held .session c, .go => some (.copy c, .set c)
  | .copy c, .carried bytes => some (.copy c, .carry c bytes)
  | .copy c, .copyDone => some (.copied c, .none)
  | .copied c, .go => some (.cleared c, .clear)
  | .cleared c, .go => some (.closing, .discard c)
  -- `relay_pooled` and `run_lease`
  | .idle, .client r => some (firstFrame r, .none)
  | .held (.transaction m) c, .go => some (.forward c m, .set c)
  | .forward c m, .wrote ok =>
    some (if ok then .relay c else .discard c .failed, .send c m ok)
  | .checkin c, .go => some (.checkedIn, .checkin c)
  | .discard c r, .go => some (.discarded r, .discard c)
  | .checkedIn, .go => some (.idle, .clear)
  | .discarded .keepServing, .go => some (.idle, .clear)
  | .discarded _, .go => some (.closing, .clear)
  | .closing, .go => some (.closed, .deregister)
  -- `relay_to_next_rfq`
  | .relay c, .backend (.ok (some m)) => some (.deliver c m, .take c m)
  | .relay c, .backend _ => some (.discard c .failed, .none)
  | .relay c, .client r => some (clientArm c r, .none)
  | .deliver c m, .wrote ok =>
    some (if ok then relayed mode reset c m else .discard c .failed, .toClient c m ok)
  | .send c m, .wrote ok => some (if ok then .relay c else .discard c .failed, .send c m ok)
  | .terminate c m, .wrote ok => some (.discard c .clientGone, .send c m ok)
  -- `Lease::reset`
  | .reset c m, .wrote ok =>
    some (if ok then .drain c else .discard c .keepServing, .reset c m ok)
  | .drain c, .backend (.ok (some m)) => 
    some (drainArm c m, .drained c m (resetResult m = some true))
  | .drain c, .backend _ => some (.discard c .keepServing, .none)
  | _, _ => none

/-! ## What a step can be -/

theorem holds_runLease (mode : PoolMode) (reset : Option RawMessage) (c : ConnId) (b : UInt8) :
    (runLease mode reset c b).holds = some c := by
  unfold runLease
  split
  · split <;> rfl
  · split <;> rfl

theorem holds_relayed (mode : PoolMode) (reset : Option RawMessage) (c : ConnId) (m : RawMessage) :
    (relayed mode reset c m).holds = some c := by
  unfold relayed
  split
  · exact holds_runLease mode reset c _
  · rfl

theorem holds_clientArm (c : ConnId) (r : Codec.Result) : (clientArm c r).holds = some c := by
  unfold clientArm
  split
  · rfl
  · rfl
  · split <;> rfl

theorem holds_firstFrame (r : Codec.Result) : (firstFrame r).holds = none := by
  unfold firstFrame
  split
  · split <;> rfl
  · rfl

theorem holds_drainArm (c : ConnId) (m : RawMessage) : (drainArm c m).holds = some c := by
  unfold drainArm
  split <;> rfl

/-- The steps a session takes with the connection `c` while it keeps it. -/
inductive Uses (mode : PoolMode) (reset : Option RawMessage) (c : ConnId) :
    Phase → In → Phase → Effect → Prop where
  | copy : Uses mode reset c (.held .session c) .go (.copy c) (.set c)
  | carry (bytes : Bytes) : Uses mode reset c (.copy c) (.carried bytes) (.copy c) (.carry c bytes)
  | copied : Uses mode reset c (.copy c) .copyDone (.copied c) .none
  | cleared : Uses mode reset c (.copied c) .go (.cleared c) .clear
  | begin (m : RawMessage) :
      Uses mode reset c (.held (.transaction m) c) .go (.forward c m) (.set c)
  | forward (m : RawMessage) (ok : Bool) : Uses mode reset c (.forward c m) (.wrote ok)
      (if ok then .relay c else .discard c .failed) (.send c m ok)
  | read (m : RawMessage) :
      Uses mode reset c (.relay c) (.backend (.ok (some m))) (.deliver c m) (.take c m)
  | lost (r : Codec.Result) : Uses mode reset c (.relay c) (.backend r) (.discard c .failed) .none
  | client (r : Codec.Result) : Uses mode reset c (.relay c) (.client r) (clientArm c r) .none
  | deliver (m : RawMessage) (ok : Bool) : Uses mode reset c (.deliver c m) (.wrote ok)
      (if ok then relayed mode reset c m else .discard c .failed) (.toClient c m ok)
  | send (m : RawMessage) (ok : Bool) : Uses mode reset c (.send c m) (.wrote ok)
      (if ok then .relay c else .discard c .failed) (.send c m ok)
  | terminate (m : RawMessage) (ok : Bool) : Uses mode reset c (.terminate c m) (.wrote ok)
      (.discard c .clientGone) (.send c m ok)
  | reset (m : RawMessage) (ok : Bool) : Uses mode reset c (.reset c m) (.wrote ok)
      (if ok then .drain c else .discard c .keepServing) (.reset c m ok)
  | drain (m : RawMessage) : Uses mode reset c (.drain c) (.backend (.ok (some m))) (drainArm c m)
      (.drained c m (resetResult m = some true))
  | drainLost (r : Codec.Result) :
      Uses mode reset c (.drain c) (.backend r) (.discard c .keepServing) .none

theorem Phase.on_uses {mode : PoolMode} {reset : Option RawMessage} {p p' : Phase} {i : In}
    {e : Effect} {c : ConnId} (h : p.on mode reset i = some (p', e)) (hp : p.holds = some c)
    (hp' : p'.holds = some c) : Uses mode reset c p i p' e := by
  unfold Phase.on at h
  split at h <;> cases h <;> first | (cases hp; done) | (cases hp'; done) | cases hp
  all_goals constructor

theorem Phase.on_checkin {mode : PoolMode} {reset : Option RawMessage} {p p' : Phase} {i : In}
    {c : ConnId} (h : p.on mode reset i = some (p', .checkin c)) :
    p = .checkin c ∨ p = .held .params c := by
  unfold Phase.on at h
  split at h <;> cases h
  · exact .inr rfl
  · exact .inl rfl

theorem Phase.on_take {mode : PoolMode} {reset : Option RawMessage} {p p' : Phase} {i : In}
    {c : ConnId} {m : RawMessage} (h : p.on mode reset i = some (p', .take c m)) :
    p = .relay c ∧ i = .backend (.ok (some m)) := by
  unfold Phase.on at h
  split at h <;> cases h
  exact ⟨rfl, rfl⟩

theorem Phase.on_leased {mode : PoolMode} {reset : Option RawMessage} {p p' : Phase} {c : ConnId}
    {e : Effect} (h : p.on mode reset (.leased c) = some (p', e)) :
    ∃ w shard, p = .connect w shard ∧ p' = .held w c ∧ e = .none := by
  unfold Phase.on at h
  split at h <;> first | contradiction | skip
  rename_i w shard c' hc
  cases hc
  cases h
  exact ⟨w, shard, rfl, rfl, rfl⟩

theorem Phase.on_toClient {mode : PoolMode} {reset : Option RawMessage} {p p' : Phase} {i : In}
    {c : ConnId} {m : RawMessage} {ok : Bool} (h : p.on mode reset i = some (p', .toClient c m ok)) :
    p = .deliver c m := by
  unfold Phase.on at h
  split at h <;> cases h
  rfl

end RamaPg.Pool
