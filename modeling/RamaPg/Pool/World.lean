import Mathlib.Logic.Function.Basic
import RamaPg.Lib.Machine
import RamaPg.Pool.Control
import RamaPg.Protocol.Identity

/-!
# Many pooled sessions over one pool

A `World` is one `BackendPool` with its connections and its parameter cache, the sessions served
over it, and the cancel requests on their way. `step` performs one action of one party: a session
takes a step of its program or is dropped, a backend answers, a canceller reads a slot or delivers.

Of rama's pool we use that a connection is in one `Place` at a time: handed to at most one lease,
back in idle storage when its `LeasedConnection` is dropped, and never there again once
`into_connection` took it out. Which idle connection with the requested id is reused, and which
one is evicted, is left open. A backend works through the frames it received in order and answers
each `Query` and `Sync` with one `ReadyForQuery`; a frame in `outbox` may still be on its way, so
that the bias of `select!` rules out no order of arrivals.
-/

namespace RamaPg.Pool

open RamaPg.Lib RamaPg.Codec RamaPg.Startup

abbrev SessionId := Nat

structure PgConnId where
  user : Bytes
  database : Bytes
  shard : Bytes
  deriving DecidableEq

/-- The parts of a `BackendPool` that do not change. -/
structure BackendPool where
  replicas : List Bytes
  mode : PoolMode
  resetQuery : Option RawMessage

/-- `with_connector`. -/
def BackendPool.withConnector (replicas : List Bytes) (mode : PoolMode) : BackendPool :=
  ⟨replicas, mode, some discardAll⟩

/-- `next_replica`: the replica that is `next` in turn. -/
def BackendPool.nextReplica (pool : BackendPool) (next : Nat) : Option Bytes :=
  pool.replicas[next % pool.replicas.length]?

/-! ## Connections -/

/-- Whose frame a backend is given: a client's, or the pool's own reset. -/
inductive Source where
  | client (s : SessionId)
  | reset
  deriving DecidableEq

structure Request where
  source : Source
  frame : RawMessage
  deriving DecidableEq

/-- A frame from a backend and the request it answers, if it answers one. -/
structure Response where
  frame : RawMessage
  answers : Option Request
  deriving DecidableEq

/-- What the proxy did on a connection since its startup; `resetOk` stands where `Lease::reset`
returned `Ok`. -/
inductive Wrote where
  | client (s : SessionId) (m : RawMessage)
  | carried (s : SessionId) (bytes : Bytes)
  | reset (m : RawMessage)
  | resetOk
  deriving DecidableEq

inductive Place where
  | fresh
  | leased (s : SessionId)
  | idle
  | gone
  deriving DecidableEq

/-- A backend connection: the startup message it was established with, what it captured then, what
was written to it, and the frames under way in both directions. -/
structure Conn where
  place : Place
  id : PgConnId
  startup : StartupMessage
  params : List RawMessage
  hasKey : Bool
  log : List Wrote
  inbox : List Request
  outbox : List Response

namespace Conn

def write (k : Conn) (entry : Wrote) (reqs : List Request) : Conn :=
  { k with log := k.log ++ [entry], inbox := k.inbox ++ reqs }

/-- A frame written whole reaches the backend; of one that failed on the way some part may. -/
def sent (source : Source) (m : RawMessage) (ok : Bool) : List Request :=
  if ok then [⟨source, m⟩] else []

/-- What an effect of session `s` does to the connection it is about. -/
def perform (s : SessionId) (k : Conn) : Effect → Conn
  | .send _ m ok => k.write (.client s m) (sent (.client s) m ok)
  | .carry _ bytes => k.write (.carried s bytes) []
  | .reset _ m ok => k.write (.reset m) (sent .reset m ok)
  | .take _ _ => { k with outbox := k.outbox.tail }
  | .drained _ _ ok =>
    { k with outbox := k.outbox.tail, log := k.log ++ if ok then [.resetOk] else [] }
  | .checkin _ => { k with place := .idle }
  | .discard _ => { k with place := .gone }
  | _ => k

end Conn

/-- The connection an effect is about. -/
def Effect.target : Effect → Option ConnId
  | .send c _ _ | .carry c _ | .reset c _ _ | .take c _ | .drained c _ _
  | .checkin c | .discard c => some c
  | _ => Option.none

/-! ## Backends -/

/-- The tags of `NoticeResponse`, `ParameterStatus` and `NotificationResponse`, which a backend
may send at any time. -/
def asyncTags : List UInt8 := [78, 83, 65]

/-- A `Query` or a `Sync`, the requests a backend answers with a `ReadyForQuery`. -/
def Request.sync (q : Request) : Bool := q.frame.tag == Tag.query || q.frame.tag == 83

def Response.isReady (r : Response) : Bool := r.frame.tag == Tag.readyForQuery

inductive BackendAct where
  /-- A frame of the answer to the request at the head of the queue. -/
  | emit (m : RawMessage)
  /-- The answer to a `Query` or `Sync` ends with `ReadyForQuery`. -/
  | ready (payload : Bytes)
  /-- The answer to any other request ends. -/
  | finish
  /-- An asynchronous message. -/
  | notify (m : RawMessage)

def Conn.act (k : Conn) : BackendAct → Option Conn
  | .emit m =>
    match k.inbox with
    | q :: _ =>
      if m.tag ∈ asyncTags ∨ m.tag = Tag.readyForQuery then none
      else some { k with outbox := k.outbox ++ [⟨m, some q⟩] }
    | [] => none
  | .ready payload =>
    match k.inbox with
    | q :: qs =>
      if q.sync then
        some { k with
          inbox := qs
          outbox := k.outbox ++ [⟨RawMessage.build Tag.readyForQuery payload, some q⟩] }
      else none
    | [] => none
  | .finish =>
    match k.inbox with
    | q :: qs => if q.sync then none else some { k with inbox := qs }
    | [] => none
  | .notify m =>
    if m.tag ∈ asyncTags then some { k with outbox := k.outbox ++ [⟨m, none⟩] } else none

/-! ## Sessions -/

/-- A client's session: its startup message, its program and its cancel slot. `replayed` is what
it was given as `ParameterStatus`, `relayed` what it was given from backends since. -/
structure Session where
  startup : StartupMessage
  phase : Phase
  slot : Option ConnId
  registered : Bool
  replayed : Option CapturedParams
  relayed : List (ConnId × Response)

namespace Session

def identity (x : Session) : Bytes × Bytes := proxyIdentity x.startup

/-- `RequestKey::id` of the request that is with the connector. -/
def requestId (x : Session) : Option PgConnId :=
  match x.phase with
  | .connect _ shard => some ⟨x.identity.1, x.identity.2, shard⟩
  | _ => none

/-- What an effect does to the session's own record. -/
def perform (conns : ConnId → Conn) (x : Session) : Effect → Session
  | .startup ps => { x with replayed := some ps }
  | .set c => if (conns c).hasKey then { x with slot := some c } else x
  | .clear => { x with slot := none }
  | .deregister => { x with registered := false }
  | .take c _ => { x with relayed := x.relayed ++ ((conns c).outbox.head?.map (c, ·)).toList }
  | _ => x

end Session

/-! ## The world -/

/-- A cancel request under way: it holds the slot of a session, or the target it read there. -/
inductive Cancel where
  | slot (s : SessionId)
  | target (s : SessionId) (c : ConnId)
  deriving DecidableEq

/-- A delivered cancel: the session whose key was presented, the connection it was delivered to and
where that connection was. -/
structure Delivery where
  key : SessionId
  conn : ConnId
  place : Place
  deriving DecidableEq

structure World where
  conns : ConnId → Conn
  sessions : SessionId → Session
  cache : Bytes × Bytes → Option CapturedParams
  next : Nat
  cancels : List Cancel
  delivered : List Delivery

def noStartup : StartupMessage := ⟨.v3_0, [], []⟩

def World.init : World where
  conns _ := ⟨.fresh, ⟨[], [], []⟩, noStartup, [], false, [], [], []⟩
  sessions _ := ⟨noStartup, .absent, none, false, none, []⟩
  cache _ := none
  next := 0
  cancels := []
  delivered := []

/-- The connection `PgConnector` established for session `x`. -/
def established (x : Session) (id : PgConnId) (place : Place) (frames : List RawMessage)
    (hasKey : Bool) : Conn :=
  ⟨place, id, x.startup, frames, hasKey, [], [], []⟩

namespace World

variable (pool : BackendPool)

/-- Whether the world offers session `s` the event `i`. -/
def offers (w : World) (s : SessionId) : In → Bool
  | .cached ps => w.cache (w.sessions s).identity = ps
  | .replica shard => pool.nextReplica w.next = some shard
  | .leased c =>
    (w.conns c).place = .idle ∧ (w.sessions s).requestId = some (w.conns c).id
  | .established c _ _ => (w.conns c).place = .fresh
  | .params ps => (w.sessions s).phase.holds = some ps.origin ∧ ps.frames = (w.conns ps.origin).params
  | .backend (.ok (some m)) =>
    ((w.sessions s).phase.holds.bind fun c => (w.conns c).outbox.head?).map (·.frame) = some m
  | _ => true

/-- The connection a step of session `s` changes. -/
def target (i : In) (e : Effect) : Option ConnId :=
  match i with
  | .leased c | .established c _ _ => some c
  | _ => e.target

/-- What that step makes of it. -/
def changed (w : World) (s : SessionId) (i : In) (e : Effect) (k : Conn) : Conn :=
  match i with
  | .leased _ => { k with place := .leased s }
  | .established _ frames hasKey =>
    established (w.sessions s) ((w.sessions s).requestId.getD k.id) (.leased s) frames hasKey
  | _ => k.perform s e

def setConn (w : World) (c : ConnId) (k : Conn) : World :=
  { w with conns := Function.update w.conns c k }

def setSession (w : World) (s : SessionId) (x : Session) : World :=
  { w with sessions := Function.update w.sessions s x }

/-- A step of session `s` on the event `i` with the effect `e` to the phase `p`. -/
def advance (w : World) (s : SessionId) (i : In) (e : Effect) (p : Phase) : World where
  conns c := if target i e = some c then w.changed s i e (w.conns c) else w.conns c
  sessions := Function.update w.sessions s { (w.sessions s).perform w.conns e with phase := p }
  cache :=
    match e with
    | .store ps => Function.update w.cache (w.sessions s).identity (some ps)
    | _ => w.cache
  next :=
    match i with
    | .replica _ => (w.next + 1) % 2 ^ 64
    | _ => w.next
  cancels := w.cancels
  delivered := w.delivered

/-- The task of session `s` is dropped: its lease is discarded, its handle still to be dropped. -/
def abort (w : World) (s : SessionId) : World where
  conns c :=
    if (w.sessions s).phase.holds = some c then { w.conns c with place := .gone } else w.conns c
  sessions := Function.update w.sessions s { w.sessions s with phase := .closing }
  cache := w.cache
  next := w.next
  cancels := w.cancels
  delivered := w.delivered

end World

inductive Action where
  /-- A client is handed to `PooledForwarder::serve`, after its authentication. -/
  | begin (s : SessionId) (frame : Bytes) (passThrough : Bool)
  | session (s : SessionId) (i : In)
  | drop (s : SessionId)
  /-- The task is dropped while the connector has a new connection in hand. -/
  | abandon (s : SessionId) (c : ConnId) (frames : List RawMessage) (hasKey : Bool)
  | evict (c : ConnId)
  | backend (c : ConnId) (b : BackendAct)
  /-- `RegistryCancellation::cancel`: look the key up, read its slot, deliver. -/
  | cancel (s : SessionId)
  | readSlot (s : SessionId)
  | deliver (s : SessionId) (c : ConnId)

def step (pool : BackendPool) (w : World) : Action → Option World
  | .begin s frame passThrough =>
    match sessionAccepts frame with
    | some m =>
      if (w.sessions s).phase = .absent then
        some (w.setSession s
          ⟨m, if passThrough then .rejecting else .lookup, none, true, none, []⟩)
      else none
    | none => none
  | .session s i =>
    match (w.sessions s).phase.on pool.mode pool.resetQuery i with
    | some (p, e) => if w.offers pool s i then some (w.advance s i e p) else none
    | none => none
  | .drop s => if (w.sessions s).phase.awaits then some (w.abort s) else none
  | .abandon s c frames hasKey =>
    match (w.sessions s).requestId with
    | some id =>
      if (w.conns c).place = .fresh then
        some ((w.setConn c (established (w.sessions s) id .idle frames hasKey)).abort s)
      else none
    | none => none
  | .evict c =>
    if (w.conns c).place = .idle then some (w.setConn c { w.conns c with place := .gone }) else none
  | .backend c b => ((w.conns c).act b).map (w.setConn c)
  | .cancel s =>
    if (w.sessions s).registered then some { w with cancels := .slot s :: w.cancels } else none
  | .readSlot s =>
    if .slot s ∈ w.cancels then
      let pending := w.cancels.erase (.slot s)
      match (w.sessions s).slot with
      | some c => some { w with cancels := .target s c :: pending }
      | none => some { w with cancels := pending }
    else none
  | .deliver s c =>
    if .target s c ∈ w.cancels then
      some { w with
        cancels := w.cancels.erase (.target s c)
        delivered := w.delivered ++ [⟨s, c, (w.conns c).place⟩] }
    else none

/-! ## What a step leaves alone -/

@[simp] theorem Session.startup_perform (conns : ConnId → Conn) (x : Session) (e : Effect) :
    (x.perform conns e).startup = x.startup := by
  cases e
  case set c =>
    simp only [Session.perform]
    split <;> rfl
  all_goals rfl

/-- The data of a connection that a backend does not change. -/
theorem Conn.act_frame {k k' : Conn} {b : BackendAct} (h : k.act b = some k') :
    k'.place = k.place ∧ k'.id = k.id ∧ k'.startup = k.startup ∧ k'.params = k.params ∧
      k'.log = k.log := by
  unfold Conn.act at h
  split at h
  all_goals
    repeat' split at h
  all_goals
    cases h
  all_goals exact ⟨rfl, rfl, rfl, rfl, rfl⟩

namespace World

variable {w : World} {s s' : SessionId} {i : In} {e : Effect} {p : Phase} {c : ConnId}

@[simp] theorem phase_advance : ((w.advance s i e p).sessions s).phase = p := by
  simp [advance]

@[simp] theorem startup_advance :
    ((w.advance s i e p).sessions s).startup = (w.sessions s).startup := by
  simp [advance]

theorem sessions_advance (h : s' ≠ s) : (w.advance s i e p).sessions s' = w.sessions s' := by
  simp [advance, h]

theorem conns_advance (h : target i e = some c) :
    (w.advance s i e p).conns c = w.changed s i e (w.conns c) := by
  simp [advance, h]

theorem conns_advance_ne (h : target i e ≠ some c) :
    (w.advance s i e p).conns c = w.conns c := by
  simp [advance, h]

@[simp] theorem sessions_setConn (k : Conn) : (w.setConn c k).sessions = w.sessions := rfl

@[simp] theorem conns_setConn (k : Conn) : (w.setConn c k).conns c = k := by
  simp [setConn]

theorem conns_setConn_ne {c' : ConnId} (k : Conn) (h : c' ≠ c) :
    (w.setConn c k).conns c' = w.conns c' := by
  simp [setConn, h]

theorem setConn_cases {c' : ConnId} {k : Conn} {P : Conn → Prop} (h : c' = c → P k)
    (hne : c' ≠ c → P (w.conns c')) : P ((w.setConn c k).conns c') := by
  by_cases he : c' = c
  · rw [he, conns_setConn]
    exact h he
  · rw [conns_setConn_ne _ he]
    exact hne he

@[simp] theorem sessions_setSession (x : Session) : (w.setSession s x).sessions s = x := by
  simp [setSession]

theorem sessions_setSession_ne (x : Session) (h : s' ≠ s) :
    (w.setSession s x).sessions s' = w.sessions s' := by
  simp [setSession, h]

@[simp] theorem phase_abort : ((w.abort s).sessions s).phase = .closing := by
  simp [abort]

theorem sessions_abort (h : s' ≠ s) : (w.abort s).sessions s' = w.sessions s' := by
  simp [abort, h]

theorem conns_abort (h : (w.sessions s).phase.holds ≠ some c) :
    (w.abort s).conns c = w.conns c := by
  simp [abort, h]

theorem conns_abort_held (h : (w.sessions s).phase.holds = some c) :
    (w.abort s).conns c = { w.conns c with place := .gone } := by
  simp [abort, h]

end World

/-- What each action can do. -/
inductive Stepped (pool : BackendPool) (w : World) : Action → World → Prop where
  | begin {s : SessionId} {frame : Bytes} {passThrough : Bool} {m : StartupMessage} {p : Phase}
      (hm : sessionAccepts frame = some m) (habs : (w.sessions s).phase = .absent)
      (hp : p = .rejecting ∨ p = .lookup) :
      Stepped pool w (.begin s frame passThrough) (w.setSession s ⟨m, p, none, true, none, []⟩)
  | session {s : SessionId} {i : In} {p : Phase} {e : Effect}
      (hon : (w.sessions s).phase.on pool.mode pool.resetQuery i = some (p, e))
      (hof : w.offers pool s i) : Stepped pool w (.session s i) (w.advance s i e p)
  | drop {s : SessionId} (ha : (w.sessions s).phase.awaits) :
      Stepped pool w (.drop s) (w.abort s)
  | abandon {s : SessionId} {c : ConnId} {frames : List RawMessage} {hasKey : Bool} {id : PgConnId}
      (hid : (w.sessions s).requestId = some id) (hf : (w.conns c).place = .fresh) :
      Stepped pool w (.abandon s c frames hasKey)
        ((w.setConn c (established (w.sessions s) id .idle frames hasKey)).abort s)
  | evict {c : ConnId} (hi : (w.conns c).place = .idle) :
      Stepped pool w (.evict c) (w.setConn c { w.conns c with place := .gone })
  | backend {c : ConnId} {b : BackendAct} {k : Conn} (hb : (w.conns c).act b = some k) :
      Stepped pool w (.backend c b) (w.setConn c k)
  | cancel {s : SessionId} (hr : (w.sessions s).registered) :
      Stepped pool w (.cancel s) { w with cancels := .slot s :: w.cancels }
  | readSlot {s : SessionId} {c : ConnId} (hs : (w.sessions s).slot = some c) :
      Stepped pool w (.readSlot s)
        { w with cancels := .target s c :: w.cancels.erase (.slot s) }
  | readEmpty {s : SessionId} (hs : (w.sessions s).slot = none) :
      Stepped pool w (.readSlot s) { w with cancels := w.cancels.erase (.slot s) }
  | deliver {s : SessionId} {c : ConnId} (ht : .target s c ∈ w.cancels) :
      Stepped pool w (.deliver s c)
        { w with
          cancels := w.cancels.erase (.target s c)
          delivered := w.delivered ++ [⟨s, c, (w.conns c).place⟩] }

theorem stepped {pool : BackendPool} {w w' : World} {a : Action} (h : step pool w a = some w') :
    Stepped pool w a w' := by
  unfold step at h
  cases a with
  | begin s frame passThrough =>
    simp only at h
    split at h
    next hm =>
      split at h
      next habs =>
        cases h
        refine .begin hm habs ?_
        cases passThrough <;> simp
      · cases h
    · cases h
  | session s i =>
    simp only at h
    split at h
    next hon =>
      split at h
      next hof => cases h; exact .session hon hof
      · cases h
    · cases h
  | drop s =>
    simp only at h
    split at h
    next ha => cases h; exact .drop ha
    · cases h
  | abandon s c frames hasKey =>
    simp only at h
    split at h
    next hid =>
      split at h
      next hf => cases h; exact .abandon hid hf
      · cases h
    · cases h
  | evict c =>
    simp only at h
    split at h
    next hi => cases h; exact .evict hi
    · cases h
  | backend c b =>
    simp only [Option.map_eq_some_iff] at h
    obtain ⟨k, hk, rfl⟩ := h
    exact .backend hk
  | cancel s =>
    simp only at h
    split at h
    next hr => cases h; exact .cancel hr
    · cases h
  | readSlot s =>
    simp only at h
    split at h
    · split at h
      next hs => cases h; exact .readSlot hs
      next hs => cases h; exact .readEmpty hs
    · cases h
  | deliver s c =>
    simp only at h
    split at h
    next ht => cases h; exact .deliver ht
    · cases h

/-- The runs of any number of sessions over one pool, from the start. -/
def run (pool : BackendPool) (as : List Action) : Option World := exec (step pool) World.init as

/-! ## Short runs -/

namespace Sample

def select1 : RawMessage := RawMessage.build Tag.query (ascii "select 1\x00")

def ready : RawMessage := RawMessage.build Tag.readyForQuery [73]

/-- A client arrives and is the first of its role: connection `c` is established for it. -/
def arrive (s : SessionId) (frame : Bytes) (c : ConnId) : List Action :=
  .begin s frame false ::
    [.cached none, .replica (ascii "db"), .established c [] true, .params ⟨[], c⟩, .go,
      .wrote true].map (.session s)

/-- A client arrives and is given the parameters captured from connection `c`. -/
def arriveNext (s : SessionId) (frame : Bytes) (c : ConnId) : List Action :=
  .begin s frame false :: [.cached (some ⟨[], c⟩), .wrote true].map (.session s)

/-- Session `s` leases connection `c` and forwards the first frame of a transaction. -/
def lease (s : SessionId) (c : ConnId) : List Action :=
  [.client (.ok (some select1)), .replica (ascii "db"), .leased c, .go, .wrote true].map (.session s)

/-- The backend is done with a request, and the session reads its `ReadyForQuery`. -/
def answer (s : SessionId) (c : ConnId) : List Action :=
  [.backend c (.ready [73]), .session s (.backend (.ok (some ready)))]

/-- The answer is relayed, the connection reset and checked in. -/
def release (s : SessionId) (c : ConnId) : List Action :=
  answer s c ++ [.session s (.wrote true), .session s (.wrote true)] ++ answer s c ++
    [.session s .go, .session s .go]

end Sample

end RamaPg.Pool
