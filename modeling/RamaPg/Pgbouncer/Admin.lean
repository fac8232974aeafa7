import RamaPg.Lib.Machine
import RamaPg.Lib.Roster
import RamaPg.Pool.Control
import RamaPg.Protocol.RoundTrip
import RamaPg.Proxy.Results

/-!
# The admin console

The model of `pgbouncer/src/main.rs` behind the listener: `PgBouncerForwarder` sends the clients of
the database `pgbouncer` to the console and registers the others in `Stats` while the pool serves
them. The sessions run side by side, so each access to a counter or to the list of clients is a step
of its own. What the console shows is then compared with the sessions there are.
-/

namespace RamaPg.Pgbouncer

open RamaPg.Lib RamaPg.Codec RamaPg.Startup RamaPg.Proxy RamaPg.Pool

/-! ## Stats -/

structure ClientEntry where
  id : UInt64
  user : Bytes
  database : Bytes
  deriving DecidableEq

structure Stats where
  mode : PoolMode
  maxSize : Nat
  replicas : List Bytes
  totalConnections : UInt64
  nextId : UInt64
  clients : List ClientEntry

namespace Stats

def new (mode : PoolMode) (maxSize : Nat) (replicas : List Bytes) : Stats :=
  ⟨mode, maxSize, replicas, 0, 1, []⟩

/-- The three steps of `Stats::register`: the number, the count, the entry. -/
def fetchId (s : Stats) : UInt64 × Stats := (s.nextId, { s with nextId := s.nextId + 1 })

def addTotal (s : Stats) : Stats := { s with totalConnections := s.totalConnections + 1 }

def push (e : ClientEntry) (s : Stats) : Stats := { s with clients := s.clients ++ [e] }

/-- `Stats::deregister`. -/
def deregister (id : UInt64) (s : Stats) : Stats :=
  { s with clients := s.clients.filter fun client => client.id ≠ id }

/-- `Stats::active`. -/
def active (clients : List ClientEntry) : Nat := clients.length

end Stats

/-! ## The console -/

/-- `rows`. -/
def consoleRows (columns : List Bytes) (data : List (List Bytes)) : QueryResponse :=
  .rows columns (data.map fun row => row.map some) (ascii "SELECT " ++ decimal data.length)

/-- `sql.trim().trim_end_matches(';').trim().to_ascii_uppercase()`. -/
def consoleCommand (sql : Bytes) : Bytes := toAsciiUppercase (trimmedSql sql).flatten

/-- The mode as it is printed, in lower case. -/
def modeName : PoolMode → Bytes
  | .session => ascii "session"
  | .transaction => ascii "transaction"
  | .statement => ascii "statement"

def clientRow (c : ClientEntry) : List Bytes :=
  [decimal c.id.toNat, c.user, c.database, ascii "active"]

/-- `AdminConsole::handle` when `total_connections` was read as `total` and the list of clients as
`clients`. -/
def AdminConsole.handle (stats : Stats) (total : UInt64) (clients : List ClientEntry) (sql : Bytes) :
    QueryResponse :=
  let command := consoleCommand sql
  if command = ascii "SHOW POOLS" then
    consoleRows [ascii "database", ascii "mode", ascii "max_conn", ascii "cl_active"]
      [[ascii "*", modeName stats.mode, decimal stats.maxSize, decimal (Stats.active clients)]]
  else if command = ascii "SHOW CLIENTS" then
    consoleRows [ascii "client_id", ascii "user", ascii "database", ascii "state"]
      (clients.map clientRow)
  else if command = ascii "SHOW STATS" then
    consoleRows [ascii "total_connections", ascii "active_clients"]
      [[decimal total.toNat, decimal (Stats.active clients)]]
  else if command = ascii "SHOW LISTS" then
    consoleRows [ascii "list", ascii "items"]
      [[ascii "replicas", decimal stats.replicas.length],
        [ascii "clients", decimal (Stats.active clients)]]
  else if command = ascii "SHOW VERSION" then
    consoleRows [ascii "version"] [[ascii "rama-pg pgbouncer-like 0.1"]]
  else if (ascii "SHOW").isPrefixOf command then
    .error (ascii "0A000") (ascii "unsupported console command: " ++ command)
  else
    .error (ascii "0A000")
      (ascii "rama-pg console: only SHOW POOLS/CLIENTS/STATS/LISTS/VERSION are supported")

/-! ## The sessions -/

def adminDb : Bytes := ascii "pgbouncer"

/-- Where a session of `PgBouncerForwarder::serve` is. -/
inductive Stage where
  | admin
  | arrived
  | numbered (id : UInt64)
  | counted (id : UInt64)
  | listed (id : UInt64)
  deriving DecidableEq

/-- The number a session was given. -/
def Stage.id : Stage → Option UInt64
  | .admin | .arrived => none
  | .numbered id | .counted id | .listed id => some id

/-- A startup message that was read. -/
structure Arrival where
  frame : Bytes
  startup : StartupMessage
  parsed : StartupRequest.parse frame = .ok (.startup startup)
  short : frame.length ≤ 10000

/-- What is registered of a client: `startup.user()` and `startup.database()`, or empty. -/
def Arrival.entry (a : Arrival) (id : UInt64) : ClientEntry :=
  ⟨id, a.startup.user.getD [], a.startup.database.getD []⟩

structure Served where
  arrival : Arrival
  stage : Stage

/-- The shared statistics, the sessions, and the console queries that have read the total. -/
structure Bouncer where
  stats : Stats
  sessions : Nat → Option Served
  loaded : Nat → Option UInt64

/-- One step of a session, or of the console. -/
inductive Turn where
  | arrive (c : Nat) (a : Arrival)
  | number (c : Nat)
  | count (c : Nat)
  | list (c : Nat)
  | leave (c : Nat)
  | load (q : Nat)

namespace Bouncer

def new (mode : PoolMode) (maxSize : Nat) (replicas : List Bytes) : Bouncer :=
  ⟨.new mode maxSize replicas, fun _ => none, fun _ => none⟩

def put (c : Nat) (s : Option Served) (w : Bouncer) : Bouncer :=
  { w with sessions := Function.update w.sessions c s }

def step (w : Bouncer) : Turn → Option Bouncer
  | .arrive c a =>
    match w.sessions c with
    | some _ => none
    | none => some (w.put c (some ⟨a, if a.startup.database = some adminDb then .admin else .arrived⟩))
  | .number c =>
    match w.sessions c with
    | some ⟨a, .arrived⟩ =>
      some { w.put c (some ⟨a, .numbered w.stats.fetchId.1⟩) with stats := w.stats.fetchId.2 }
    | _ => none
  | .count c =>
    match w.sessions c with
    | some ⟨a, .numbered id⟩ =>
      some { w.put c (some ⟨a, .counted id⟩) with stats := w.stats.addTotal }
    | _ => none
  | .list c =>
    match w.sessions c with
    | some ⟨a, .counted id⟩ =>
      some { w.put c (some ⟨a, .listed id⟩) with stats := w.stats.push (a.entry id) }
    | _ => none
  | .leave c =>
    match w.sessions c with
    | some ⟨_, .listed id⟩ => some { w.put c none with stats := w.stats.deregister id }
    | some ⟨_, .admin⟩ => some (w.put c none)
    | _ => none
  | .load q => some { w with loaded := Function.update w.loaded q (some w.stats.totalConnections) }

/-- What one step does. -/
theorem step_cases {w w' : Bouncer} {t : Turn} (h : w.step t = some w') :
    (∃ c a stage, t = .arrive c a ∧ w.sessions c = none ∧ stage.id = none ∧
      w' = w.put c (some ⟨a, stage⟩)) ∨
    (∃ c a, t = .number c ∧ w.sessions c = some ⟨a, .arrived⟩ ∧
      w' = { w.put c (some ⟨a, .numbered w.stats.nextId⟩) with
        stats := { w.stats with nextId := w.stats.nextId + 1 } }) ∨
    (∃ c a id, t = .count c ∧ w.sessions c = some ⟨a, .numbered id⟩ ∧
      w' = { w.put c (some ⟨a, .counted id⟩) with stats := w.stats.addTotal }) ∨
    (∃ c a id, t = .list c ∧ w.sessions c = some ⟨a, .counted id⟩ ∧
      w' = { w.put c (some ⟨a, .listed id⟩) with stats := w.stats.push (a.entry id) }) ∨
    (∃ c a id, t = .leave c ∧ w.sessions c = some ⟨a, .listed id⟩ ∧
      w' = { w.put c none with stats := w.stats.deregister id }) ∨
    (∃ c a, t = .leave c ∧ w.sessions c = some ⟨a, .admin⟩ ∧ w' = w.put c none) ∨
    ∃ q, t = .load q ∧
      w' = { w with loaded := Function.update w.loaded q (some w.stats.totalConnections) } := by
  cases t with
  | arrive c a =>
    simp only [step] at h
    split at h
    · cases h
    · rename_i hc
      cases h
      refine .inl ⟨c, a, _, rfl, hc, ?_, rfl⟩
      split <;> rfl
  | number c =>
    simp only [step] at h
    split at h
    · rename_i a hc
      cases h
      exact .inr (.inl ⟨c, a, rfl, hc, rfl⟩)
    · cases h
  | count c =>
    simp only [step] at h
    split at h
    · rename_i a id hc
      cases h
      exact .inr (.inr (.inl ⟨c, a, id, rfl, hc, rfl⟩))
    · cases h
  | list c =>
    simp only [step] at h
    split at h
    · rename_i a id hc
      cases h
      exact .inr (.inr (.inr (.inl ⟨c, a, id, rfl, hc, rfl⟩)))
    · cases h
  | leave c =>
    simp only [step] at h
    split at h
    · rename_i a id hc
      cases h
      exact .inr (.inr (.inr (.inr (.inl ⟨c, a, id, rfl, hc, rfl⟩))))
    · rename_i a hc
      cases h
      exact .inr (.inr (.inr (.inr (.inr (.inl ⟨c, a, rfl, hc, rfl⟩)))))
    · cases h
  | load q =>
    cases h
    exact .inr (.inr (.inr (.inr (.inr (.inr ⟨q, rfl, rfl⟩)))))

/-! ## The list and the sessions -/

/-- The number a session was given. -/
def idOf (w : Bouncer) (c : Nat) : Option UInt64 := (w.sessions c).bind fun s => s.stage.id

end Bouncer

/-- The entry of a session that is listed. -/
def Served.entry (s : Served) : Option ClientEntry :=
  match s.stage with
  | .listed id => some (s.arrival.entry id)
  | _ => none

/-- The mark of a session that is counted. -/
def Served.mark (s : Served) : Option Unit :=
  match s.stage with
  | .counted _ | .listed _ => some ()
  | _ => none

namespace Bouncer

def entry (w : Bouncer) (c : Nat) : Option ClientEntry := (w.sessions c).bind Served.entry

def mark (w : Bouncer) (c : Nat) : Option Unit := (w.sessions c).bind Served.mark

/-- The numbers that are out, of the first `n`, each once. -/
structure Numbers (n : Nat) (idOf : Nat → Option UInt64) : Prop where
  bound : ∀ c id, idOf c = some id → id.toNat ≤ n
  distinct : ∀ c c' id, idOf c = some id → idOf c' = some id → c = c'
  roster : ∃ ids, Roster idOf ids ∧ ids.length ≤ n

/-- What the steps keep, as long as the numbers do not wrap. -/
structure Kept (numbered counted : Nat) (w : Bouncer) : Prop where
  next : w.stats.nextId = UInt64.ofNat (numbered + 1)
  total : w.stats.totalConnections = UInt64.ofNat counted
  ids : Numbers numbered w.idOf
  roster : Roster w.entry w.stats.clients
  marked : ∃ marks, Roster w.mark marks ∧ marks.length ≤ counted

variable {w w' : Bouncer} {t : Turn} {n m : Nat}

theorem kept_new (mode : PoolMode) (maxSize : Nat) (replicas : List Bytes) :
    Kept 0 0 (new mode maxSize replicas) where
  next := rfl
  total := rfl
  ids := ⟨by rintro c id ⟨⟩, by rintro c c' id ⟨⟩, [], .nil fun _ => rfl, Nat.le_refl _⟩
  roster := .nil fun _ => rfl
  marked := ⟨[], .nil fun _ => rfl, Nat.le_refl _⟩

theorem idOf_put (w : Bouncer) (c : Nat) (s : Option Served) :
    (w.put c s).idOf = Function.update w.idOf c (s.bind fun s => s.stage.id) := by
  funext c'
  by_cases h : c' = c
  · subst h
    simp [idOf, put]
  · simp [idOf, put, h]

theorem entry_put (w : Bouncer) (c : Nat) (s : Option Served) :
    (w.put c s).entry = Function.update w.entry c (s.bind Served.entry) := by
  funext c'
  by_cases h : c' = c
  · subst h
    simp [entry, put]
  · simp [entry, put, h]

theorem mark_put (w : Bouncer) (c : Nat) (s : Option Served) :
    (w.put c s).mark = Function.update w.mark c (s.bind Served.mark) := by
  funext c'
  by_cases h : c' = c
  · subst h
    simp [mark, put]
  · simp [mark, put, h]

/-- A session that is not there, or not numbered, has no number. -/
theorem idOf_eq {s : Served} {c : Nat} (h : w.sessions c = some s) : w.idOf c = s.stage.id := by
  rw [idOf, h]
  rfl

theorem entry_eq {s : Served} {c : Nat} (h : w.sessions c = some s) : w.entry c = s.entry := by
  rw [entry, h]
  rfl

theorem mark_eq {s : Served} {c : Nat} (h : w.sessions c = some s) : w.mark c = s.mark := by
  rw [mark, h]
  rfl

/-- Only a numbered session is listed, under its number. -/
theorem idOf_of_entry {c : Nat} {e : ClientEntry} (h : w.entry c = some e) : w.idOf c = some e.id := by
  obtain ⟨s, hs, he⟩ := Option.bind_eq_some_iff.mp h
  rw [idOf_eq hs]
  unfold Served.entry at he
  split at he
  · rename_i id hid
    cases he
    rw [hid]
    rfl
  · cases he

/-- A step that changes one session and the statistics. -/
theorem Kept.put {n' m' : Nat} {c : Nat} {s : Option Served} {stats : Stats}
    (hnext : stats.nextId = UInt64.ofNat (n' + 1)) (htotal : stats.totalConnections = UInt64.ofNat m')
    (hids : Numbers n' (Function.update w.idOf c (s.bind fun s => s.stage.id)))
    (hroster : Roster (Function.update w.entry c (s.bind Served.entry)) stats.clients)
    (hmarked : ∃ marks, Roster (Function.update w.mark c (s.bind Served.mark)) marks ∧
      marks.length ≤ m') : Kept n' m' { w.put c s with stats := stats } := by
  have hid : ({ w.put c s with stats := stats } : Bouncer).idOf = _ := idOf_put w c s
  have hentry : ({ w.put c s with stats := stats } : Bouncer).entry = _ := entry_put w c s
  have hmark : ({ w.put c s with stats := stats } : Bouncer).mark = _ := mark_put w c s
  refine ⟨hnext, htotal, ?_, ?_, ?_⟩
  · rw [hid]
    exact hids
  · rw [hentry]
    exact hroster
  · rw [hmark]
    exact hmarked

theorem update_same {β : Type} {f : Nat → β} {c : Nat} {v : β} (h : f c = v) :
    Function.update f c v = f := by
  rw [← h, Function.update_eq_self]

theorem Kept.idsSame (h : Kept n m w) {c : Nat} {v : Option UInt64} (hv : w.idOf c = v) :
    Numbers n (Function.update w.idOf c v) := by
  rw [update_same hv]
  exact h.ids

theorem Kept.rosterSame (h : Kept n m w) {c : Nat} {v : Option ClientEntry} (hv : w.entry c = v) :
    Roster (Function.update w.entry c v) w.stats.clients := by
  rw [update_same hv]
  exact h.roster

theorem Kept.markedSame (h : Kept n m w) {c : Nat} {v : Option Unit} (hv : w.mark c = v) :
    ∃ marks, Roster (Function.update w.mark c v) marks ∧ marks.length ≤ m := by
  rw [update_same hv]
  exact h.marked

/-- One more session that is counted. -/
theorem Kept.markedMore (h : Kept n m w) {c : Nat} (hc : w.mark c = none) :
    ∃ marks, Roster (Function.update w.mark c (some ())) marks ∧ marks.length ≤ m + 1 := by
  obtain ⟨marks, hmarks, hle⟩ := h.marked
  refine ⟨_, hmarks.push hc, ?_⟩
  rw [List.length_append, List.length_singleton]
  omega

/-- One session fewer. -/
theorem Kept.markedLess (h : Kept n m w) (c : Nat) :
    ∃ marks, Roster (Function.update w.mark c none) marks ∧ marks.length ≤ m := by
  obtain ⟨marks, hmarks, hle⟩ := h.marked
  obtain ⟨fewer, hfewer, hle'⟩ := hmarks.drop c
  exact ⟨fewer, hfewer, by omega⟩

/-- A number that no session has. -/
theorem Kept.fresh (h : Kept n m w) (hn : n + 1 < 2 ^ 64) {c : Nat} (hc : w.idOf c = none) :
    Numbers (n + 1) (Function.update w.idOf c (some w.stats.nextId)) := by
  have hnat : w.stats.nextId.toNat = n + 1 := by
    rw [h.next, UInt64.toNat_ofNat']
    exact Nat.mod_eq_of_lt hn
  have hother : ∀ c' id, w.idOf c' = some id → id ≠ w.stats.nextId := by
    rintro c' id hid rfl
    have := h.ids.bound c' _ hid
    omega
  refine ⟨?_, ?_, ?_⟩
  · intro c' id hid
    by_cases hcc : c' = c
    · subst hcc
      rw [Function.update_self] at hid
      cases hid
      exact Nat.le_of_eq hnat
    · rw [Function.update_of_ne hcc] at hid
      have := h.ids.bound c' id hid
      omega
  · intro c₁ c₂ id h₁ h₂
    by_cases hc₁ : c₁ = c <;> by_cases hc₂ : c₂ = c
    · rw [hc₁, hc₂]
    · subst hc₁
      rw [Function.update_self] at h₁
      rw [Function.update_of_ne hc₂] at h₂
      cases h₁
      exact (hother c₂ _ h₂ rfl).elim
    · subst hc₂
      rw [Function.update_self] at h₂
      rw [Function.update_of_ne hc₁] at h₁
      cases h₂
      exact (hother c₁ _ h₁ rfl).elim
    · rw [Function.update_of_ne hc₁] at h₁
      rw [Function.update_of_ne hc₂] at h₂
      exact h.ids.distinct c₁ c₂ id h₁ h₂
  · obtain ⟨ids, hids, hle⟩ := h.ids.roster
    refine ⟨_, hids.push hc, ?_⟩
    rw [List.length_append, List.length_singleton]
    omega

/-- A session that is gone leaves the others as they were. -/
theorem Kept.without (h : Kept n m w) (c : Nat) : Numbers n (Function.update w.idOf c none) := by
  have hback : ∀ {c' id}, Function.update w.idOf c none c' = some id → w.idOf c' = some id := by
    intro c' id hid
    by_cases hcc : c' = c
    · subst hcc
      rw [Function.update_self] at hid
      cases hid
    · rwa [Function.update_of_ne hcc] at hid
  obtain ⟨ids, hids, hle⟩ := h.ids.roster
  obtain ⟨fewer, hfewer, hle'⟩ := hids.drop c
  exact ⟨fun c' id hid => h.ids.bound c' id (hback hid),
    fun c₁ c₂ id h₁ h₂ => h.ids.distinct c₁ c₂ id (hback h₁) (hback h₂), fewer, hfewer, by omega⟩

theorem ofNat_succ (k : Nat) : UInt64.ofNat k + 1 = UInt64.ofNat (k + 1) := by
  rw [UInt64.ofNat_add]
  rfl

end Bouncer

/-- The steps that give a number, and those that count. -/
def Turn.numbers : Turn → Nat
  | .number _ => 1
  | _ => 0

def Turn.counts : Turn → Nat
  | .count _ => 1
  | _ => 0

namespace Bouncer

variable {w w' : Bouncer} {t : Turn} {n m : Nat}

/-- **One step.** -/
theorem Kept.step (h : Kept n m w) (hn : n + t.numbers < 2 ^ 64) (hw : w.step t = some w') :
    Kept (n + t.numbers) (m + t.counts) w' := by
  rcases step_cases hw with ⟨c, a, stage, rfl, hc, hstage, rfl⟩ | ⟨c, a, rfl, hc, rfl⟩ |
    ⟨c, a, id, rfl, hc, rfl⟩ | ⟨c, a, id, rfl, hc, rfl⟩ | ⟨c, a, id, rfl, hc, rfl⟩ |
    ⟨c, a, rfl, hc, rfl⟩ | ⟨q, rfl, rfl⟩
  · -- A session arrives: it has no number, no entry and no mark.
    have hnone : ∀ {β : Type} (f : Served → Option β), (w.sessions c).bind f = none := by
      intro β f
      rw [hc]
      rfl
    refine Kept.put h.next h.total (h.idsSame ?_) (h.rosterSame ?_) (h.markedSame ?_)
    · rw [idOf, hnone]
      exact hstage.symm
    · rw [entry, hnone]
      cases stage <;> first | rfl | cases hstage
    · rw [mark, hnone]
      cases stage <;> first | rfl | cases hstage
  · -- It is numbered.
    refine Kept.put ?_ h.total (h.fresh hn (idOf_eq hc)) (h.rosterSame (entry_eq hc))
      (h.markedSame (mark_eq hc))
    rw [h.next, ofNat_succ]
    rfl
  · -- It is counted.
    refine Kept.put h.next ?_ (h.idsSame (idOf_eq hc)) (h.rosterSame (entry_eq hc))
      (h.markedMore (mark_eq hc))
    show w.stats.totalConnections + 1 = _
    rw [h.total, ofNat_succ]
    rfl
  · -- It is listed.
    exact Kept.put h.next h.total (h.idsSame (idOf_eq hc)) (h.roster.push (entry_eq hc))
      (h.markedSame (mark_eq hc))
  · -- It is taken off the list.
    refine Kept.put h.next h.total (h.without c) (h.roster.retain ?_) (h.markedLess c)
    intro c' e he
    have hid := idOf_of_entry he
    rw [decide_eq_true_iff, not_iff_not]
    constructor
    · intro heq
      rw [heq] at hid
      exact h.ids.distinct c' c id hid (idOf_eq hc)
    · rintro rfl
      rw [idOf_eq hc] at hid
      exact (Option.some.inj hid).symm
  · exact Kept.put h.next h.total (h.without c) (h.rosterSame (entry_eq hc)) (h.markedLess c)
  · exact ⟨h.next, h.total, h.ids, h.roster, h.marked⟩

/-- **Every run.** -/
theorem Kept.run : ∀ {ts : List Turn} {n m : Nat} {w w' : Bouncer}, Kept n m w →
    n + (ts.map Turn.numbers).sum < 2 ^ 64 → exec Bouncer.step w ts = some w' →
    Kept (n + (ts.map Turn.numbers).sum) (m + (ts.map Turn.counts).sum) w'
  | [], n, m, w, w', h, _, hw => by
    cases hw
    exact h
  | t :: ts, n, m, w, w', h, hn, hw => by
    obtain ⟨u, hu, hw⟩ := exec_cons hw
    rw [List.map_cons, List.sum_cons] at hn
    have hrun := (h.step (by omega) hu).run (by omega) hw
    rw [List.map_cons, List.map_cons, List.sum_cons, List.sum_cons, ← Nat.add_assoc, ← Nat.add_assoc]
    exact hrun

/-- What a console query has read of the total. -/
theorem loaded_history {mode : PoolMode} {maxSize : Nat} {replicas : List Bytes} {ts : List Turn}
    (hw : exec Bouncer.step (new mode maxSize replicas) ts = some w) :
    ∀ q total, w.loaded q = some total → ∃ before after u, ts = before ++ .load q :: after ∧
      exec Bouncer.step (new mode maxSize replicas) before = some u ∧
      total = u.stats.totalConnections := by
  refine exec_history (I := fun ts w => ∀ q total, w.loaded q = some total →
    ∃ before after u, ts = before ++ .load q :: after ∧
      exec Bouncer.step (new mode maxSize replicas) before = some u ∧
      total = u.stats.totalConnections) (by rintro q total ⟨⟩) ?_ hw
  intro ts u t u' hu hinv hstep q total hq
  have hkeep : u.loaded q = some total → ∃ before after v, ts ++ [t] = before ++ .load q :: after ∧
      exec Bouncer.step (new mode maxSize replicas) before = some v ∧
      total = v.stats.totalConnections := by
    intro hold
    obtain ⟨before, after, v, rfl, hv, htotal⟩ := hinv q total hold
    exact ⟨before, after ++ [t], v, by rw [List.append_assoc]; rfl, hv, htotal⟩
  rcases step_cases hstep with ⟨c, a, stage, -, -, -, rfl⟩ | ⟨c, a, -, -, rfl⟩ |
    ⟨c, a, id, -, -, rfl⟩ | ⟨c, a, id, -, -, rfl⟩ | ⟨c, a, id, -, -, rfl⟩ | ⟨c, a, -, -, rfl⟩ |
    ⟨q', rfl, rfl⟩
  case inr.inr.inr.inr.inr.inr =>
    replace hq : Function.update u.loaded q' (some u.stats.totalConnections) q = some total := hq
    by_cases he : q = q'
    · subst he
      rw [Function.update_self] at hq
      exact ⟨ts, [], u, rfl, hu, (Option.some.inj hq).symm⟩
    · rw [Function.update_of_ne he] at hq
      exact hkeep hq
  all_goals exact hkeep hq

/-- **The statistics are those of the sessions.** In every run of the sessions, with each access to
the shared counters and the list a step of its own, and as long as the counter of the numbers does
not wrap: no two sessions have one number; the list has exactly one entry for each session that is
registered and not gone, with its number, user and database; the total is the number of sessions
counted so far, and no fewer than are listed; and a console query that has read the total has the
number of those counted before it read. -/
theorem stats_exact {mode : PoolMode} {maxSize : Nat} {replicas : List Bytes} {ts : List Turn}
    {w : Bouncer} (hw : exec Bouncer.step (new mode maxSize replicas) ts = some w)
    (hn : (ts.map Turn.numbers).sum < 2 ^ 64) :
    (∀ c c' id, w.idOf c = some id → w.idOf c' = some id → c = c') ∧
    Roster w.entry w.stats.clients ∧
    w.stats.totalConnections = UInt64.ofNat (ts.map Turn.counts).sum ∧
    Stats.active w.stats.clients ≤ (ts.map Turn.counts).sum ∧
    ∀ q total, w.loaded q = some total → ∃ before after, ts = before ++ .load q :: after ∧
      total = UInt64.ofNat (before.map Turn.counts).sum := by
  have hkept := (kept_new mode maxSize replicas).run (by omega) hw
  rw [Nat.zero_add, Nat.zero_add] at hkept
  refine ⟨hkept.ids.distinct, hkept.roster, hkept.total, ?_, ?_⟩
  · obtain ⟨marks, hmarks, hle⟩ := hkept.marked
    refine (hkept.roster.length_le hmarks fun c hc => ?_).trans hle
    obtain ⟨e, he⟩ := Option.isSome_iff_exists.mp hc
    obtain ⟨s, hs, hse⟩ := Option.bind_eq_some_iff.mp he
    rw [mark_eq hs]
    unfold Served.entry at hse
    unfold Served.mark
    split at hse
    · rename_i hid
      rw [hid]
      rfl
    · cases hse
  · intro q total hq
    obtain ⟨before, after, u, rfl, hu, rfl⟩ := loaded_history hw q total hq
    rw [List.map_append, List.sum_append] at hn
    have hkept' := (kept_new mode maxSize replicas).run (by omega) hu
    rw [Nat.zero_add, Nat.zero_add] at hkept'
    exact ⟨before, after, rfl, hkept'.total⟩

end Bouncer

/-! ## Two clients -/

namespace TwoClients

theorem parsed : StartupRequest.parse (startupMessage [(ascii "user", ascii "alice")]) =
    .ok (.startup ⟨.v3_0, [(ascii "user", ascii "alice")],
      startupMessage [(ascii "user", ascii "alice")]⟩) := by
  refine parse_startupMessage fun p hp => ?_
  obtain rfl := List.mem_singleton.mp hp
  exact ⟨by decide, ⟨by decide, isUtf8_of_isAscii (by decide)⟩,
    ⟨by decide, isUtf8_of_isAscii (by decide)⟩⟩

theorem short : (startupMessage [(ascii "user", ascii "alice")]).length ≤ 10000 := by decide

def alice : Arrival := ⟨_, _, parsed, short⟩

/-- Both are numbered before either is counted; the second one is listed first, and leaves. -/
def turns : List Turn :=
  [.arrive 0 alice, .arrive 1 alice, .number 0, .number 1, .count 1, .list 1, .count 0, .load 0,
    .list 0, .leave 1]

end TwoClients

theorem Bouncer.stats_exact_for_two : ∃ w : Bouncer,
    exec Bouncer.step (new .transaction 10 []) TwoClients.turns = some w ∧
    w.stats.clients = [⟨1, ascii "alice", ascii "alice"⟩] ∧ Roster w.entry w.stats.clients ∧
    w.stats.totalConnections = 2 := by
  obtain ⟨-, hroster, htotal, -⟩ := @stats_exact .transaction 10 [] TwoClients.turns _ rfl (by decide)
  exact ⟨_, rfl, rfl, hroster, htotal⟩

/-! ## What the console shows -/

/-- The command of a query stands at its beginning. -/
theorem trimmedSql_trimmed (sql : Bytes) :
    trimmedSql (trimmedSql sql).flatten <+: trimmedSql sql := by
  obtain ⟨xs, hxs⟩ : ∃ xs, trimmedSql sql = trim xs := ⟨_, rfl⟩
  -- The trimmed text is cut out of the characters of the whole, so it has the same characters.
  have hchars : chars (trimmedSql sql).flatten = trimmedSql sql := by
    refine chars_flatten ?_
    have hinfix : trimmedSql sql <:+: chars sql := by
      have htrim : ∀ ys : List Bytes, trim ys <:+: ys := fun ys =>
        (trimEndMatches_isPrefix ..).isInfix.trans (List.dropWhile_suffix _).isInfix
      exact (htrim _).trans ((trimEndMatches_isPrefix ..).isInfix.trans (htrim _))
    obtain ⟨as, bs, heq⟩ := hinfix
    exact (heq ▸ areChars_chars sql).cut
  have hhead : (trimmedSql sql).dropWhile isWhitespace = trimmedSql sql := by
    rw [hxs]
    exact dropWhile_trim (List.prefix_refl _)
  have hinner : trim (trimmedSql sql) <+: trimmedSql sql := by
    rw [trim, hhead]
    exact trimEndMatches_isPrefix ..
  obtain ⟨ys, hys⟩ : ∃ ys, ys = trimEndMatches (· == [59]) (trim (trimmedSql sql)) := ⟨_, rfl⟩
  have hcut : ys <+: trimmedSql sql := by
    rw [hys]
    exact (trimEndMatches_isPrefix ..).trans hinner
  have hdrop : ys.dropWhile isWhitespace = ys := by
    rw [hxs] at hcut
    exact dropWhile_trim hcut
  have houter : trimmedSql (trimmedSql sql).flatten = trimEndMatches isWhitespace ys := by
    rw [trimmedSql, hchars, ← hys, trim, hdrop]
  rw [houter]
  exact (trimEndMatches_isPrefix ..).trans hcut

/-- The first word of a query stands at its beginning too. -/
theorem firstWord_trimmed (sql : Bytes) : firstWord (trimmedSql sql) <+: (trimmedSql sql).flatten := by
  have hhead : (trimmedSql sql).dropWhile isWhitespace = trimmedSql sql := dropWhile_trim (List.prefix_refl _)
  rw [firstWord, hhead]
  refine ⟨((trimmedSql sql).dropWhile fun c => !isWhitespace c).flatten, ?_⟩
  rw [← List.flatten_append, List.takeWhile_append_dropWhile]

/-- What the console takes for one of its commands is no transaction command. -/
theorem verbOf_show {sql : Bytes} (h : ascii "SHOW" <+: consoleCommand (trimmedSql sql).flatten) :
    verbOf sql = .other := by
  have hshow : ascii "SHOW" <+: toAsciiUppercase (trimmedSql sql).flatten := by
    refine h.trans (List.IsPrefix.map _ ?_)
    obtain ⟨rest, hrest⟩ := trimmedSql_trimmed sql
    exact ⟨rest.flatten, by rw [← List.flatten_append, hrest]⟩
  have hword : toAsciiUppercase (firstWord (trimmedSql sql)) <+:
      toAsciiUppercase (trimmedSql sql).flatten := (firstWord_trimmed sql).map _
  have hne : ∀ verb : Bytes, ¬ verb <+: ascii "SHOW" → ¬ ascii "SHOW" <+: verb →
      toAsciiUppercase (firstWord (trimmedSql sql)) ≠ verb := by
    rintro verb hshort hlong rfl
    rcases List.prefix_or_prefix_of_prefix hword hshow with hp | hp
    · exact hshort hp
    · exact hlong hp
  unfold verbOf
  simp only
  rw [if_neg (not_or.mpr ⟨hne _ (by decide) (by decide), hne _ (by decide) (by decide)⟩),
    if_neg (not_or.mpr ⟨hne _ (by decide) (by decide), hne _ (by decide) (by decide)⟩),
    if_neg (not_or.mpr ⟨hne _ (by decide) (by decide), hne _ (by decide) (by decide)⟩)]

/-- What an operator reads in a row of `SHOW CLIENTS`. -/
def readClient : List (Option Bytes) → Option ClientEntry
  | [some id, some user, some database, some state] =>
    if state = ascii "active" then
      (parseBelow (2 ^ 64) id).map fun id => ⟨UInt64.ofNat id, user, database⟩
    else none
  | _ => none

theorem readClient_clientRow (e : ClientEntry) : readClient ((clientRow e).map some) = some e := by
  show (if ascii "active" = ascii "active" then
    (parseBelow (2 ^ 64) (decimal e.id.toNat)).map fun id => (⟨UInt64.ofNat id, e.user, e.database⟩ : ClientEntry)
    else none) = some e
  rw [if_pos rfl, parseBelow_decimal e.id.toNat_lt, Option.map_some, UInt64.ofNat_toNat]

/-- A value of a startup message is text, no longer than its frame. -/
theorem Arrival.value (a : Arrival) (key : Bytes) :
    ((a.startup.get key).getD []).length ≤ 10000 ∧ isUtf8 ((a.startup.get key).getD []) = true := by
  cases h : a.startup.get key with
  | none => exact ⟨Nat.zero_le _, rfl⟩
  | some v =>
    obtain ⟨p, hp, rfl⟩ := Option.map_eq_some_iff.mp h
    have hmem := List.mem_of_find?_eq_some hp
    obtain ⟨x, y, z, u, code, body, hframe, -, -, hps, ignored, rfl⟩ := StartupRequest.parse_ok a.parsed
    refine ⟨?_, (hps p hmem).2.2.2⟩
    have hlen : p.2.length ≤ (encodeParameters a.startup.parameters).length := by
      obtain ⟨as, bs, hsplit⟩ := List.append_of_mem hmem
      rw [hsplit, encodeParameters, List.flatMap_append, List.flatMap_cons]
      simp only [List.length_append, List.length_cons]
      omega
    have hshort := a.short
    rw [hframe] at hshort
    simp only [List.length_cons, List.length_append] at hshort
    rw [Option.getD_some]
    omega

/-- An entry of the list is text of a startup message. -/
theorem Bouncer.entry_values {w : Bouncer} {c : Nat} {e : ClientEntry} (h : w.entry c = some e) :
    (e.user.length ≤ 10000 ∧ isUtf8 e.user = true) ∧
    (e.database.length ≤ 10000 ∧ isUtf8 e.database = true) := by
  obtain ⟨s, hs, he⟩ := Option.bind_eq_some_iff.mp h
  obtain ⟨a, stage⟩ := s
  unfold Served.entry at he
  split at he
  · cases he
    refine ⟨a.value _, ?_⟩
    show (a.startup.database.getD []).length ≤ 10000 ∧ isUtf8 (a.startup.database.getD []) = true
    rw [StartupMessage.database]
    have hdb := a.value (ascii "database")
    cases hget : a.startup.get (ascii "database") with
    | none =>
      rw [Option.none_or]
      exact a.value _
    | some v =>
      rw [hget] at hdb
      exact hdb
  · cases he

theorem length_dataValue (text : Bytes) : (Message.dataValue (some text)).length = 4 + text.length := by
  rw [Message.dataValue, List.length_append, length_i32ToBe]

/-- The table of `SHOW CLIENTS` fits the wire. -/
theorem encodable_clients {clients : List ClientEntry} (hlen : clients.length < 2 ^ 64)
    (hvalues : ∀ e ∈ clients, (e.user.length ≤ 10000 ∧ isUtf8 e.user = true) ∧
      (e.database.length ≤ 10000 ∧ isUtf8 e.database = true)) :
    Encodable [ascii "client_id", ascii "user", ascii "database", ascii "state"]
      ((clients.map clientRow).map fun row => row.map some)
      (ascii "SELECT " ++ decimal (clients.map clientRow).length) := by
  have hrow : ∀ row ∈ (clients.map clientRow).map (fun row => row.map some),
      ∃ e ∈ clients, row = (clientRow e).map some := by
    intro row hr
    obtain ⟨row', hr', rfl⟩ := List.mem_map.mp hr
    obtain ⟨e, he, rfl⟩ := List.mem_map.mp hr'
    exact ⟨e, he, rfl⟩
  have hid : ∀ e : ClientEntry, (decimal e.id.toNat).length ≤ 20 := fun e =>
    length_decimal (by omega) (Nat.lt_of_lt_of_le e.id.toNat_lt (by norm_num))
  have hcell : ∀ e ∈ clients, ∀ text ∈ clientRow e, text.length ≤ 10000 ∧ isUtf8 text = true := by
    intro e he text ht
    obtain ⟨huser, hdatabase⟩ := hvalues e he
    simp only [clientRow, List.mem_cons, List.not_mem_nil, or_false] at ht
    rcases ht with rfl | rfl | rfl | rfl
    · have := hid e
      refine ⟨by omega, isUtf8_of_isAscii fun b hb => ?_⟩
      have hd := decimal_digit _ b hb
      simp only [isDigit, Bool.and_eq_true, decide_eq_true_eq] at hd
      exact UInt8.lt_of_le_of_lt hd.2 (by decide)
    · exact huser
    · exact hdatabase
    · exact ⟨by decide, isUtf8_of_isAscii (by decide)⟩
  have hcount : (decimal (clients.map clientRow).length).length ≤ 20 := by
    rw [List.length_map]
    exact length_decimal (by omega) (Nat.lt_of_lt_of_le hlen (by norm_num))
  have htext : ∀ row ∈ (clients.map clientRow).map (fun row => row.map some), ∀ text,
      some text ∈ row → text.length ≤ 10000 ∧ isUtf8 text = true := by
    intro row hr text ht
    obtain ⟨e, he, rfl⟩ := hrow row hr
    obtain ⟨text', ht', heq⟩ := List.mem_map.mp ht
    cases heq
    exact hcell e he text ht'
  refine ⟨by decide, ?_, ?_, ?_, by decide, ?_, ?_⟩
  · intro row hr
    obtain ⟨e, -, rfl⟩ := hrow row hr
    show 4 < 2 ^ 15
    omega
  · intro row hr text ht
    have := (htext row hr text ht).1
    omega
  · intro row hr text ht
    exact (htext row hr text ht).2
  · intro h0
    rcases List.mem_append.mp h0 with h0 | h0
    · revert h0
      decide
    · have hd := decimal_digit _ 0 h0
      revert hd
      decide
  · intro f hf
    have hcap : maxMessageLen = 2 ^ 30 := rfl
    rw [hcap]
    simp only [QueryResponse.frames, List.cons_append, List.mem_cons, List.mem_append,
      List.mem_map, List.not_mem_nil, or_false] at hf
    rcases hf with rfl | ⟨row, ⟨row', ⟨e, he, rfl⟩, rfl⟩, rfl⟩ | rfl
    · decide
    · have huser := (hvalues e he).1.1
      have hdatabase := (hvalues e he).2.1
      have hlen := hid e
      have hbody : (Message.dataRow ((clientRow e).map some)).length = 2 +
          (4 + (decimal e.id.toNat).length + (4 + e.user.length + (4 + e.database.length + 10))) + 5 := by
        rw [Message.dataRow, length_frame, List.length_append]
        simp only [clientRow, List.map_cons, List.map_nil, List.flatMap_cons, List.flatMap_nil,
          List.length_append, length_dataValue]
        rfl
      rw [hbody]
      omega
    · have hbody : (Message.commandComplete
          (ascii "SELECT " ++ decimal (clients.map clientRow).length)).length =
          7 + (decimal (clients.map clientRow).length).length + 1 + 5 := by
        rw [Message.commandComplete, length_frame, Message.cstr, List.length_append,
          List.length_append]
        rfl
      rw [hbody]
      omega

/-- What the console answers to `SHOW CLIENTS`, however it is written. -/
theorem handle_showClients {stats : Stats} {total : UInt64} {clients : List ClientEntry} {sql : Bytes}
    (h : consoleCommand sql = ascii "SHOW CLIENTS") :
    AdminConsole.handle stats total clients sql =
      consoleRows [ascii "client_id", ascii "user", ascii "database", ascii "state"]
        (clients.map clientRow) := by
  have hpools : consoleCommand sql ≠ ascii "SHOW POOLS" := by
    rw [h]
    decide
  show (if consoleCommand sql = _ then _ else if consoleCommand sql = _ then _ else _) = _
  rw [if_neg hpools, if_pos h]

/-- The rows of the answer, read back. -/
theorem parseDataRow_entries {clients : List ClientEntry} {columns : List Bytes} {tag : Bytes}
    (h : Encodable columns ((clients.map clientRow).map fun row => row.map some) tag) :
    (((clients.map clientRow).map fun row => row.map some).map rowMessage).map
      (fun m => (parseDataRow m.payload).bind readClient) = clients.map some := by
  rw [List.map_map, List.map_map, List.map_map]
  refine List.map_congr_left fun e he => ?_
  have hrow : (clientRow e).map some ∈ (clients.map clientRow).map (fun row => row.map some) :=
    List.mem_map_of_mem (List.mem_map_of_mem he)
  have hparse : parseDataRow (rowMessage ((clientRow e).map some)).payload =
      some ((clientRow e).map some) := parseDataRow_build (h.row_lt _ hrow) (h.cell_lt _ hrow)
  show (parseDataRow (rowMessage ((clientRow e).map some)).payload).bind readClient = some e
  rw [hparse, Option.bind_some, readClient_clientRow]

/-- **The console shows the clients there are.** In every state the sessions reach, the operator who
asks for the clients, in whatever letters and with whatever white space and semicolons around, reads
from the bytes of the answer one row for each client that is registered then, with its number, user
and database, and no other. -/
theorem Bouncer.console_shows_clients {mode : PoolMode} {maxSize : Nat} {replicas : List Bytes}
    {ts : List Turn} {w : Bouncer}
    (hw : exec Bouncer.step (new mode maxSize replicas) ts = some w)
    (hn : (ts.map Turn.numbers).sum < 2 ^ 64) {sql : Bytes}
    (hsql : consoleCommand (trimmedSql sql).flatten = ascii "SHOW CLIENTS") {status : TxnStatus}
    (hstatus : status ≠ .failed) (user database : Bytes) (total : UInt64) {scheds : List (List Nat)}
    (hcount : scheds.length = w.stats.clients.length + 3)
    (hsched : ∀ s ∈ scheds, (writtenBytes (runQuery user database
      (fun _ => AdminConsole.handle w.stats total w.stats.clients) status sql).2).length < s.length) :
    ∃ (description : RawMessage) (data : List RawMessage) (complete ready : RawMessage)
      (entries : List ClientEntry),
      readMessages scheds (writtenBytes (runQuery user database
          (fun _ => AdminConsole.handle w.stats total w.stats.clients) status sql).2) =
        ((description :: data ++ [complete, ready]).map .ok, []) ∧
      parseRowDescription description.payload =
        some [ascii "client_id", ascii "user", ascii "database", ascii "state"] ∧
      data.map (fun m => (parseDataRow m.payload).bind readClient) = entries.map some ∧
      Roster w.entry entries ∧
      parseCommandComplete complete.payload = some (ascii "SELECT " ++ decimal entries.length) ∧
      ready.payload = [status.code] := by
  have hkept := (kept_new mode maxSize replicas).run (by omega) hw
  rw [Nat.zero_add, Nat.zero_add] at hkept
  have hlen : w.stats.clients.length < 2 ^ 64 := by
    obtain ⟨ids, hids, hle⟩ := hkept.ids.roster
    have hshort := hkept.roster.length_le hids fun c hc => by
      obtain ⟨e, he⟩ := Option.isSome_iff_exists.mp hc
      rw [idOf_of_entry he]
      rfl
    omega
  have henc := encodable_clients hlen fun e he => by
    obtain ⟨c, hc⟩ := hkept.roster.mem_iff.mp he
    exact entry_values hc
  have hverb : verbOf sql = .other := verbOf_show (by rw [hsql]; decide)
  have hbytes := @writtenBytes_runQuery user database sql
    (fun _ => AdminConsole.handle w.stats total w.stats.clients) status _ _ _ hstatus hverb
    (handle_showClients hsql)
  have hrows := parseDataRow_entries henc
  rw [← List.append_nil (List.flatMap _ _)] at hbytes
  rw [hbytes] at hsched ⊢
  refine ⟨_, _, _, _, w.stats.clients, readMessages_frames (henc.isFrame status) [] ?_ hsched,
    parseRowDescription_build henc.columns_lt henc.names_noNul, hrows, hkept.roster, ?_, rfl⟩
  · rw [hcount, rowsMessages, List.length_append, List.length_cons, List.length_map, List.length_map,
      List.length_map]
    rfl
  · have hcomplete := parseCommandComplete_build henc.tag_noNul
    rw [List.length_map] at hcomplete
    rw [← hcomplete, List.length_map]
    rfl

theorem Bouncer.console_shows_clients_for_two : ∃ (w : Bouncer) (scheds : List (List Nat))
    (messages : List RawMessage) (entries : List ClientEntry),
    exec Bouncer.step (new .transaction 10 []) TwoClients.turns = some w ∧
    readMessages scheds (writtenBytes (runQuery [] []
      (fun _ => AdminConsole.handle w.stats 2 w.stats.clients) .idle (ascii " show Clients; ;")).2) =
      (messages.map .ok, []) ∧ Roster w.entry entries := by
  have hsql : consoleCommand (trimmedSql (ascii " show Clients; ;")).flatten = ascii "SHOW CLIENTS" := by
    decide +kernel
  obtain ⟨w, hw, hclients⟩ : ∃ w : Bouncer,
      exec Bouncer.step (new .transaction 10 []) TwoClients.turns = some w ∧
      w.stats.clients = [⟨1, ascii "alice", ascii "alice"⟩] := ⟨_, rfl, rfl⟩
  obtain ⟨n, hn⟩ : ∃ n, n = (writtenBytes (runQuery [] []
    (fun _ => AdminConsole.handle w.stats 2 w.stats.clients) .idle (ascii " show Clients; ;")).2).length :=
    ⟨_, rfl⟩
  obtain ⟨description, data, complete, ready, entries, hread, -, -, hroster, -⟩ :=
    @console_shows_clients .transaction 10 [] TwoClients.turns w hw (by decide) _ hsql .idle (by decide)
      [] [] 2 (List.replicate 4 (List.replicate (n + 1) 0)) (by rw [hclients]; rfl)
      (fun s hs => by
        obtain ⟨-, rfl⟩ := List.mem_replicate.mp hs
        rw [← hn, List.length_replicate]
        omega)
  exact ⟨w, _, _, entries, hw, hread, hroster⟩

end RamaPg.Pgbouncer
