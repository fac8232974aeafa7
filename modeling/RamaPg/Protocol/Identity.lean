import RamaPg.Protocol.Startup

/-!
# Whom the proxy and the backend take a client for

The proxy authenticates, pools and caches by the first `user` and `database` parameters of the
startup packet it parsed; it then replays the packet verbatim. A PostgreSQL backend scans the same
list in order and lets a later occurrence overwrite an earlier one, takes a missing or empty
database for the user's name, and refuses a packet without a user name.
-/

namespace RamaPg.Startup

open RamaPg.Lib RamaPg.Codec

/-- The `(user, database)` pair the proxy authenticates and uses as pool and cache key. -/
def proxyIdentity (m : StartupMessage) : Bytes × Bytes := (m.user.getD [], m.database.getD [])

/-- What a backend has read from a parameter list. -/
structure PgPort where
  userName : Option Bytes
  databaseName : Option Bytes

/-- The backend's scan: a later occurrence overwrites an earlier one. -/
def pgScan : PgPort → List (Bytes × Bytes) → PgPort
  | port, [] => port
  | port, (k, v) :: ps =>
    if k = ascii "database" then pgScan { port with databaseName := some v } ps
    else if k = ascii "user" then pgScan { port with userName := some v } ps
    else pgScan port ps

/-- The pair a backend derives from a parameter list; `none` when it refuses the packet. -/
def pgIdentity (ps : List (Bytes × Bytes)) : Option (Bytes × Bytes) :=
  let port := pgScan ⟨none, none⟩ ps
  match port.userName with
  | none | some [] => none
  | some u => some (u, match port.databaseName with
    | none | some [] => u
    | some d => d)

/-- The pair a backend derives from a startup frame. -/
def pgIdentityOfFrame (frame : Bytes) : Option (Bytes × Bytes) :=
  match StartupRequest.parse frame with
  | .ok (.startup m) => pgIdentity m.parameters
  | _ => none

/-- The frames `PgSession` goes on to authenticate: startup messages of protocol 3. -/
def sessionAccepts (frame : Bytes) : Option StartupMessage :=
  match StartupRequest.parse frame with
  | .ok (.startup m) => if m.protocolMajor = 3 then some m else none
  | _ => none

/-- The values a key has in a parameter list, in order. -/
def valuesOf (key : Bytes) (ps : List (Bytes × Bytes)) : List Bytes :=
  (ps.filter fun p => p.1 == key).map (·.2)

/-- The first and the last `user` agree, and so do the first and the last `database`, an empty
last one counting as the user's name. -/
def Unambiguous (ps : List (Bytes × Bytes)) : Prop :=
  let users := valuesOf (ascii "user") ps
  let dbs := valuesOf (ascii "database") ps
  users.head? = users.getLast? ∧
    (dbs = [] ∨ (dbs.getLast? ≠ some [] ∧ dbs.head? = dbs.getLast?) ∨
      (dbs.getLast? = some [] ∧ dbs.head? = users.getLast?))

instance (ps : List (Bytes × Bytes)) : Decidable (Unambiguous ps) :=
  inferInstanceAs (Decidable (_ ∧ _))

theorem get_eq_head? (m : StartupMessage) (key : Bytes) :
    m.get key = (valuesOf key m.parameters).head? := by
  unfold StartupMessage.get valuesOf
  induction m.parameters with
  | nil => rfl
  | cons p ps ih =>
    simp only [List.find?_cons, List.filter_cons]
    split <;> simp_all

/-- The scan keeps the last occurrence of each key. -/
theorem pgScan_eq (ps : List (Bytes × Bytes)) : ∀ port, pgScan port ps =
    ⟨(valuesOf (ascii "user") ps).getLast?.or port.userName,
      (valuesOf (ascii "database") ps).getLast?.or port.databaseName⟩ := by
  have hne : ascii "database" ≠ ascii "user" := by decide
  have hlast : ∀ (v : Bytes) (l : List Bytes) (o : Option Bytes),
      (v :: l).getLast?.or o = l.getLast?.or (some v) := by
    intro v l o
    rw [List.getLast?_cons]
    cases l.getLast? <;> rfl
  induction ps with
  | nil => intro port; rfl
  | cons p ps ih =>
    intro port
    obtain ⟨k, v⟩ := p
    rw [pgScan]
    split
    · rename_i hk
      subst hk
      simp only [ih, valuesOf, List.filter_cons, beq_self_eq_true, ↓reduceIte, List.map_cons, hlast]
      simp [hne]
    · split
      · rename_i hk
        subst hk
        simp only [ih, valuesOf, List.filter_cons, beq_self_eq_true, ↓reduceIte, List.map_cons, hlast]
        simp [hne.symm]
      · rename_i hd hu
        simp [ih, valuesOf, hd, hu]

/-- A backend accepts a list whose last `user` is a name, and derives its pair from the last
occurrences. -/
theorem pgIdentity_eq_some {ps : List (Bytes × Bytes)} {u d : Bytes} (h : pgIdentity ps = some (u, d)) :
    (valuesOf (ascii "user") ps).getLast? = some u ∧
      d = match (valuesOf (ascii "database") ps).getLast? with
        | none | some [] => u
        | some d => d := by
  unfold pgIdentity at h
  simp only [pgScan_eq, Option.or_none] at h
  split at h
  · cases h
  · cases h
  · rename_i u' _ hu
    cases h
    exact ⟨hu, rfl⟩

theorem proxyIdentity_eq (m : StartupMessage) : proxyIdentity m =
    ((valuesOf (ascii "user") m.parameters).head?.getD [],
      ((valuesOf (ascii "database") m.parameters).head?.or
        (valuesOf (ascii "user") m.parameters).head?).getD []) := by
  simp [proxyIdentity, StartupMessage.user, StartupMessage.database, get_eq_head?]

theorem sessionAccepts_parse {frame : Bytes} {m : StartupMessage} (h : sessionAccepts frame = some m) :
    StartupRequest.parse frame = .ok (.startup m) := by
  unfold sessionAccepts at h
  split at h
  · rename_i m' hp
    split at h
    · cases h; exact hp
    · cases h
  · cases h

theorem pgIdentityOfFrame_replayed {frame : Bytes} {m : StartupMessage}
    (h : sessionAccepts frame = some m) : pgIdentityOfFrame m.frame = pgIdentity m.parameters := by
  have hp := sessionAccepts_parse h
  unfold pgIdentityOfFrame
  rw [StartupRequest.parse_raw hp, hp]

/-- **Identity agreement.** On a frame both accept, the proxy and the backend take the client for
the same user and database exactly when the parameter list is unambiguous. -/
theorem identity_agrees_iff {frame : Bytes} {m : StartupMessage} {id : Bytes × Bytes}
    (hs : sessionAccepts frame = some m) (hb : pgIdentityOfFrame m.frame = some id) :
    proxyIdentity m = id ↔ Unambiguous m.parameters := by
  obtain ⟨u, d⟩ := id
  rw [pgIdentityOfFrame_replayed hs] at hb
  obtain ⟨hu, hd⟩ := pgIdentity_eq_some hb
  rw [proxyIdentity_eq]
  unfold Unambiguous
  -- Only the first and the last values of the two keys matter.
  generalize valuesOf (ascii "user") m.parameters = users at hu
  generalize valuesOf (ascii "database") m.parameters = dbs at hd
  cases users with
  | nil => simp at hu
  | cons u₀ us =>
    simp only [hu, List.head?_cons, Option.getD_some, Prod.mk.injEq, Option.some.injEq]
    refine and_congr_right fun hu₀ => ?_
    subst hu₀
    cases dbs with
    | nil => simp [hd]
    | cons d₀ ds =>
      obtain ⟨l, hl⟩ : ∃ l, (d₀ :: ds).getLast? = some l := ⟨_, List.getLast?_cons⟩
      rw [hl] at hd ⊢
      cases l with
      | nil => simp [hd]
      | cons x xs => simp [hd]

def aliceAsPostgres : Bytes := startupMessage
  [(ascii "user", ascii "alice"), (ascii "database", ascii "app"), (ascii "user", ascii "postgres")]

/-- A packet that names two users: the proxy serves it as `alice`, the backend as `postgres`. -/
theorem identity_disagrees_on_repeated_user :
    (sessionAccepts aliceAsPostgres).map proxyIdentity = some (ascii "alice", ascii "app") ∧
      (sessionAccepts aliceAsPostgres).bind (fun m => pgIdentityOfFrame m.frame) =
        some (ascii "postgres", ascii "app") := by
  decide +kernel

def aliceInApp : Bytes := startupMessage
  [(ascii "user", ascii "alice"), (ascii "database", ascii "app")]

theorem identity_agrees_for_alice :
    ∃ m, sessionAccepts aliceInApp = some m ∧
      (proxyIdentity m = (ascii "alice", ascii "app") ↔ Unambiguous m.parameters) :=
  ⟨⟨.v3_0, [(ascii "user", ascii "alice"), (ascii "database", ascii "app")], aliceInApp⟩,
    by decide +kernel,
    @identity_agrees_iff aliceInApp _ _ (by decide +kernel) (by decide +kernel)⟩

end RamaPg.Startup
