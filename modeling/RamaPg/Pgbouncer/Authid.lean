import RamaPg.Lib.SqlLexer
import RamaPg.Pool.Connector

/-!
# The `pg_authid` lookup

The model of `pg_authid.rs`: a store that asks the backend for a role's verifier over a connection of
its own. A run is given what `read_message` returned, one result after the other; it is waiting when
these run out. The role name is the client's, and it goes into the query as a string literal: the
query is sent only once the server has reported `standard_conforming_strings` as on, and then its
last token is a literal with exactly the role name as its value.
-/

namespace RamaPg.Pgbouncer

open RamaPg.Lib RamaPg.Codec RamaPg.Startup RamaPg.Scram RamaPg.Pool

structure PgAuthidStore where
  address : Bytes
  adminUser : Bytes
  adminDatabase : Bytes

/-- What one `read_message` returned. -/
abbrev Received := Except IoError RawMessage

/-! ## Payloads -/

/-- `parse_parameter_status`: the first two of the strings the NULs separate. -/
def parseParameterStatus (payload : Bytes) : Option (Bytes × Bytes) :=
  match payload.splitOn 0 with
  | name :: value :: _ => if isUtf8 name ∧ isUtf8 value then some (name, value) else none
  | _ => none

/-- The value of a column, from behind its length. -/
def columnText (len : Int) (body : Bytes) : Option Bytes :=
  if len < 0 then none
  else if len.toNat ≤ body.length ∧ isUtf8 (body.take len.toNat) then some (body.take len.toNat)
  else none

/-- `first_column`. -/
def firstColumn (payload : Bytes) : Option Bytes :=
  match payload with
  | a :: b :: c :: d :: e :: f :: body =>
    if i16OfBe a b < 1 then none else columnText (i32OfBe c d e f) body
  | _ => none

/-! ## The dialogue -/

def scsName : Bytes := ascii "standard_conforming_strings"

/-- The flag after a `ParameterStatus`. -/
def noteStatus (standardConformingStrings : Bool) (payload : Bytes) : Bool :=
  match parseParameterStatus payload with
  | some (name, value) => if name = scsName then value = ascii "on" else standardConformingStrings
  | none => standardConformingStrings

/-- The startup loop: the flag at `ReadyForQuery` and what is left to read. -/
def adminStartup (standardConformingStrings : Bool) :
    List Received → Option (Except BoxError (Bool × List Received))
  | [] => none
  | .error e :: _ => some (.error (.io e))
  | .ok m :: ms =>
    if m.tag = Tag.authentication then
      if authSubtype m ≠ 0 then
        some (.error (.text "pg_authid admin connection requires auth (trust only)"))
      else adminStartup standardConformingStrings ms
    else if m.tag = Tag.parameterStatus then
      adminStartup (noteStatus standardConformingStrings m.payload) ms
    else if m.tag = Tag.readyForQuery then some (.ok (standardConformingStrings, ms))
    else if m.tag = Tag.errorResponse then
      some (.error (.text "pg_authid admin startup rejected"))
    else adminStartup standardConformingStrings ms

/-- The result loop; a later row overwrites an earlier one. -/
def queryResult (value : Option Bytes) : List Received → Option (Except BoxError (Option Bytes))
  | [] => none
  | .error e :: _ => some (.error (.io e))
  | .ok m :: ms =>
    if m.tag = Tag.dataRow then queryResult (firstColumn m.payload) ms
    else if m.tag = Tag.readyForQuery then some (.ok value)
    else if m.tag = Tag.errorResponse then some (.error (.text "pg_authid query failed"))
    else queryResult value ms

def selectRolpassword : Bytes := ascii "SELECT rolpassword FROM pg_authid WHERE rolname = "

/-- The query's text; `replace` doubles the quotes of the name. -/
def rolpasswordSql (rolname : Bytes) : Bytes :=
  selectRolpassword ++ 39 :: (SqlLexer.escapeQuotes rolname ++ [39])

/-- A lookup so far: the startup packet, the messages sent after it and how it ended. -/
structure Lookup where
  startup : Option Bytes
  messages : List RawMessage
  result : Option (Except BoxError (Option Bytes))

/-- `fetch_rolpassword` once the connection is open. -/
def fetchOpen (startup rolname : Bytes) (incoming : List Received) : Lookup :=
  match adminStartup false incoming with
  | none => ⟨some startup, [], none⟩
  | some (.error e) => ⟨some startup, [], some (.error e)⟩
  | some (.ok (standardConformingStrings, rest)) =>
    if standardConformingStrings then
      let query := RawMessage.build Tag.query (rolpasswordSql rolname ++ [0])
      match queryResult none rest with
      | some (.ok value) =>
        ⟨some startup, [query, RawMessage.build Tag.terminate []], some (.ok value)⟩
      | result => ⟨some startup, [query], result⟩
    else
      ⟨some startup, [], some (.error (.text ("pg_authid admin connection: " ++
        "standard_conforming_strings is not 'on'; refusing to interpolate the role name into SQL")))⟩

/-- `fetch_rolpassword`, with what the connection brings if it can be opened. -/
def PgAuthidStore.fetchRolpassword (store : PgAuthidStore) (rolname : Bytes)
    (connection : Except IoError (List Received)) : Lookup :=
  match connection with
  | .error e => ⟨none, [], some (.error (.io e))⟩
  | .ok incoming =>
    fetchOpen (startupMessage [(ascii "user", store.adminUser),
      (ascii "database", store.adminDatabase)]) rolname incoming

/-- `get_secret`: a password that is no SCRAM verifier is not usable. -/
def PgAuthidStore.getSecret (b64 : Base64) (store : PgAuthidStore) (lookup : SecretLookup)
    (connection : Except IoError (List Received)) : Option (Except BoxError (Option ScramSecret)) :=
  match (store.fetchRolpassword lookup.user connection).result with
  | none => none
  | some (.error e) => some (.error e)
  | some (.ok none) => some (.ok none)
  | some (.ok (some verifier)) =>
    if (ascii "SCRAM-SHA-256$").isPrefixOf verifier then
      match ScramSecret.parse b64 verifier with
      | .ok secret => some (.ok (some secret))
      | .error e => some (.error e)
    else some (.ok none)

/-! ## When the query is sent -/

/-- The messages before `ReadyForQuery`, once it has come. -/
def beforeReady : List Received → Option (List RawMessage)
  | [] => none
  | .error _ :: _ => none
  | .ok m :: ms => if m.tag = Tag.readyForQuery then some [] else (beforeReady ms).map (m :: ·)

/-- Neither an error nor a demand for authentication. -/
def Trusting (m : RawMessage) : Prop :=
  m.tag ≠ Tag.errorResponse ∧ (m.tag = Tag.authentication → subtypeOf m.payload = some Auth.ok)

/-- The value a `ParameterStatus` reports for `standard_conforming_strings`. -/
def reportedValue (m : RawMessage) : Option Bytes :=
  if m.tag = Tag.parameterStatus then
    match m.payload.splitOn 0 with
    | name :: value :: _ => if name = scsName then some value else none
    | _ => none
  else none

/-- The last value reported. -/
def lastReport (ms : List RawMessage) : Option Bytes := (ms.filterMap reportedValue).getLast?

/-- The last value reported that is text. -/
def lastTextReport (ms : List RawMessage) : Option Bytes :=
  ((ms.filterMap reportedValue).filter isUtf8).getLast?

theorem authSubtype_eq_zero {m : RawMessage} :
    authSubtype m = 0 ↔ subtypeOf m.payload = some Auth.ok := by
  unfold authSubtype
  cases subtypeOf m.payload with
  | none => simp
  | some n => simp [Auth.ok]

theorem isUtf8_scsName : isUtf8 scsName = true := isUtf8_of_isAscii (by decide)

/-- A report that is text sets the flag, anything else leaves it. -/
theorem noteStatus_eq {m : RawMessage} (h : m.tag = Tag.parameterStatus) (flag : Bool) :
    noteStatus flag m.payload =
      match (reportedValue m).filter isUtf8 with
      | some value => decide (value = ascii "on")
      | none => flag := by
  unfold noteStatus parseParameterStatus reportedValue
  rw [if_pos h]
  cases m.payload.splitOn 0 with
  | nil => rfl
  | cons name rest =>
    cases rest with
    | nil => rfl
    | cons value rest =>
      by_cases hname : name = scsName
      · subst hname
        by_cases hvalue : isUtf8 value = true
        · simp [isUtf8_scsName, hvalue, Option.filter]
        · simp [isUtf8_scsName, hvalue, Option.filter]
      · by_cases hboth : isUtf8 name = true ∧ isUtf8 value = true
        · simp [hname, hboth]
        · simp only [hname, hboth, ↓reduceIte]
          rfl

/-- The flag the loop ends with. -/
def flagAfter (flag : Bool) (ms : List RawMessage) : Bool :=
  match lastTextReport ms with
  | some value => value = ascii "on"
  | none => flag

theorem flagAfter_cons (flag : Bool) (m : RawMessage) (ms : List RawMessage) :
    flagAfter flag (m :: ms) =
      flagAfter (match (reportedValue m).filter isUtf8 with
        | some value => decide (value = ascii "on")
        | none => flag) ms := by
  unfold flagAfter lastTextReport
  rw [List.filterMap_cons]
  cases hv : reportedValue m with
  | none => simp
  | some value =>
    by_cases hu : isUtf8 value = true
    · simp only [List.filter_cons, hu, ↓reduceIte, List.getLast?_cons, Option.filter_some]
      cases ((ms.filterMap reportedValue).filter isUtf8).getLast? with
      | none => rfl
      | some last => rfl
    · simp [hu, Option.filter]

theorem reportedValue_other {m : RawMessage} (h : m.tag ≠ Tag.parameterStatus) :
    reportedValue m = none := by
  simp [reportedValue, h]

theorem flagAfter_other {m : RawMessage} (h : m.tag ≠ Tag.parameterStatus) (flag : Bool)
    (ms : List RawMessage) : flagAfter flag (m :: ms) = flagAfter flag ms := by
  rw [flagAfter_cons, reportedValue_other h]
  rfl

/-- One more message before `ReadyForQuery`. -/
theorem beforeReady_cons {m : RawMessage} {ms : List Received} {pre : List RawMessage}
    (hne : m.tag ≠ Tag.readyForQuery) (hm : Trusting m) (hpre : beforeReady ms = some pre)
    (htrust : ∀ x ∈ pre, Trusting x) :
    beforeReady (.ok m :: ms) = some (m :: pre) ∧ ∀ x ∈ m :: pre, Trusting x := by
  constructor
  · simp [beforeReady, hne, hpre]
  · exact List.forall_mem_cons.mpr ⟨hm, htrust⟩

/-- What the startup loop has passed when it ends at `ReadyForQuery`. -/
theorem adminStartup_ok {flag flag' : Bool} {incoming rest : List Received}
    (h : adminStartup flag incoming = some (.ok (flag', rest))) :
    ∃ pre, beforeReady incoming = some pre ∧ (∀ m ∈ pre, Trusting m) ∧
      flag' = flagAfter flag pre := by
  fun_induction adminStartup flag incoming with
  | case1 => cases h
  | case2 => cases h
  | case3 => cases h
  | case4 flag m ms htag hsub ih =>
    obtain ⟨pre, hpre, htrust, rfl⟩ := ih h
    have hm : Trusting m :=
      ⟨by rw [htag]; decide, fun _ => authSubtype_eq_zero.mp (by simpa using hsub)⟩
    obtain ⟨hpre, htrust⟩ := beforeReady_cons (by rw [htag]; decide) hm hpre htrust
    exact ⟨m :: pre, hpre, htrust, (flagAfter_other (by rw [htag]; decide) flag pre).symm⟩
  | case5 flag m ms hauth htag ih =>
    obtain ⟨pre, hpre, htrust, rfl⟩ := ih h
    have hm : Trusting m := ⟨by rw [htag]; decide, fun hm => absurd hm hauth⟩
    obtain ⟨hpre, htrust⟩ := beforeReady_cons (by rw [htag]; decide) hm hpre htrust
    exact ⟨m :: pre, hpre, htrust, by rw [flagAfter_cons, noteStatus_eq htag]⟩
  | case6 flag m ms hauth hstatus htag =>
    cases h
    exact ⟨[], by simp [beforeReady, htag], by simp, rfl⟩
  | case7 => cases h
  | case8 flag m ms hauth hstatus hready herr ih =>
    obtain ⟨pre, hpre, htrust, rfl⟩ := ih h
    have hm : Trusting m := ⟨herr, fun hm => absurd hm hauth⟩
    obtain ⟨hpre, htrust⟩ := beforeReady_cons hready hm hpre htrust
    exact ⟨m :: pre, hpre, htrust, (flagAfter_other hstatus flag pre).symm⟩

/-- The only query sent is the one for the role, and only with the flag set. -/
theorem query_sent {startup rolname : Bytes} {incoming : List Received} {m : RawMessage}
    (hm : m ∈ (fetchOpen startup rolname incoming).messages) (hq : m.tag = Tag.query) :
    m = RawMessage.build Tag.query (rolpasswordSql rolname ++ [0]) ∧
      ∃ rest, adminStartup false incoming = some (.ok (true, rest)) := by
  unfold fetchOpen at hm
  split at hm
  · cases hm
  · cases hm
  · rename_i flag rest hs
    split at hm
    · rename_i hflag
      subst hflag
      refine ⟨?_, rest, hs⟩
      dsimp only at hm
      split at hm
      · rcases List.mem_cons.mp hm with rfl | hm
        · rfl
        · obtain rfl := List.mem_singleton.mp hm
          exact absurd hq (by decide)
      · exact List.mem_singleton.mp hm
    · cases hm

/-! ## What the query says -/

open SqlLexer in
/-- The tokens before the literal. -/
def selectTokens : List Token :=
  [.word (ascii "SELECT"), .word (ascii "rolpassword"), .word (ascii "FROM"),
   .word (ascii "pg_authid"), .word (ascii "WHERE"), .word (ascii "rolname"), .operator 61]

theorem feed_selectRolpassword :
    SqlLexer.feed ([], .start) selectRolpassword = (selectTokens, .start) := by
  decide

theorem lex_rolpasswordSql (rolname : Bytes) :
    SqlLexer.lex (rolpasswordSql rolname) = some (selectTokens ++ [.literal rolname]) :=
  SqlLexer.lex_literal feed_selectRolpassword rolname

/-- The text has no NUL but the one that ends it. -/
theorem nul_not_mem_rolpasswordSql {rolname : Bytes} (h : 0 ∉ rolname) :
    0 ∉ rolpasswordSql rolname := by
  have hfix : 0 ∉ selectRolpassword := by decide
  have hname : 0 ∉ SqlLexer.escapeQuotes rolname := by
    unfold SqlLexer.escapeQuotes
    intro hmem
    obtain ⟨b, hb, hmem⟩ := List.mem_flatMap.mp hmem
    split at hmem
    · simp at hmem
    · obtain rfl := List.mem_singleton.mp hmem
      exact h hb
  simp [rolpasswordSql, hfix, hname]

/-- A query is sent only behind a startup without errors or authentication whose last readable
report of `standard_conforming_strings` is on, and the role name is all of its one literal. -/
theorem lookup_not_injectable (store : PgAuthidStore) (rolname : Bytes) (h0 : 0 ∉ rolname)
    (incoming : List Received) (m : RawMessage)
    (hm : m ∈ (store.fetchRolpassword rolname (.ok incoming)).messages) (hq : m.tag = Tag.query) :
    (∃ pre, beforeReady incoming = some pre ∧ (∀ x ∈ pre, Trusting x) ∧
      lastTextReport pre = some (ascii "on")) ∧
    ∃ sql, m.payload = sql ++ [0] ∧ 0 ∉ sql ∧
      SqlLexer.lex sql = some (selectTokens ++ [.literal rolname]) := by
  obtain ⟨rfl, rest, hs⟩ := query_sent hm hq
  constructor
  · obtain ⟨pre, hpre, htrust, hflag⟩ := adminStartup_ok hs
    refine ⟨pre, hpre, htrust, ?_⟩
    unfold flagAfter at hflag
    split at hflag
    · rename_i value hlast
      rw [hlast, of_decide_eq_true hflag.symm]
    · cases hflag
  · exact ⟨rolpasswordSql rolname, rfl, nul_not_mem_rolpasswordSql h0, lex_rolpasswordSql rolname⟩

namespace Admin

def store : PgAuthidStore := ⟨ascii "127.0.0.1:5432", ascii "postgres", ascii "postgres"⟩

def authOk : RawMessage := .build Tag.authentication (i32ToBe 0)

/-- A report of `standard_conforming_strings`. -/
def report (value : Bytes) : RawMessage := .build Tag.parameterStatus (scsName ++ 0 :: (value ++ [0]))

def ready : RawMessage := .build Tag.readyForQuery [73]

def trusted : List Received := [.ok authOk, .ok (report (ascii "on")), .ok ready]

/-- The second report is no text. -/
def garbled : List Received :=
  [.ok authOk, .ok (report (ascii "on")), .ok (report [0xFF]), .ok ready]

/-- A role name with quotes, a backslash and a statement of its own. -/
def rolname : Bytes := ascii "x\\'; DROP TABLE t --"

end Admin

theorem lookup_quoted_role :
    ∃ m ∈ (Admin.store.fetchRolpassword Admin.rolname (.ok Admin.trusted)).messages,
      m.tag = Tag.query ∧ ∃ sql, m.payload = sql ++ [0] ∧ 0 ∉ sql ∧
        SqlLexer.lex sql = some (selectTokens ++ [.literal Admin.rolname]) := by
  have hm : RawMessage.build Tag.query (rolpasswordSql Admin.rolname ++ [0]) ∈
      (Admin.store.fetchRolpassword Admin.rolname (.ok Admin.trusted)).messages := by
    decide +kernel
  exact ⟨_, hm, rfl, (lookup_not_injectable Admin.store Admin.rolname (by decide) Admin.trusted _ hm
    rfl).2⟩

/-- A report that is no text does not take back an earlier one: the query is sent although the last
value reported is not on. -/
theorem lookup_garbled_report :
    ¬ ∀ (store : PgAuthidStore) (rolname : Bytes), 0 ∉ rolname → isUtf8 rolname = true →
      ∀ (incoming : List Received) (m : RawMessage),
        m ∈ (store.fetchRolpassword rolname (.ok incoming)).messages → m.tag = Tag.query →
        ∃ pre, beforeReady incoming = some pre ∧ (∀ x ∈ pre, Trusting x) ∧
          lastReport pre = some (ascii "on") := by
  intro h
  have hm : RawMessage.build Tag.query (rolpasswordSql Admin.rolname ++ [0]) ∈
      (Admin.store.fetchRolpassword Admin.rolname (.ok Admin.garbled)).messages := by
    decide +kernel
  obtain ⟨pre, hpre, -, hlast⟩ := h Admin.store Admin.rolname (by decide)
    (isUtf8_of_isAscii (by decide)) Admin.garbled _ hm rfl
  have hgarbled : beforeReady Admin.garbled =
      some [Admin.authOk, Admin.report (ascii "on"), Admin.report [0xFF]] := by decide +kernel
  obtain rfl := Option.some.inj (hpre.symm.trans hgarbled)
  have hvalue : lastReport [Admin.authOk, Admin.report (ascii "on"), Admin.report [0xFF]] =
      some [0xFF] := by decide +kernel
  rw [hvalue] at hlast
  exact absurd hlast (by decide)

end RamaPg.Pgbouncer
