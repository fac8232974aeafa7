import RamaPg.Pgbouncer.Authid
import RamaPg.Protocol.ResultSet

/-!
# What a lookup learns

The other side of the `pg_authid` lookup: a server that reads the query's text with the SQL lexer and
answers it from its table of roles, with whatever other messages it has to send in between. Whatever
the name in the client's startup packet, the store then learns what the table says about the role of
just that name.
-/

namespace RamaPg.Pgbouncer

open RamaPg.Lib RamaPg.Codec RamaPg.Startup RamaPg.Scram RamaPg.Pool

/-! ## The server -/

/-- `pg_authid`: the password text of a role, if there is such a role and it has one. -/
abbrev Catalog := Bytes → Option (Option Bytes)

/-- The rows of a query for the password of one role, which is all the server understands. -/
def Catalog.rows (catalog : Catalog) (sql : Bytes) : Option (List (List (Option Bytes))) :=
  match (SqlLexer.lex sql).bind List.getLast? with
  | some (.literal name) =>
    if SqlLexer.lex sql = some (selectTokens ++ [.literal name]) then
      some ((catalog name).toList.map fun password => [password])
    else none
  | _ => none

/-- A server's startup: it trusts the admin, and literals are standard. -/
structure TrustedStartup (pre : List RawMessage) (z : RawMessage) : Prop where
  trusting : ∀ m ∈ pre, Trusting m
  first : ∀ m ∈ pre, m.tag ≠ Tag.readyForQuery
  ready : z.tag = Tag.readyForQuery
  standard : lastTextReport pre = some (ascii "on")

/-- A server's answer to a query: the rows, each in a message of its own, among any messages that are
neither rows nor errors, up to `ReadyForQuery`. -/
structure Answers (catalog : Catalog) (query : RawMessage) (body : List RawMessage) (z : RawMessage) :
    Prop where
  rows : ∃ sql rows, query.payload = sql ++ [0] ∧ catalog.rows sql = some rows ∧
    (body.filter (·.tag = Tag.dataRow)).map RawMessage.frame = rows.map Message.dataRow
  plain : ∀ m ∈ body, m.tag ≠ Tag.readyForQuery ∧ m.tag ≠ Tag.errorResponse
  ready : z.tag = Tag.readyForQuery

theorem Catalog.rows_rolpasswordSql (catalog : Catalog) (rolname : Bytes) :
    catalog.rows (rolpasswordSql rolname) =
      some ((catalog rolname).toList.map fun password => [password]) := by
  unfold Catalog.rows
  rw [lex_rolpasswordSql, Option.bind_some, List.getLast?_concat]
  exact if_pos rfl

/-! ## The dialogue -/

/-- The messages of a connection that does not fail. -/
def arrived (ms : List RawMessage) : List Received := ms.map .ok

theorem adminStartup_trusted {pre : List RawMessage} {z : RawMessage} (rest : List Received)
    (htrust : ∀ m ∈ pre, Trusting m) (hfirst : ∀ m ∈ pre, m.tag ≠ Tag.readyForQuery)
    (hz : z.tag = Tag.readyForQuery) (flag : Bool) :
    adminStartup flag (arrived pre ++ .ok z :: rest) = some (.ok (flagAfter flag pre, rest)) := by
  induction pre generalizing flag with
  | nil =>
    rw [arrived, List.map_nil, List.nil_append, adminStartup, if_neg (by rw [hz]; decide),
      if_neg (by rw [hz]; decide), if_pos hz]
    rfl
  | cons m pre ih =>
    have hm := htrust m List.mem_cons_self
    have ih := ih (fun x hx => htrust x (.tail _ hx)) (fun x hx => hfirst x (.tail _ hx))
    rw [arrived, List.map_cons, List.cons_append, ← arrived, adminStartup]
    by_cases hauth : m.tag = Tag.authentication
    · have hsub : authSubtype m = 0 := authSubtype_eq_zero.mpr (hm.2 hauth)
      rw [if_pos hauth, if_neg (not_not_intro hsub), ih,
        flagAfter_other (by rw [hauth]; decide) flag pre]
    rw [if_neg hauth]
    by_cases hstatus : m.tag = Tag.parameterStatus
    · rw [if_pos hstatus, ih, noteStatus_eq hstatus, flagAfter_cons]
    rw [if_neg hstatus, if_neg (hfirst m List.mem_cons_self), if_neg hm.1, ih,
      flagAfter_other hstatus flag pre]

/-- The result loop ends with the first column of the last row. -/
theorem queryResult_body {body : List RawMessage} {z : RawMessage}
    (hplain : ∀ m ∈ body, m.tag ≠ Tag.readyForQuery ∧ m.tag ≠ Tag.errorResponse)
    (hz : z.tag = Tag.readyForQuery) (value : Option Bytes) :
    queryResult value (arrived (body ++ [z])) = some (.ok
      (((body.filter (·.tag = Tag.dataRow)).map fun m => firstColumn m.payload).getLast?.getD
        value)) := by
  induction body generalizing value with
  | nil =>
    rw [arrived, List.nil_append, List.map_cons, queryResult, if_neg (by rw [hz]; decide), if_pos hz]
    rfl
  | cons m body ih =>
    obtain ⟨hready, herr⟩ := hplain m List.mem_cons_self
    have ih := ih fun x hx => hplain x (.tail _ hx)
    rw [arrived, List.cons_append, List.map_cons, ← arrived, queryResult]
    by_cases hrow : m.tag = Tag.dataRow
    · rw [if_pos hrow, ih, List.filter_cons_of_pos (by simpa using hrow), List.map_cons,
        List.getLast?_cons, Option.getD_some]
    · rw [if_neg hrow, if_neg hready, if_neg herr, ih, List.filter_cons_of_neg (by simpa using hrow)]

/-- The column of a row with one column. -/
theorem firstColumn_dataRow {m : RawMessage} {password : Option Bytes}
    (hm : m.frame = Message.dataRow [password])
    (hp : ∀ text, password = some text → isUtf8 text = true ∧ text.length < 2 ^ 31) :
    firstColumn m.payload = password := by
  have hpayload : m.payload = i16ToBe 1 ++ Message.dataValue password := by
    have hbuild : m.frame =
        (RawMessage.build Tag.dataRow (i16ToBe 1 ++ Message.dataValue password)).frame := by
      rw [hm, Message.dataRow]
      simp [RawMessage.build]
    rw [RawMessage.payload, hbuild]
    exact RawMessage.payload_build _ _
  rw [hpayload]
  cases password with
  | none =>
    have hbytes := dataValue_none []
    rw [List.append_nil] at hbytes
    rw [hbytes]
    rfl
  | some text =>
    obtain ⟨hutf8, hlen⟩ := hp text rfl
    obtain ⟨a, b, c, d, hbytes, hword⟩ := dataValue_some hlen []
    rw [List.append_nil, List.append_nil] at hbytes
    have hcount : ¬ i16OfBe 0 1 < 1 := by decide
    rw [hbytes]
    show (if i16OfBe 0 1 < 1 then none else columnText (i32OfBe a b c d) text) = some text
    rw [if_neg hcount, columnText, hword, if_neg (by omega), Int.toNat_natCast, List.take_length,
      if_pos ⟨Nat.le_refl _, hutf8⟩]

/-- What `get_secret` makes of the role's password. -/
def usable (b64 : Base64) : Option (Option Bytes) → Except BoxError (Option ScramSecret)
  | some (some verifier) =>
    if (ascii "SCRAM-SHA-256$").isPrefixOf verifier then (ScramSecret.parse b64 verifier).map some
    else .ok none
  | some none => .ok none
  | none => .ok none

/-- The lookup in full: what was sent and what was learnt. -/
theorem fetchRolpassword_answered (store : PgAuthidStore) (rolname : Bytes) {pre body : List RawMessage}
    {ready z : RawMessage} {catalog : Catalog} (hstart : TrustedStartup pre ready)
    (htext : ∀ name password, catalog name = some (some password) →
      isUtf8 password = true ∧ password.length < 2 ^ 31)
    (hreply : Answers catalog (.build Tag.query (rolpasswordSql rolname ++ [0])) body z) :
    let lookup := store.fetchRolpassword rolname (.ok (arrived (pre ++ ready :: (body ++ [z]))))
    lookup.messages = [.build Tag.query (rolpasswordSql rolname ++ [0]), .build Tag.terminate []] ∧
      lookup.result = some (.ok (catalog rolname).join) := by
  have hincoming : arrived (pre ++ ready :: (body ++ [z])) =
      arrived pre ++ .ok ready :: arrived (body ++ [z]) := by
    rw [arrived, List.map_append, List.map_cons]
    rfl
  have hflag : flagAfter false pre = true := by
    rw [flagAfter, hstart.standard]
    rfl
  obtain ⟨sql, rows, hpayload, hrows, hframes⟩ := hreply.rows
  have hsql : sql = rolpasswordSql rolname := by
    rw [RawMessage.payload_build] at hpayload
    exact (List.append_cancel_right hpayload).symm
  rw [hsql, Catalog.rows_rolpasswordSql] at hrows
  cases hrows
  have hvalue : ((body.filter (·.tag = Tag.dataRow)).map fun m => firstColumn m.payload).getLast?.getD
      none = (catalog rolname).join := by
    cases hrole : catalog rolname with
    | none =>
      rw [hrole] at hframes
      rw [List.map_eq_nil_iff.mp hframes]
      rfl
    | some password =>
      rw [hrole] at hframes
      obtain ⟨m, hm, hframe⟩ := List.map_eq_singleton_iff.mp hframes
      rw [hm, List.map_singleton, List.getLast?_singleton, Option.getD_some]
      refine firstColumn_dataRow hframe fun text htext' => ?_
      exact htext rolname text (hrole.trans (congrArg some htext'))
  have hfetch : store.fetchRolpassword rolname (.ok (arrived (pre ++ ready :: (body ++ [z])))) =
      ⟨some (startupMessage [(ascii "user", store.adminUser),
          (ascii "database", store.adminDatabase)]),
        [.build Tag.query (rolpasswordSql rolname ++ [0]), .build Tag.terminate []],
        some (.ok (catalog rolname).join)⟩ := by
    simp only [PgAuthidStore.fetchRolpassword, fetchOpen, hincoming,
      adminStartup_trusted _ hstart.trusting hstart.first hstart.ready, hflag, ↓reduceIte,
      queryResult_body hreply.plain hreply.ready, hvalue]
  rw [hfetch]
  exact ⟨rfl, rfl⟩

/-- **A lookup learns what the table says of the one role.** For every name a client can put into its
startup packet, and every trusting server that reads the query as SQL and answers it from its table:
the one query and a `Terminate` are sent, the secret is the verifier of the role of exactly that name,
and there is none when there is no such role, or it has no password or none for SCRAM. -/
theorem lookup_learns_the_role (b64 : Base64) (store : PgAuthidStore) (lookup : SecretLookup)
    {pre body : List RawMessage} {ready z : RawMessage} {catalog : Catalog}
    (hstart : TrustedStartup pre ready)
    (htext : ∀ name password, catalog name = some (some password) →
      isUtf8 password = true ∧ password.length < 2 ^ 31)
    (hreply : ∀ m ∈ (store.fetchRolpassword lookup.user (.ok (arrived (pre ++ [ready])))).messages,
      m.tag = Tag.query → Answers catalog m body z) :
    let connection : Except IoError (List Received) := .ok (arrived (pre ++ ready :: (body ++ [z])))
    (store.fetchRolpassword lookup.user connection).messages.map RawMessage.tag =
      [Tag.query, Tag.terminate] ∧
    store.getSecret b64 lookup connection = some (usable b64 (catalog lookup.user)) ∧
    (∀ secret : ScramSecret, catalog lookup.user = some (some (secret.toVerifierString b64)) →
      store.getSecret b64 lookup connection = some (.ok (some secret))) ∧
    (∀ secret, store.getSecret b64 lookup connection = some (.ok (some secret)) →
      ∃ verifier, catalog lookup.user = some (some verifier) ∧
        ScramSecret.parse b64 verifier = .ok secret) := by
  have hmessage : RawMessage.build Tag.query (rolpasswordSql lookup.user ++ [0]) ∈
      (store.fetchRolpassword lookup.user (.ok (arrived (pre ++ [ready])))).messages := by
    have hincoming : arrived (pre ++ [ready]) = arrived pre ++ .ok ready :: [] := by
      rw [arrived, List.map_append]
      rfl
    have hflag : flagAfter false pre = true := by
      rw [flagAfter, hstart.standard]
      rfl
    simp only [PgAuthidStore.fetchRolpassword, fetchOpen, hincoming,
      adminStartup_trusted _ hstart.trusting hstart.first hstart.ready, hflag, ↓reduceIte, queryResult,
      List.mem_singleton]
  obtain ⟨hmessages, hresult⟩ :=
    fetchRolpassword_answered store lookup.user hstart htext (hreply _ hmessage rfl)
  have hsecret : store.getSecret b64 lookup (.ok (arrived (pre ++ ready :: (body ++ [z])))) =
      some (usable b64 (catalog lookup.user)) := by
    rw [PgAuthidStore.getSecret, hresult]
    rcases catalog lookup.user with - | - | verifier
    · rfl
    · rfl
    · simp only [Option.join_some, usable]
      split
      · cases ScramSecret.parse b64 verifier <;> rfl
      · rfl
  refine ⟨by rw [hmessages]; rfl, hsecret, fun secret hrole => ?_, fun secret hs => ?_⟩
  · have hprefix : (ascii "SCRAM-SHA-256$").isPrefixOf (secret.toVerifierString b64) = true := by
      rw [List.isPrefixOf_iff_prefix]
      exact ⟨_, rfl⟩
    rw [hsecret, hrole, usable, if_pos hprefix, ScramSecret.parse_toVerifierString]
    rfl
  · rw [hsecret] at hs
    rcases hrole : catalog lookup.user with - | - | verifier
    · rw [hrole] at hs; cases hs
    · rw [hrole] at hs; cases hs
    · rw [hrole, usable] at hs
      refine ⟨verifier, rfl, ?_⟩
      split at hs
      · cases hp : ScramSecret.parse b64 verifier with
        | ok s => rw [hp] at hs; cases hs; rfl
        | error e => rw [hp] at hs; cases hs
      · cases hs

namespace Admin

/-- One role, whose name has a quote and a statement of its own in it. -/
def catalog : Catalog := fun name => if name = rolname then some (some Verifier.signed) else none

def row : RawMessage := .build Tag.dataRow (i16ToBe 1 ++ Message.dataValue (some Verifier.signed))

end Admin

theorem lookup_learns_the_role_when_quoted :
    Admin.store.getSecret Base64.standard ⟨Admin.rolname, none, none⟩
      (.ok (arrived ([Admin.authOk, Admin.report (ascii "on")] ++
        Admin.ready :: ([Admin.row] ++ [Admin.ready])))) = some (.ok (some Verifier.secret)) := by
  have hrole : Admin.catalog Admin.rolname = some (some Verifier.signed) := if_pos rfl
  have hstart : TrustedStartup [Admin.authOk, Admin.report (ascii "on")] Admin.ready := by
    refine ⟨?_, by decide, rfl, by decide⟩
    intro m hm
    refine ⟨?_, fun hauth => ?_⟩
    · revert m hm
      decide
    · revert m hm
      decide
  have htext : ∀ name password, Admin.catalog name = some (some password) →
      isUtf8 password = true ∧ password.length < 2 ^ 31 := by
    intro name password h
    unfold Admin.catalog at h
    split at h
    · cases h
      have hlen : Verifier.signed.length ≤ 200 := by decide +kernel
      exact ⟨isUtf8_of_isAscii (by decide +kernel), by omega⟩
    · cases h
  have hrow : Admin.row.tag = Tag.dataRow := RawMessage.tag_build _ _
  have hreply : ∀ m ∈ (Admin.store.fetchRolpassword Admin.rolname
      (.ok (arrived ([Admin.authOk, Admin.report (ascii "on")] ++ [Admin.ready])))).messages,
      m.tag = Tag.query → Answers Admin.catalog m [Admin.row] Admin.ready := by
    intro m hm hq
    rw [PgAuthidStore.fetchRolpassword] at hm
    rw [(query_sent hm hq).1]
    refine ⟨⟨_, _, RawMessage.payload_build _ _, Admin.catalog.rows_rolpasswordSql Admin.rolname, ?_⟩,
      ?_, rfl⟩
    · rw [hrole, List.filter_cons_of_pos (by rw [hrow]; rfl)]
      show [Admin.row.frame] = [Message.dataRow [some Verifier.signed]]
      rw [Message.dataRow, List.flatMap_singleton]
      rfl
    · intro x hx
      rw [List.mem_singleton.mp hx, hrow]
      decide
  have husable : usable Base64.standard (Admin.catalog Admin.rolname) = .ok (some Verifier.secret) := by
    have hparse : ScramSecret.parse Base64.standard Verifier.signed = .ok Verifier.secret := by
      decide +kernel
    have hprefix : (ascii "SCRAM-SHA-256$").isPrefixOf Verifier.signed = true := by
      decide +kernel
    rw [hrole, usable, if_pos hprefix, hparse]
    rfl
  rw [← husable]
  exact (lookup_learns_the_role Base64.standard Admin.store ⟨Admin.rolname, none, none⟩ hstart htext
    hreply).2.1

end RamaPg.Pgbouncer
