import RamaPg.Lib.Trim
import RamaPg.Pool.Control
import Mathlib.Data.List.AList

/-!
# The configuration file

The INI parser of the example, and what a text means that it reads: a document is a list of lines, each
a section header, a setting or nothing, written with any white space, comments and noise. Every text is
the rendering of one document, and the configuration has the last setting of each key, whatever order
the maps have.
-/

namespace RamaPg.Pgbouncer

open RamaPg.Lib RamaPg.Pool

/-- An ASCII text, as its characters. -/
def str (s : String) : Str := chars (ascii s)

def newline : Bytes := [10]
def carriageReturn : Bytes := [13]
def equals : Bytes := [61]
def semicolon : Bytes := [59]
def hash : Bytes := [35]
def openBracket : Bytes := [91]
def closeBracket : Bytes := [93]

/-! ## The parser -/

/-- `strip_suffix` of a character. -/
def stripLast (c : Bytes) (s : Str) : Option Str := if s.getLast? = some c then some s.dropLast else none

/-- `lines`: what ends with a newline, without it and a carriage return before it, then a rest that is
not empty. -/
def lines (text : Str) : List Str :=
  let pieces := text.splitOn newline
  (pieces.dropLast.map fun line => (stripLast carriageReturn line).getD line) ++
    pieces.getLast?.toList.filter (· ≠ [])

/-- A section: its keys and their values. -/
abbrev Section := AList fun _ : Str => Str

abbrev Sections := AList fun _ : Str => Section

/-- The state of the loop of `parse_ini`. -/
structure Reader where
  sections : Sections
  current : Str

/-- `entry(name).or_default()`, as it leaves the map. -/
def orDefault (name : Str) (sections : Sections) : Sections :=
  if name ∈ sections then sections else sections.insert name ∅

/-- `entry(name).or_default().insert(key, value)`. -/
def Reader.set (r : Reader) (key value : Str) : Reader :=
  { r with sections := r.sections.insert r.current (((r.sections.lookup r.current).getD ∅).insert key value) }

/-- What stands in the brackets of a header. -/
def bracketed (line : Str) : Option Str :=
  if line.head? = some openBracket then stripLast closeBracket line.tail else none

/-- One turn of the loop. -/
def Reader.line (r : Reader) (line : Str) : Reader :=
  let line := trim line
  if line = [] ∨ line.head? = some semicolon ∨ line.head? = some hash then r
  else match bracketed line with
    | some name => ⟨orDefault (trim name) r.sections, trim name⟩
    | none =>
      match splitOnceAt equals line with
      | some (key, value) => r.set (trim key) (trim value)
      | none => r

def parseIni (text : Str) : Sections := ((lines text).foldl Reader.line ⟨∅, []⟩).sections

/-- `split_whitespace`. -/
def splitWhitespace (s : Str) : List Str := (s.splitOnP isWhitespace).filter (· ≠ [])

/-- One turn of the loop of `backend_address`: the last host and port so far. -/
def hostPort (found : Option Str × Option Str) (token : Str) : Option Str × Option Str :=
  match splitOnceAt equals token with
  | some (key, value) =>
    if key = str "host" then (some value, found.2)
    else if key = str "port" then (found.1, some value)
    else found
  | none => found

def backendAddress (connstring : Str) : Option Str :=
  let found := (splitWhitespace connstring).foldl hostPort (none, none)
  found.1.map fun host => host ++ str ":" ++ found.2.getD (str "5432")

/-- `Config`. -/
structure Config where
  listen : Str
  backend : Str
  poolMode : PoolMode
  poolSize : Nat
  authUser : Str
  authDbname : Str
  deriving DecidableEq

/-- What the standard library leaves open: the order in which a map gives its values, and how a text
is quoted for an error. -/
structure Runtime where
  values : Section → List Str
  perm : ∀ s, (values s).Perm (s.entries.map (·.2))
  quoted : Str → Str

def Config.fromIni (rt : Runtime) (text : Bytes) : Except Str Config :=
  let ini := parseIni (chars text)
  let pg := (ini.lookup (str "pgbouncer")).getD ∅
  let setting := fun key default => (pg.lookup (str key)).getD (str default)
  let poolMode :=
    if pg.lookup (str "pool_mode") = some (str "session") then PoolMode.session
    else if pg.lookup (str "pool_mode") = some (str "statement") then .statement
    else .transaction
  let poolSize := ((pg.lookup (str "default_pool_size")).bind fun v =>
    parseBelow (2 ^ 64) v.flatten).getD 10
  match ini.lookup (str "databases") with
  | none => .error (str "config: missing [databases] section")
  | some databases =>
    match (databases.lookup (str "*")).or (rt.values databases).head? with
    | none => .error (str "config: [databases] has no entries")
    | some connstring =>
      match backendAddress connstring with
      | none => .error (str "config: cannot parse host/port from " ++ rt.quoted connstring)
      | some backend => .ok {
          listen := setting "listen_addr" "127.0.0.1" ++ str ":" ++ setting "listen_port" "6432"
          backend
          poolMode
          poolSize
          authUser := setting "auth_user" "postgres"
          authDbname := setting "auth_dbname" "postgres" }

/-! ## Documents -/

/-- What a line says. -/
inductive Line where
  | nothing
  | header (name : Str)
  | entry (key value : Str)

/-- A line whose first character that is not white space opens a comment. -/
def Comment (s : Str) : Prop := ∃ a c t, Spaces a ∧ (c = semicolon ∨ c = hash) ∧ s = a ++ c :: t

/-- Brackets around something, and white space around them. -/
def Header (s : Str) (m : Str) : Prop :=
  ∃ a b, Spaces a ∧ Spaces b ∧ s = a ++ openBracket :: (m ++ closeBracket :: b)

/-- How a line may be written. A setting ends its key at the first equals sign; a line that is none of
the rest, and has none, says nothing. -/
inductive Written : Line → Str → Prop where
  | blank {s : Str} (h : Spaces s) : Written .nothing s
  | comment {s : Str} (h : Comment s) : Written .nothing s
  | noise {s : Str} (hno : equals ∉ s) (hh : ∀ m, ¬ Header s m) : Written .nothing s
  | header {x name y s : Str} (hx : Spaces x) (hy : Spaces y) (hn : Trimmed name)
      (hs : Header s (x ++ name ++ y)) : Written (.header name) s
  | entry {a key x y value b s : Str} (ha : Spaces a) (hx : Spaces x) (hy : Spaces y) (hb : Spaces b)
      (hk : Trimmed key) (hv : Trimmed value) (hno : equals ∉ key)
      (hs : s = a ++ key ++ x ++ equals :: (y ++ value ++ b)) (hc : ¬ Comment s)
      (hh : ∀ m, ¬ Header s m) : Written (.entry key value) s

/-- A document: line by line. -/
abbrev Document := List Line

def Renders (doc : Document) (text : Str) : Prop := List.Forall₂ Written doc (text.splitOn newline)

namespace Document

/-- The settings with the sections they stand in, the first lines in section `cur`. -/
def settings : Str → Document → List (Str × Str × Str)
  | _, [] => []
  | cur, .nothing :: doc => settings cur doc
  | _, .header name :: doc => settings name doc
  | cur, .entry key value :: doc => (cur, key, value) :: settings cur doc

/-- The last setting of the key in the section, wherever its lines stand. -/
def get (doc : Document) (sec key : Str) : Option Str :=
  (((settings [] doc).filter fun s => s.1 = sec ∧ s.2.1 = key).getLast?).map (·.2.2)

end Document

/-! ## Every line is written in one way -/

/-- What a line says, as the parser reads it. -/
def lineOf (s : Str) : Line :=
  let line := trim s
  if line = [] ∨ line.head? = some semicolon ∨ line.head? = some hash then .nothing
  else match bracketed line with
    | some name => .header (trim name)
    | none =>
      match splitOnceAt equals line with
      | some (key, value) => .entry (trim key) (trim value)
      | none => .nothing

def Reader.apply (r : Reader) : Line → Reader
  | .nothing => r
  | .header name => ⟨orDefault name r.sections, name⟩
  | .entry key value => r.set key value

theorem Reader.line_eq (r : Reader) (s : Str) : r.line s = r.apply (lineOf s) := by
  unfold Reader.line lineOf
  simp only
  split
  · rfl
  · cases bracketed (trim s) with
    | some name => rfl
    | none =>
      cases splitOnceAt equals (trim s) with
      | some p => rfl
      | none => rfl

theorem isWhitespace_equals : isWhitespace equals = false := rfl

theorem comment_iff {s : Str} :
    Comment s ↔ (trim s).head? = some semicolon ∨ (trim s).head? = some hash := by
  constructor
  · rintro ⟨a, c, t, ha, hc, rfl⟩
    have hsolid : isWhitespace c = false := by rcases hc with rfl | rfl <;> rfl
    have htrim := trim_append_cons hsolid [] t
    rw [List.nil_append, List.dropWhile_nil, List.nil_append] at htrim
    rw [trim_left ha, htrim]
    rcases hc with rfl | rfl
    · exact .inl rfl
    · exact .inr rfl
  · intro h
    obtain ⟨a, b, ha, -, hs⟩ := trim_split s
    rcases h with h | h
    · obtain ⟨t, ht⟩ := List.head?_eq_some_iff.mp h
      rw [ht, List.append_assoc] at hs
      exact ⟨a, semicolon, t ++ b, ha, .inl rfl, hs⟩
    · obtain ⟨t, ht⟩ := List.head?_eq_some_iff.mp h
      rw [ht, List.append_assoc] at hs
      exact ⟨a, hash, t ++ b, ha, .inr rfl, hs⟩

theorem stripLast_eq_some {c : Bytes} {s m : Str} : stripLast c s = some m ↔ s = m ++ [c] := by
  unfold stripLast
  constructor
  · intro h
    split at h
    · rename_i hlast
      cases h
      exact (List.dropLast_append_getLast? _ hlast).symm
    · cases h
  · rintro rfl
    rw [if_pos List.getLast?_concat, List.dropLast_concat]

theorem header_iff {s m : Str} : Header s m ↔ bracketed (trim s) = some m := by
  have hshape : ∀ t : Str, bracketed t = some m ↔ t = openBracket :: (m ++ [closeBracket]) := by
    intro t
    unfold bracketed
    constructor
    · intro h
      split at h
      · rename_i hhead
        obtain ⟨tail, rfl⟩ := List.head?_eq_some_iff.mp hhead
        rw [List.tail_cons, stripLast_eq_some] at h
        rw [h]
      · cases h
    · rintro rfl
      rw [List.head?_cons, if_pos rfl, List.tail_cons, stripLast_eq_some]
  rw [hshape]
  constructor
  · rintro ⟨a, b, ha, hb, rfl⟩
    have hsolid : Trimmed (openBracket :: (m ++ [closeBracket])) := by
      rintro c (hc | hc)
      · cases hc; rfl
      · rw [← List.cons_append, List.getLast?_concat] at hc
        cases hc; rfl
    have hassoc : a ++ openBracket :: (m ++ closeBracket :: b) =
        a ++ openBracket :: (m ++ [closeBracket]) ++ b := by simp
    rw [hassoc, trim_pad ha hb, hsolid.trim_eq]
  · intro h
    obtain ⟨a, b, ha, hb, hs⟩ := trim_split s
    refine ⟨a, b, ha, hb, ?_⟩
    rw [h] at hs
    simpa using hs

theorem lineOf_nothing {s : Str} (h : Spaces s ∨ Comment s) : lineOf s = .nothing := by
  rw [← trim_eq_nil, comment_iff] at h
  exact if_pos h

theorem lineOf_header {s m : Str} (h : Header s m) : lineOf s = .header (trim m) := by
  have hb := header_iff.mp h
  have hhead : (trim s).head? = some openBracket := by
    unfold bracketed at hb
    split at hb
    · rename_i hhead
      exact hhead
    · cases hb
  have hne : ¬ (trim s = [] ∨ (trim s).head? = some semicolon ∨ (trim s).head? = some hash) := by
    rintro (he | he | he)
    · rw [he] at hhead; cases hhead
    · rw [hhead] at he; revert he; decide
    · rw [hhead] at he; revert he; decide
  unfold lineOf
  simp only
  rw [if_neg hne, hb]

theorem lineOf_entry {p q : Str} (hno : equals ∉ p) (hc : ¬ Comment (p ++ equals :: q))
    (hh : ∀ m, ¬ Header (p ++ equals :: q) m) :
    lineOf (p ++ equals :: q) = .entry (trim p) (trim q) := by
  have htrim := trim_append_cons isWhitespace_equals p q
  have hb : bracketed (trim (p ++ equals :: q)) = none :=
    Option.eq_none_iff_forall_not_mem.mpr fun m hm => hh m (header_iff.mpr hm)
  have hne : ¬ (trim (p ++ equals :: q) = [] ∨ (trim (p ++ equals :: q)).head? = some semicolon ∨
      (trim (p ++ equals :: q)).head? = some hash) := by
    rintro (he | he)
    · rw [htrim] at he
      exact (List.append_ne_nil_of_right_ne_nil _ (List.cons_ne_nil _ _)) he
    · exact hc (comment_iff.mpr he)
  have hcut : splitOnceAt equals (trim (p ++ equals :: q)) =
      some (p.dropWhile isWhitespace, trimEndMatches isWhitespace q) := by
    rw [htrim]
    exact splitOnceAt_append (fun hm => hno ((List.dropWhile_suffix _).mem hm)) _
  unfold lineOf
  simp only
  rw [if_neg hne, hb, hcut]
  simp only [trim_dropWhile, trim_trimEnd]

theorem lineOf_noise {s : Str} (hno : equals ∉ s) (hh : ∀ m, ¬ Header s m) : lineOf s = .nothing := by
  have hb : bracketed (trim s) = none :=
    Option.eq_none_iff_forall_not_mem.mpr fun m hm => hh m (header_iff.mpr hm)
  unfold lineOf
  simp only
  rw [hb, splitOnceAt_none fun hm => hno (mem_trim hm)]
  split <;> rfl

/-- What a line may be written for is what the parser reads. -/
theorem written_iff {l : Line} {s : Str} : Written l s ↔ l = lineOf s := by
  constructor
  · intro h
    cases h with
    | blank h => exact (lineOf_nothing (.inl h)).symm
    | comment h => exact (lineOf_nothing (.inr h)).symm
    | noise hno hh => exact (lineOf_noise hno hh).symm
    | header hx hy hn hs => rw [lineOf_header hs, trim_pad hx hy, hn.trim_eq]
    | @entry a key x y value b _ ha hx hy hb hk hv hno hs hc hh =>
      have hspace : ∀ t : Str, Spaces t → equals ∉ t := fun t ht hm => by
        have := ht _ hm
        rw [isWhitespace_equals] at this
        cases this
      have hp : equals ∉ a ++ key ++ x := by
        simp only [List.mem_append, not_or]
        exact ⟨⟨hspace a ha, hno⟩, hspace x hx⟩
      rw [hs] at hc hh ⊢
      rw [lineOf_entry hp hc hh, trim_pad ha hx, hk.trim_eq, trim_pad hy hb, hv.trim_eq]
  · rintro rfl
    by_cases hc : Comment s
    · rw [lineOf_nothing (.inr hc)]
      exact .comment hc
    by_cases hh : ∃ m, Header s m
    · obtain ⟨m, hm⟩ := hh
      rw [lineOf_header hm]
      obtain ⟨x, y, hx, hy, hsplit⟩ := trim_split m
      exact .header hx hy (trim_trimmed m) (hsplit ▸ hm)
    have hh : ∀ m, ¬ Header s m := not_exists.mp hh
    by_cases hmem : equals ∈ s
    · obtain ⟨p, q, rfl, hno⟩ := List.eq_append_cons_of_mem hmem
      rw [lineOf_entry hno hc hh]
      obtain ⟨a, x, ha, hx, hp⟩ := trim_split p
      obtain ⟨y, b, hy, hb, hq⟩ := trim_split q
      refine .entry ha hx hy hb (trim_trimmed p) (trim_trimmed q) (fun hm => hno (mem_trim hm)) ?_ hc hh
      rw [← hp, ← hq]
    · rw [lineOf_noise hmem hh]
      exact .noise hmem hh

/-- Every text is the rendering of one document. -/
theorem renders_iff {doc : Document} {text : Str} :
    Renders doc text ↔ doc = (text.splitOn newline).map lineOf := by
  rw [Renders, ← List.forall₂_eq_eq_eq, List.forall₂_map_right_iff]
  exact ⟨fun h => h.imp fun _ _ => written_iff.mp, fun h => h.imp fun _ _ => written_iff.mpr⟩

/-- The lines are read one after the other. -/
theorem parseIni_eq (text : Str) :
    parseIni text = (((text.splitOn newline).map lineOf).foldl Reader.apply ⟨∅, []⟩).sections := by
  have hstrip : ∀ line : Str, lineOf ((stripLast carriageReturn line).getD line) = lineOf line := by
    intro line
    cases h : stripLast carriageReturn line with
    | none => rfl
    | some rest =>
      have hspace : Spaces [carriageReturn] := by
        rintro c hc
        rw [List.mem_singleton.mp hc]
        rfl
      rw [stripLast_eq_some.mp h, Option.getD_some]
      unfold lineOf
      rw [trim_right hspace]
  have hread : ∀ ls : List Str, ∀ r, ls.foldl Reader.line r = (ls.map lineOf).foldl Reader.apply r := by
    intro ls r
    rw [List.foldl_map]
    exact congrArg (fun f => ls.foldl f r) (funext fun r => funext fun s => r.line_eq s)
  rcases List.eq_nil_or_concat (text.splitOn newline) with hnil | ⟨init, last, hsplit⟩
  · exact (List.splitOn_ne_nil _ _ hnil).elim
  rw [List.concat_eq_append] at hsplit
  rw [parseIni, hread, lines, hsplit]
  simp only [List.dropLast_concat, List.getLast?_concat, Option.toList_some, List.map_append,
    List.map_map, List.foldl_append]
  have hmap : init.map (lineOf ∘ fun line => (stripLast carriageReturn line).getD line) =
      init.map lineOf := List.map_congr_left fun line _ => hstrip line
  rw [hmap]
  by_cases hlast : last = []
  · subst hlast
    rfl
  · rw [List.filter_cons_of_pos (by simpa using hlast)]
    rfl

/-! ## The last setting counts -/

/-- The value of a key in a section. -/
def Reader.value (r : Reader) (sec key : Str) : Option Str := (r.sections.lookup sec).bind (·.lookup key)

theorem Reader.value_header (r : Reader) (name sec key : Str) :
    (r.apply (.header name)).value sec key = r.value sec key := by
  show ((orDefault name r.sections).lookup sec).bind (·.lookup key) = _
  unfold orDefault
  split
  · rfl
  · rename_i hnew
    by_cases hsec : sec = name
    · subst hsec
      rw [AList.lookup_insert, Reader.value, AList.lookup_eq_none.mpr hnew]
      rfl
    · rw [AList.lookup_insert_ne hsec, Reader.value]

theorem Reader.value_entry (r : Reader) (k v sec key : Str) :
    (r.apply (.entry k v)).value sec key =
      if r.current = sec ∧ k = key then some v else r.value sec key := by
  show ((r.sections.insert r.current _).lookup sec).bind (·.lookup key) = _
  by_cases hsec : sec = r.current
  · subst hsec
    rw [AList.lookup_insert, Option.bind_some]
    by_cases hkey : key = k
    · subst hkey
      rw [AList.lookup_insert, if_pos ⟨rfl, rfl⟩]
    · rw [AList.lookup_insert_ne hkey, if_neg fun h => hkey h.2.symm, Reader.value]
      cases r.sections.lookup r.current <;> rfl
  · rw [AList.lookup_insert_ne hsec, if_neg fun h => hsec h.1.symm, Reader.value]

/-- A setting is the last one for its key, or what was there before the lines. -/
theorem Reader.value_foldl (sec key : Str) (doc : Document) (r : Reader) :
    (doc.foldl Reader.apply r).value sec key =
      ((((Document.settings r.current doc).filter fun s => s.1 = sec ∧ s.2.1 = key).getLast?).map
        (·.2.2)).or (r.value sec key) := by
  induction doc generalizing r with
  | nil => rfl
  | cons l doc ih =>
    rw [List.foldl_cons, ih]
    cases l with
    | nothing => rfl
    | header name => rw [r.value_header]; rfl
    | entry k v =>
      rw [r.value_entry]
      show _ = ((((r.current, k, v) :: Document.settings r.current doc).filter _).getLast?.map _).or _
      by_cases h : r.current = sec ∧ k = key
      · rw [if_pos h, List.filter_cons_of_pos (by simpa using h), List.getLast?_cons]
        show Option.or (Option.map _ ((Document.settings r.current doc).filter _).getLast?) _ = _
        cases ((Document.settings r.current doc).filter fun s => s.1 = sec ∧ s.2.1 = key).getLast? <;> rfl
      · rw [if_neg h, List.filter_cons_of_neg (by simpa using h)]
        rfl

/-- A section is there when it was, when it has a header, or when it has a setting. -/
theorem Reader.mem_foldl (sec : Str) (doc : Document) (r : Reader) :
    sec ∈ (doc.foldl Reader.apply r).sections ↔
      sec ∈ r.sections ∨ .header sec ∈ doc ∨ ∃ s ∈ Document.settings r.current doc, s.1 = sec := by
  induction doc generalizing r with
  | nil => simp [Document.settings]
  | cons l doc ih =>
    rw [List.foldl_cons, ih]
    cases l with
    | nothing => simp [Reader.apply, Document.settings]
    | header name =>
      have hmem : sec ∈ orDefault name r.sections ↔ sec = name ∨ sec ∈ r.sections := by
        unfold orDefault
        split
        · rename_i hold
          exact ⟨.inr, fun h => h.elim (fun he => he ▸ hold) id⟩
        · exact AList.mem_insert _
      simp only [Reader.apply, Document.settings, hmem, List.mem_cons, Line.header.injEq]
      tauto
    | entry k v =>
      simp only [Reader.apply, Reader.set, Document.settings, AList.mem_insert, List.mem_cons,
        reduceCtorEq, false_or, exists_eq_or_imp]
      tauto

theorem Document.settings_section {cur : Str} {doc : Document} {s : Str × Str × Str}
    (h : s ∈ settings cur doc) : s.1 = cur ∨ .header s.1 ∈ doc := by
  induction doc generalizing cur with
  | nil => cases h
  | cons l doc ih =>
    cases l with
    | nothing => exact (ih h).imp_right (List.mem_cons_of_mem _)
    | header name =>
      rcases ih h with he | hm
      · exact .inr (he ▸ List.mem_cons_self)
      · exact .inr (List.mem_cons_of_mem _ hm)
    | entry k v =>
      rcases List.mem_cons.mp h with rfl | h
      · exact .inl rfl
      · exact (ih h).imp_right (List.mem_cons_of_mem _)

/-! ## The connection string -/

/-- The last value a token gives the name, if one does. -/
inductive Assigned (name : Str) : List Str → Option Str → Prop where
  | none {tokens : List Str} (h : ∀ v, name ++ equals :: v ∉ tokens) : Assigned name tokens none
  | some {pre post : List Str} {v : Str} (h : ∀ v', name ++ equals :: v' ∉ post) :
    Assigned name (pre ++ (name ++ equals :: v) :: post) (some v)

theorem Assigned.skip {name t : Str} {tokens : List Str} {o : Option Str} (h : Assigned name tokens o)
    (ht : ∀ v, name ++ equals :: v ≠ t) : Assigned name (tokens ++ [t]) o := by
  have hrest : ∀ {post : List Str}, (∀ v, name ++ equals :: v ∉ post) →
      ∀ v, name ++ equals :: v ∉ post ++ [t] := by
    intro post hpost v hm
    rcases List.mem_append.mp hm with hm | hm
    · exact hpost v hm
    · exact ht v (List.mem_singleton.mp hm)
  cases h with
  | none h => exact .none (hrest h)
  | some h =>
    rw [List.append_assoc, List.cons_append]
    exact .some (hrest h)

theorem Assigned.last (name v : Str) (tokens : List Str) :
    Assigned name (tokens ++ [name ++ equals :: v]) (.some v) :=
  .some fun _ => List.not_mem_nil

theorem hostPort_assigned (tokens : List Str) :
    Assigned (str "host") tokens (tokens.foldl hostPort (none, none)).1 ∧
    Assigned (str "port") tokens (tokens.foldl hostPort (none, none)).2 := by
  induction tokens using List.reverseRecOn with
  | nil => exact ⟨.none fun _ => List.not_mem_nil, .none fun _ => List.not_mem_nil⟩
  | append_singleton tokens t ih =>
    obtain ⟨hhost, hport⟩ := ih
    rw [List.foldl_append, List.foldl_cons, List.foldl_nil, hostPort]
    have hh : ∀ v, splitOnceAt equals (str "host" ++ equals :: v) = some (str "host", v) :=
      splitOnceAt_append (by decide)
    have hp : ∀ v, splitOnceAt equals (str "port" ++ equals :: v) = some (str "port", v) :=
      splitOnceAt_append (by decide)
    cases hcut : splitOnceAt equals t with
    | none =>
      refine ⟨hhost.skip fun v he => ?_, hport.skip fun v he => ?_⟩
      · rw [← he, hh] at hcut
        cases hcut
      · rw [← he, hp] at hcut
        cases hcut
    | some p =>
      obtain ⟨key, value⟩ := p
      obtain ⟨rfl, -⟩ := splitOnceAt_eq_some hcut
      simp only
      by_cases hk : key = str "host"
      · subst hk
        rw [if_pos rfl]
        refine ⟨.last _ _ _, hport.skip fun v he => ?_⟩
        rw [← he, hp] at hcut
        have hname : str "port" = str "host" := congrArg Prod.fst (Option.some.inj hcut)
        revert hname
        decide
      · have hskip := hhost.skip (t := key ++ equals :: value) fun v he => by
          rw [← he, hh] at hcut
          exact hk (congrArg Prod.fst (Option.some.inj hcut)).symm
        rw [if_neg hk]
        by_cases hk' : key = str "port"
        · subst hk'
          rw [if_pos rfl]
          exact ⟨hskip, .last _ _ _⟩
        · rw [if_neg hk']
          refine ⟨hskip, hport.skip fun v he => ?_⟩
          rw [← he, hp] at hcut
          exact hk' (congrArg Prod.fst (Option.some.inj hcut)).symm

/-! ## The configuration -/

namespace Document

/-- The connection string: the wildcard's, or that of any entry when there is no wildcard. -/
def Connstring (doc : Document) (connstring : Str) : Prop :=
  doc.get (str "databases") (str "*") = some connstring ∨
    doc.get (str "databases") (str "*") = none ∧ ∃ key, doc.get (str "databases") key = some connstring

/-- A setting of the section `pgbouncer`, or its default. -/
def setting (doc : Document) (key default : String) : Str :=
  (doc.get (str "pgbouncer") (str key)).getD (str default)

/-- The configuration a document stands for, once its backend is found. -/
def config (doc : Document) (host port : Str) : Config where
  listen := doc.setting "listen_addr" "127.0.0.1" ++ str ":" ++ doc.setting "listen_port" "6432"
  backend := host ++ str ":" ++ port
  poolMode :=
    if doc.get (str "pgbouncer") (str "pool_mode") = some (str "session") then .session
    else if doc.get (str "pgbouncer") (str "pool_mode") = some (str "statement") then .statement
    else .transaction
  poolSize := ((doc.get (str "pgbouncer") (str "default_pool_size")).bind fun v =>
    parseBelow (2 ^ 64) v.flatten).getD 10
  authUser := doc.setting "auth_user" "postgres"
  authDbname := doc.setting "auth_dbname" "postgres"

/-- What reading the document may come to. -/
inductive Configures (quoted : Str → Str) (doc : Document) : Except Str Config → Prop where
  | missing (h : .header (str "databases") ∉ doc) :
    Configures quoted doc (.error (str "config: missing [databases] section"))
  | empty (h : .header (str "databases") ∈ doc) (hn : ∀ key, doc.get (str "databases") key = none) :
    Configures quoted doc (.error (str "config: [databases] has no entries"))
  | noHost {connstring : Str} (h : doc.Connstring connstring)
      (hn : Assigned (str "host") (splitWhitespace connstring) none) :
    Configures quoted doc (.error (str "config: cannot parse host/port from " ++ quoted connstring))
  | read {connstring host : Str} {port : Option Str} (h : doc.Connstring connstring)
      (hh : Assigned (str "host") (splitWhitespace connstring) (some host))
      (hp : Assigned (str "port") (splitWhitespace connstring) port) :
    Configures quoted doc (.ok (doc.config host (port.getD (str "5432"))))

end Document

/-- The sections of a text are those of its document. -/
theorem parseIni_renders {doc : Document} {text : Str} (h : Renders doc text) (sec : Str) :
    (∀ key, ((parseIni text).lookup sec).bind (·.lookup key) = doc.get sec key) ∧
    (sec ≠ [] → (sec ∈ parseIni text ↔ .header sec ∈ doc)) := by
  rw [parseIni_eq, ← renders_iff.mp h]
  refine ⟨fun key => ?_, fun hne => ?_⟩
  · have hv := Reader.value_foldl sec key doc ⟨∅, []⟩
    rw [Reader.value] at hv
    rw [hv, Document.get, Reader.value, AList.lookup_empty]
    exact Option.or_none
  · rw [Reader.mem_foldl]
    constructor
    · rintro (hm | hm | ⟨s, hm, rfl⟩)
      · exact (AList.notMem_empty _ hm).elim
      · exact hm
      · exact (Document.settings_section hm).resolve_left hne
    · exact fun hm => .inr (.inl hm)

/-- Any of a section's values is the value of some key. -/
theorem Runtime.head_values (rt : Runtime) (d : Section) :
    (∀ v, (rt.values d).head? = some v → ∃ key, d.lookup key = some v) ∧
    ((rt.values d).head? = none → ∀ key, d.lookup key = none) := by
  refine ⟨fun v hv => ?_, fun hnone key => ?_⟩
  · have hmem := (rt.perm d).mem_iff.mp (List.mem_of_mem_head? hv)
    obtain ⟨⟨key, v'⟩, hentry, rfl⟩ := List.mem_map.mp hmem
    exact ⟨key, AList.mem_lookup_iff.mpr hentry⟩
  · have hlen := (rt.perm d).length_eq
    rw [List.head?_eq_none_iff.mp hnone, List.length_map] at hlen
    have hempty : d = ∅ := AList.ext (List.length_eq_zero_iff.mp hlen.symm)
    rw [hempty, AList.lookup_empty]

theorem Document.configures {doc : Document} {text : Bytes} (h : Renders doc (chars text))
    (rt : Runtime) : doc.Configures rt.quoted (Config.fromIni rt text) := by
  obtain ⟨hdb, hsec⟩ := parseIni_renders h (str "databases")
  have hpg := (parseIni_renders h (str "pgbouncer")).1
  have hsetting : ∀ key, (((parseIni (chars text)).lookup (str "pgbouncer")).getD ∅).lookup key =
      doc.get (str "pgbouncer") key := by
    intro key
    rw [← hpg]
    cases (parseIni (chars text)).lookup (str "pgbouncer") <;> rfl
  unfold Config.fromIni
  simp only [hsetting]
  cases hfound : (parseIni (chars text)).lookup (str "databases") with
  | none => exact .missing ((not_congr (hsec (by decide))).mp (AList.lookup_eq_none.mp hfound))
  | some d =>
    rw [hfound] at hdb
    have hheader := (hsec (by decide)).mp (AList.lookup_isSome.mp (by rw [hfound]; rfl))
    have hlookup : ∀ key, d.lookup key = doc.get (str "databases") key := hdb
    simp only
    cases hconn : (d.lookup (str "*")).or (rt.values d).head? with
    | none =>
      obtain ⟨-, hvalues⟩ := Option.or_eq_none_iff.mp hconn
      exact .empty hheader fun key => (hlookup key).symm.trans ((rt.head_values d).2 hvalues key)
    | some connstring =>
      have hc : doc.Connstring connstring := by
        rcases Option.or_eq_some_iff.mp hconn with hstar | ⟨hstar, hvalue⟩
        · exact .inl ((hlookup _).symm.trans hstar)
        · obtain ⟨key, hkey⟩ := (rt.head_values d).1 _ hvalue
          exact .inr ⟨(hlookup _).symm.trans hstar, key, (hlookup key).symm.trans hkey⟩
      obtain ⟨hh, hp⟩ := hostPort_assigned (splitWhitespace connstring)
      simp only [backendAddress]
      cases hhost : ((splitWhitespace connstring).foldl hostPort (none, none)).1 with
      | none =>
        rw [hhost] at hh
        exact .noHost hc hh
      | some host =>
        rw [hhost] at hh
        exact .read hc hh hp

/-- **A configuration is what its document says.** Every text is the rendering of exactly one document,
however it is spaced, commented and ended; and what is read from it is that document's configuration,
the last setting of each key, in whatever order the maps give their values, or the one error that fits
it. -/
theorem from_ini_reads (rt : Runtime) (text : Bytes) :
    ∃ doc, (∀ doc', Renders doc' (chars text) ↔ doc' = doc) ∧
      doc.Configures rt.quoted (Config.fromIni rt text) :=
  ⟨_, fun _ => renders_iff, Document.configures (renders_iff.mpr rfl) rt⟩

end RamaPg.Pgbouncer
