import RamaPg.Proxy.Transactions
import Mathlib.Data.List.DropRight

/-!
# Statement separators in custom mode

A list of statements can be written as one query in many ways, with white space and repeated `;`
around the separators. `run_query` looks at the first word of the trimmed text, so whether it takes
the text for a transaction command depends on what follows the first statement's first word: white
space ends the word, a `;` that the trimming leaves becomes part of it. `SeparatorsHarmless` says
that two ways of writing a list make no difference and that no statement is lost;
`separators_harmless_iff` says when.
-/

namespace RamaPg.Proxy

open RamaPg.Lib RamaPg.Codec RamaPg.Startup

/-! ## Lists of statements and how they are written -/

def semicolon : Bytes := [59]

/-- A statement of the list. It has no NUL, since the text of a `Query` ends there; quotes and
comments need not be excluded, since `run_query` does not look for them. -/
structure Statement where
  text : Bytes
  utf8 : isUtf8 text = true
  noNul : 0 ∉ text
  nonblank : ∃ c ∈ chars text, isWhitespace c = false
  plain : semicolon ∉ chars text

/-- White space and `;`. -/
structure IsGap (g : Bytes) : Prop where
  utf8 : isUtf8 g = true
  chars : ∀ c ∈ chars g, isWhitespace c = true ∨ c = semicolon

/-- A way of writing a list: what stands in front of the first statement and what follows each of
them, with a `;` between two. -/
structure Rendering (L : List Statement) where
  lead : Bytes
  gaps : List Bytes
  length : gaps.length = L.length
  isGap : ∀ g ∈ lead :: gaps, IsGap g
  separated : ∀ g ∈ gaps.dropLast, semicolon ∈ chars g

def body : List Statement → List Bytes → Bytes
  | s :: L, g :: gaps => s.text ++ (g ++ body L gaps)
  | _, _ => []

def Rendering.text {L : List Statement} (r : Rendering L) : Bytes := r.lead ++ body L r.gaps

/-! ## Words -/

/-- The first word of a statement. -/
def Statement.word (s : Statement) : List Bytes :=
  ((chars s.text).dropWhile isWhitespace).takeWhile fun c => !isWhitespace c

/-- What follows it. -/
def Statement.afterWord (s : Statement) : List Bytes :=
  ((chars s.text).dropWhile isWhitespace).dropWhile fun c => !isWhitespace c

/-- `verbOf` from the first word. -/
def verbOfWord (word : Bytes) : Verb :=
  let verb := toAsciiUppercase word
  if verb = ascii "BEGIN" ∨ verb = ascii "START" then .begin
  else if verb = ascii "COMMIT" ∨ verb = ascii "END" then .commit
  else if verb = ascii "ROLLBACK" ∨ verb = ascii "ABORT" then .rollback
  else .other

theorem verbOf_eq (sql : Bytes) : verbOf sql = verbOfWord (firstWord (trimmedSql sql)) := rfl

/-- Which transaction command a statement is, if any. -/
def Statement.verb (s : Statement) : Verb := verbOfWord s.word.flatten

/-- No transaction command has a `;`. -/
theorem verbOfWord_semicolon {word : Bytes} (h : 59 ∈ word) : verbOfWord word = .other := by
  have hupper : 59 ∈ toAsciiUppercase word := by
    unfold toAsciiUppercase
    exact List.mem_map.mpr ⟨59, h, rfl⟩
  have hne : ∀ keyword : Bytes, 59 ∉ keyword → toAsciiUppercase word ≠ keyword := by
    rintro keyword hk rfl
    exact hk hupper
  unfold verbOfWord
  simp only [hne (ascii "BEGIN") (by decide), hne (ascii "START") (by decide),
    hne (ascii "COMMIT") (by decide), hne (ascii "END") (by decide),
    hne (ascii "ROLLBACK") (by decide), hne (ascii "ABORT") (by decide), or_self, ↓reduceIte]

/-! ## Trimming a text -/

/-- Neither white space nor a `;`. -/
def Solid (c : Bytes) : Prop := isWhitespace c = false ∧ c ≠ semicolon

/-- What the trimming does at the end of the text. -/
def trimEnd (cs : List Bytes) : List Bytes :=
  trimEndMatches isWhitespace (trimEndMatches (· == [59]) (trimEndMatches isWhitespace cs))

theorem trimEnd_append_cons {m : Bytes} (hm : Solid m) (xs ys : List Bytes) :
    trimEnd (xs ++ m :: ys) = xs ++ m :: trimEnd ys := by
  have hsemi : (m == [59]) = false := by
    simpa [semicolon] using hm.2
  unfold trimEnd
  rw [trimEndMatches_append_cons hm.1, @trimEndMatches_append_cons (· == [59]) m hsemi,
    trimEndMatches_append_cons hm.1]

theorem trimEnd_append {ws : List Bytes} (hw : ∀ c ∈ ws, Solid c) (ys : List Bytes) :
    trimEnd (ws ++ ys) = ws ++ trimEnd ys := by
  rcases List.eq_nil_or_concat ws with rfl | ⟨ws', m, rfl⟩
  · rfl
  · have hm : Solid m := hw m (by simp)
    have h := trimEnd_append_cons hm ws' ys
    simpa using h

theorem trimEnd_isPrefix (cs : List Bytes) : trimEnd cs <+: cs :=
  ((trimEndMatches_isPrefix _ _).trans (trimEndMatches_isPrefix _ _)).trans (trimEndMatches_isPrefix _ _)

/-- The trimming of a text that is not all white space and `;`: the front loses its white space, the
end what `trimEnd` takes. -/
theorem trimmed_append_cons {m : Bytes} (hm : Solid m) (xs ys : List Bytes) :
    trim (trimEndMatches (· == [59]) (trim (xs ++ m :: ys))) =
      xs.dropWhile isWhitespace ++ m :: trimEnd ys := by
  have hsemi : (m == [59]) = false := by
    simpa [semicolon] using hm.2
  unfold trim trimEnd
  rw [dropWhile_append_cons hm.1, trimEndMatches_append_cons hm.1,
    @trimEndMatches_append_cons (· == [59]) m hsemi, dropWhile_append_cons hm.1, List.dropWhile_idempotent,
    trimEndMatches_append_cons hm.1]

/-- The trimming takes nothing in front of something it keeps. -/
theorem trimEnd_head {c : Bytes} {cs : List Bytes} (h : trimEnd (c :: cs) ≠ []) :
    ∃ ds, trimEnd (c :: cs) = c :: ds := by
  obtain ⟨d, ds, hd⟩ := List.exists_cons_of_ne_nil h
  have hp := trimEnd_isPrefix (c :: cs)
  rw [hd] at hp ⊢
  exact ⟨ds, by rw [(List.cons_prefix_cons.mp hp).1]⟩

theorem isWhitespace_semicolon : isWhitespace semicolon = false := by decide

/-- A `;` in front of white space with another one behind it is kept. -/
theorem trimEnd_semicolons {w : Bytes} (hw : isWhitespace w = true) (as bs : List Bytes)
    (hb : semicolon ∈ bs) : trimEnd (semicolon :: as ++ w :: bs) ≠ [] := by
  obtain ⟨b₁, b₂, rfl⟩ := List.append_of_mem hb
  have hws : (fun c : Bytes => c == [59]) w = false := by
    have hne : w ≠ [59] := by
      rintro rfl
      exact absurd hw (by decide)
    simpa using hne
  have hassoc : semicolon :: as ++ w :: (b₁ ++ semicolon :: b₂) =
      (semicolon :: as ++ w :: b₁) ++ semicolon :: b₂ := by simp
  have hcut : ∀ ys, semicolon :: as ++ w :: b₁ ++ semicolon :: ys =
      (semicolon :: as) ++ w :: (b₁ ++ semicolon :: ys) := fun ys => by simp
  unfold trimEnd
  rw [hassoc, trimEndMatches_append_cons isWhitespace_semicolon, hcut,
    @trimEndMatches_append_cons (· == [59]) w hws, List.cons_append]
  have hkeep := fun ys => trimEndMatches_append_cons isWhitespace_semicolon [] ys
  simp only [List.nil_append] at hkeep
  rw [hkeep]
  nofun

/-- Repeated `;` and white space behind them are taken away. -/
theorem trimEnd_eq_nil {cs : List Bytes} (hgap : ∀ c ∈ cs, isWhitespace c = true ∨ c = semicolon)
    (h : semicolon ∉ cs.dropWhile (· == semicolon)) : trimEnd cs = [] := by
  have hsplit : cs.takeWhile (· == semicolon) ++ cs.dropWhile (· == semicolon) = cs :=
    List.takeWhile_append_dropWhile
  have hws : ∀ c ∈ cs.dropWhile (· == semicolon), isWhitespace c = true := by
    intro c hc
    rcases hgap c ((List.dropWhile_suffix _).mem hc) with hw | rfl
    · exact hw
    · exact absurd hc h
  have hsemi : ∀ c ∈ cs.takeWhile (· == semicolon), c = semicolon := by
    intro c hc
    simpa using List.mem_takeWhile_imp hc
  have hstep : ∀ c ∈ trimEndMatches isWhitespace cs, c = semicolon := by
    intro c hc
    rw [← hsplit] at hc
    rcases List.eq_nil_or_concat (cs.takeWhile (· == semicolon)) with hnil | ⟨ts, t, ht⟩
    · rw [hnil, List.nil_append, trimEndMatches_eq_nil hws] at hc
      cases hc
    · have htsemi : t = semicolon := hsemi t (by rw [ht]; simp)
      rw [ht, List.concat_eq_append, List.append_assoc, List.singleton_append,
        trimEndMatches_append_cons (by rw [htsemi]; rfl), trimEndMatches_eq_nil hws] at hc
      exact hsemi c (by rw [ht]; simpa using hc)
  unfold trimEnd
  rw [@trimEndMatches_eq_nil (· == [59]) _ fun c hc => by rw [hstep c hc]; rfl]
  rfl

/-! ## The first word of a text -/

/-- A statement is its first word between white space and the rest. -/
theorem Statement.split (s : Statement) :
    ∃ x xs, s.word = x :: xs ∧
      chars s.text = (chars s.text).takeWhile isWhitespace ++ (x :: xs ++ s.afterWord) ∧
      ∀ c ∈ x :: xs, Solid c := by
  have hne : (chars s.text).dropWhile isWhitespace ≠ [] := by
    obtain ⟨c, hc, hw⟩ := s.nonblank
    intro hnil
    rw [List.dropWhile_eq_nil_iff.mp hnil c hc] at hw
    cases hw
  obtain ⟨x, rest, hrest⟩ := List.exists_cons_of_ne_nil hne
  have hx : isWhitespace x = false := dropWhile_head hrest
  have hword : s.word = x :: rest.takeWhile fun c => !isWhitespace c := by
    rw [Statement.word, hrest, List.takeWhile_cons, hx]
    rfl
  have hsplit : s.word ++ s.afterWord = (chars s.text).dropWhile isWhitespace :=
    List.takeWhile_append_dropWhile
  refine ⟨x, _, hword, ?_, ?_⟩
  · rw [← hword, hsplit, List.takeWhile_append_dropWhile]
  · rw [← hword]
    intro c hc
    refine ⟨by simpa using List.mem_takeWhile_imp hc, ?_⟩
    rintro rfl
    exact s.plain ((List.dropWhile_suffix _).mem (( List.takeWhile_prefix _).mem hc))

theorem Statement.afterWord_head {s : Statement} {c : Bytes} {cs : List Bytes}
    (h : s.afterWord = c :: cs) : isWhitespace c = true := by
  have hc := dropWhile_head h
  simpa using hc

/-- The words of a text whose trimming starts with this word. -/
theorem firstWord_append {ws cs : List Bytes} (hw : ∀ c ∈ ws, Solid c) (hne : ws ≠ []) :
    firstWord (ws ++ cs) = (ws ++ cs.takeWhile fun c => !isWhitespace c).flatten := by
  obtain ⟨x, xs, rfl⟩ := List.exists_cons_of_ne_nil hne
  have hx : isWhitespace x = false := (hw x List.mem_cons_self).1
  have hall : ∀ c ∈ x :: xs, (!isWhitespace c) = true := fun c hc => by rw [(hw c hc).1]; rfl
  unfold firstWord
  rw [List.cons_append, List.dropWhile_cons_of_neg (by simp [hx]), ← List.cons_append,
    List.takeWhile_append_of_pos hall]

/-- A text whose trimming starts with a `;` is no transaction command. -/
theorem mem_firstWord_semicolon (cs : List Bytes) : 59 ∈ firstWord (semicolon :: cs) := by
  unfold firstWord
  rw [List.dropWhile_cons_of_neg (by decide), List.takeWhile_cons_of_pos (by decide)]
  exact List.mem_append_left _ (List.mem_singleton_self 59)

theorem isUtf8_body : ∀ (L : List Statement) (gaps : List Bytes), (∀ g ∈ gaps, IsGap g) →
    isUtf8 (body L gaps) = true
  | [], _, _ => by simp [body, isUtf8]
  | s :: L, [], _ => by simp [body, isUtf8]
  | s :: L, g :: gaps, h => by
    have ih := isUtf8_body L gaps fun g' hg => h g' (List.mem_cons_of_mem _ hg)
    rw [body, isUtf8_append s.utf8, isUtf8_append (h g List.mem_cons_self).utf8, ih]

/-- The characters of a text: in front, the first statement, what follows it and the rest. -/
theorem chars_text {s : Statement} {L : List Statement} (r : Rendering (s :: L)) :
    ∃ g gaps, r.gaps = g :: gaps ∧ gaps.length = L.length ∧
      chars r.text =
        chars r.lead ++ (chars s.text ++ (chars g ++ chars (body L gaps))) := by
  have hlength := r.length
  have hgap := r.isGap
  obtain ⟨g, gaps, hr⟩ : ∃ g gaps, r.gaps = g :: gaps :=
    List.exists_cons_of_length_eq_add_one hlength
  rw [hr] at hlength hgap
  have hg : isUtf8 g = true := (hgap g (by simp)).utf8
  have hrest : isUtf8 (body L gaps) = true :=
    isUtf8_body L gaps fun g' h' => hgap g' (by simp [h'])
  have htail : isUtf8 (g ++ body L gaps) = true := by rw [isUtf8_append hg, hrest]
  have hbody : isUtf8 (s.text ++ (g ++ body L gaps)) = true := by rw [isUtf8_append s.utf8, htail]
  refine ⟨g, gaps, hr, by simpa using hlength, ?_⟩
  rw [Rendering.text, hr, body, chars_append _ (startsWhole_of_isUtf8 hbody),
    chars_append _ (startsWhole_of_isUtf8 htail), chars_append _ (startsWhole_of_isUtf8 hrest)]

/-- A `;` that the trimming leaves hides the first statement's first word: it stands in front of it,
or right behind it with another statement or another `;` after white space to follow. -/
def Rendering.Hides : {L : List Statement} → Rendering L → Prop
  | [], _ => False
  | s :: L, r => semicolon ∈ chars r.lead ∨
      (s.afterWord = [] ∧ (chars (r.gaps.headD [])).head? = some semicolon ∧
        (L ≠ [] ∨ semicolon ∈ (chars (r.gaps.headD [])).dropWhile (· == semicolon)))

/-- The trimmed text around a statement, from its first word on. -/
theorem trimmedSql_statement (s : Statement) {text : Bytes} {as bs : List Bytes}
    (h : chars text = as ++ (chars s.text ++ bs)) :
    trimmedSql text = (as ++ (chars s.text).takeWhile isWhitespace).dropWhile isWhitespace ++
      (s.word ++ trimEnd (s.afterWord ++ bs)) := by
  obtain ⟨x, xs, hword, hs, hsolid⟩ := s.split
  have htext : chars text = (as ++ (chars s.text).takeWhile isWhitespace) ++
      x :: (xs ++ (s.afterWord ++ bs)) := by
    rw [h]
    conv_lhs => rw [hs]
    simp
  rw [trimmedSql, htext, trimmed_append_cons (hsolid x List.mem_cons_self),
    trimEnd_append fun c hc => hsolid c (List.mem_cons_of_mem _ hc), hword]
  rfl

/-- A `;` in front of the first statement is where the trimmed text starts. -/
theorem dropWhile_lead {lead ws : List Bytes}
    (hgap : ∀ c ∈ lead, isWhitespace c = true ∨ c = semicolon) (h : semicolon ∈ lead) :
    ∃ rest, (lead ++ ws).dropWhile isWhitespace = semicolon :: rest := by
  induction lead with
  | nil => cases h
  | cons c lead ih =>
    rcases hgap c List.mem_cons_self with hw | rfl
    · have hne : semicolon ≠ c := by
        rintro rfl
        exact absurd hw (by decide)
      obtain ⟨rest, hrest⟩ := ih (fun c hc => hgap c (List.mem_cons_of_mem _ hc))
        ((List.mem_cons.mp h).resolve_left hne)
      exact ⟨rest, by rw [List.cons_append, List.dropWhile_cons_of_pos hw, hrest]⟩
    · exact ⟨lead ++ ws, by rw [List.cons_append, List.dropWhile_cons_of_neg (by decide)]⟩

/-- Without a `;` in front it starts with the first statement's first word. -/
theorem trimmedSql_first {s : Statement} {text : Bytes} {lead bs : List Bytes}
    (hgap : ∀ c ∈ lead, isWhitespace c = true ∨ c = semicolon) (hlead : semicolon ∉ lead)
    (h : chars text = lead ++ (chars s.text ++ bs)) :
    trimmedSql text = s.word ++ trimEnd (s.afterWord ++ bs) := by
  have hnil : (lead ++ (chars s.text).takeWhile isWhitespace).dropWhile isWhitespace = [] := by
    rw [List.dropWhile_eq_nil_iff]
    intro c hc
    rcases List.mem_append.mp hc with hc | hc
    · rcases hgap c hc with hw | rfl
      · exact hw
      · exact absurd hc hlead
    · exact List.mem_takeWhile_imp hc
  rw [trimmedSql_statement s h, hnil, List.nil_append]

/-- A statement in what follows keeps it from being trimmed away. -/
theorem trimEnd_body {L : List Statement} {gaps : List Bytes} (hne : L ≠ [])
    (hlen : gaps.length = L.length) (hgap : ∀ g ∈ gaps, IsGap g) (as : List Bytes) :
    trimEnd (as ++ chars (body L gaps)) ≠ [] := by
  obtain ⟨s, L, rfl⟩ := List.exists_cons_of_ne_nil hne
  obtain ⟨g, gaps, rfl⟩ : ∃ g gs, gaps = g :: gs := List.exists_cons_of_length_eq_add_one hlen
  obtain ⟨x, xs, -, hs, hsolid⟩ := s.split
  have hrest : isUtf8 (g ++ body L gaps) = true := by
    rw [isUtf8_append (hgap g List.mem_cons_self).utf8]
    exact isUtf8_body L gaps fun g' h => hgap g' (List.mem_cons_of_mem _ h)
  have hcut : as ++ chars (body (s :: L) (g :: gaps)) =
      (as ++ (chars s.text).takeWhile isWhitespace) ++
        x :: (xs ++ (s.afterWord ++ chars (g ++ body L gaps))) := by
    rw [body, chars_append _ (startsWhole_of_isUtf8 hrest)]
    conv_lhs => rw [hs]
    simp
  rw [hcut, trimEnd_append_cons (hsolid x List.mem_cons_self)]
  simp

/-- A `;` behind which white space and another one follow is not trimmed away. -/
theorem trimEnd_gap {g ds : List Bytes} (hgap : ∀ c ∈ g, isWhitespace c = true ∨ c = semicolon)
    (hg : g = semicolon :: ds) (h : semicolon ∈ g.dropWhile (· == semicolon)) :
    trimEnd g ≠ [] := by
  obtain ⟨w, bs, hw⟩ := List.exists_cons_of_ne_nil (List.ne_nil_of_mem h)
  have hne : w ≠ semicolon := by
    have hhead := dropWhile_head hw
    simpa using hhead
  have hmem : w ∈ g := (List.dropWhile_suffix (· == semicolon)).mem (by rw [hw]; simp)
  have hb : semicolon ∈ bs := by
    rw [hw] at h
    exact (List.mem_cons.mp h).resolve_left (Ne.symm hne)
  have hfront : g.takeWhile (· == semicolon) = semicolon :: ds.takeWhile (· == semicolon) := by
    rw [hg, List.takeWhile_cons_of_pos (by simp)]
  have hsplit : g = semicolon :: ds.takeWhile (· == semicolon) ++ w :: bs := by
    rw [← hfront, ← hw, List.takeWhile_append_dropWhile]
  rw [hsplit]
  exact trimEnd_semicolons ((hgap w hmem).resolve_right hne) _ bs hb

/-- A hidden word is no transaction command. -/
theorem verbOf_hidden {s : Statement} {L : List Statement} {r : Rendering (s :: L)} (h : r.Hides) :
    verbOf r.text = .other := by
  obtain ⟨g, gaps, hr, hlen, htext⟩ := chars_text r
  have hgap := r.isGap
  rw [hr] at hgap
  have hlead := (hgap r.lead (by simp)).chars
  have hg := (hgap g (by simp)).chars
  rw [verbOf_eq]
  apply verbOfWord_semicolon
  by_cases hsemi : semicolon ∈ chars r.lead
  · obtain ⟨rest, hrest⟩ :=
      @dropWhile_lead (chars r.lead) ((chars s.text).takeWhile isWhitespace) hlead hsemi
    rw [trimmedSql_statement s htext, hrest]
    exact mem_firstWord_semicolon _
  · obtain ⟨hafter, hhead, hmore⟩ := h.resolve_left hsemi
    rw [hr, List.headD_cons] at hhead hmore
    obtain ⟨ds, hds⟩ : ∃ ds, chars g = semicolon :: ds := by
      cases hcs : chars g with
      | nil => rw [hcs] at hhead; cases hhead
      | cons c ds =>
        rw [hcs] at hhead
        exact ⟨ds, by rw [Option.some.inj hhead]⟩
    have hkept : trimEnd (chars g ++ chars (body L gaps)) ≠ [] := by
      by_cases hL : L = []
      · subst hL
        have hnil : chars (body [] gaps) = [] := rfl
        rw [hnil, List.append_nil]
        exact trimEnd_gap hg hds (hmore.resolve_left (by simp))
      · exact trimEnd_body hL hlen (fun g' h => hgap g' (by simp [h])) _
    rw [hds, List.cons_append] at hkept
    obtain ⟨es, hes⟩ := trimEnd_head hkept
    obtain ⟨x, xs, hword, -, hsolid⟩ := s.split
    rw [← hword] at hsolid
    rw [trimmedSql_first hlead hsemi htext, hafter, List.nil_append, hds, List.cons_append, hes,
      firstWord_append hsolid (by rw [hword]; simp), List.takeWhile_cons_of_pos (by decide)]
    simp [semicolon]

/-- White space ends the word. -/
theorem takeWhile_trimEnd {c : Bytes} {cs : List Bytes} (hc : isWhitespace c = true) :
    ((trimEnd (c :: cs)).takeWhile fun c => !isWhitespace c) = [] := by
  by_cases h : trimEnd (c :: cs) = []
  · rw [h]
    rfl
  · obtain ⟨ds, hds⟩ := trimEnd_head h
    rw [hds, List.takeWhile_cons_of_neg (by simp [hc])]

/-- Nothing is glued to a word that is not hidden. -/
theorem takeWhile_shown {s : Statement} {L : List Statement} {r : Rendering (s :: L)}
    (h : ¬ r.Hides) {g : Bytes} {gaps : List Bytes} (hr : r.gaps = g :: gaps)
    (hlen : gaps.length = L.length) :
    ((trimEnd (s.afterWord ++ (chars g ++ chars (body L gaps)))).takeWhile
      fun c => !isWhitespace c) = [] := by
  have hg := (r.isGap g (by rw [hr]; simp)).chars
  simp only [Rendering.Hides, not_or, hr, List.headD_cons] at h
  cases hafter : s.afterWord with
  | cons c cs => exact takeWhile_trimEnd (Statement.afterWord_head hafter)
  | nil =>
    cases hcs : chars g with
    | nil =>
      -- only the last statement may have nothing behind it
      have hL : L = [] := by
        cases gaps with
        | nil => exact List.length_eq_zero_iff.mp hlen.symm
        | cons g' gaps =>
          have hmem := r.separated g (by rw [hr]; simp)
          rw [hcs] at hmem
          cases hmem
      subst hL
      rfl
    | cons c ds =>
      rcases hg c (by rw [hcs]; exact List.mem_cons_self) with hw | rfl
      · exact takeWhile_trimEnd hw
      · have hmore : ¬ (L ≠ [] ∨ semicolon ∈ (chars g).dropWhile (· == semicolon)) :=
          fun hm => h.2 ⟨hafter, by rw [hcs]; rfl, hm⟩
        rw [not_or, not_not] at hmore
        obtain ⟨rfl, hnone⟩ := hmore
        have hnil : chars (body [] gaps) = [] := rfl
        rw [← hcs, hnil, List.append_nil, List.nil_append, trimEnd_eq_nil hg hnone]
        rfl

/-- A word that is not hidden is read as it is. -/
theorem verbOf_shown {s : Statement} {L : List Statement} {r : Rendering (s :: L)}
    (h : ¬ r.Hides) : verbOf r.text = s.verb := by
  obtain ⟨g, gaps, hr, hlen, htext⟩ := chars_text r
  obtain ⟨x, xs, hword, -, hsolid⟩ := s.split
  rw [← hword] at hsolid
  have hlead : semicolon ∉ chars r.lead := fun hsemi => h (.inl hsemi)
  rw [verbOf_eq, trimmedSql_first (r.isGap r.lead List.mem_cons_self).chars hlead htext,
    firstWord_append hsolid (by rw [hword]; simp), takeWhile_shown h hr hlen, List.append_nil]
  rfl

/-- Nothing but white space and `;` is no transaction command. -/
theorem verbOf_empty {text : Bytes} (h : ∀ c ∈ chars text, isWhitespace c = true ∨ c = semicolon) :
    verbOf text = .other := by
  have hsub : ∀ c ∈ trimmedSql text, c ∈ chars text := by
    intro c hc
    unfold trimmedSql trim at hc
    have h₁ := (List.dropWhile_suffix _).mem ((trimEndMatches_isPrefix _ _).mem hc)
    have h₂ := (trimEndMatches_isPrefix _ _).mem ((trimEndMatches_isPrefix _ _).mem h₁)
    exact (List.dropWhile_suffix _).mem h₂
  rw [verbOf_eq]
  cases hword : ((trimmedSql text).dropWhile isWhitespace) with
  | nil =>
    rw [firstWord, hword]
    decide
  | cons c cs =>
    have hmem : c ∈ trimmedSql text := (List.dropWhile_suffix isWhitespace).mem (by rw [hword]; simp)
    have hsemi : c = semicolon := by
      refine (h c (hsub c hmem)).resolve_left ?_
      simp [dropWhile_head hword]
    apply verbOfWord_semicolon
    rw [firstWord, hword, hsemi, List.takeWhile_cons_of_pos (by decide)]
    exact List.mem_append_left _ (List.mem_singleton_self 59)

/-! ## Every statement is part of the trimmed text -/

/-- A statement without the white space around it. -/
theorem Statement.trim_eq (s : Statement) :
    trim (chars s.text) = s.word ++ trimEndMatches isWhitespace s.afterWord := by
  obtain ⟨x, xs, hword, -, hsolid⟩ := s.split
  have hsplit : s.word ++ s.afterWord = (chars s.text).dropWhile isWhitespace :=
    List.takeWhile_append_dropWhile
  have hne : s.word ≠ [] := by
    rw [hword]
    nofun
  obtain ⟨ws, m, hm⟩ := (List.eq_nil_or_concat s.word).resolve_left hne
  have hmsolid : Solid m := hsolid m (by rw [← hword, hm]; simp)
  rw [trim, ← hsplit, hm, List.concat_eq_append, List.append_assoc, List.singleton_append,
    trimEndMatches_append_cons hmsolid.1, List.append_assoc]
  rfl

/-- What the trimming of a statement keeps is kept in front of anything. -/
theorem trimEnd_trimmed {cs : List Bytes} (hplain : semicolon ∉ cs) (bs : List Bytes) :
    ∃ rest, trimEnd (cs ++ bs) = trimEndMatches isWhitespace cs ++ rest := by
  obtain ⟨ws, hws⟩ := trimEndMatches_isPrefix isWhitespace cs
  rcases List.eq_nil_or_concat (trimEndMatches isWhitespace cs) with hnil | ⟨init, m, hm⟩
  · exact ⟨_, by rw [hnil, List.nil_append]⟩
  · have hsolid : Solid m := by
      have hrev : cs.reverse.dropWhile isWhitespace = m :: init.reverse := by
        have h := congrArg List.reverse hm
        simpa [trimEndMatches] using h
      refine ⟨dropWhile_head hrev, ?_⟩
      rintro rfl
      exact hplain ((trimEndMatches_isPrefix isWhitespace cs).mem (by rw [hm]; simp))
    refine ⟨trimEnd (ws ++ bs), ?_⟩
    conv_lhs => rw [← hws, hm]
    rw [hm]
    simpa using trimEnd_append_cons hsolid init (ws ++ bs)

theorem mem_body {s : Statement} : ∀ {L : List Statement} {gaps : List Bytes}, s ∈ L →
    gaps.length = L.length → (∀ g ∈ gaps, IsGap g) →
    ∃ as bs, body L gaps = as ++ (s.text ++ bs) ∧ isUtf8 bs = true
  | s' :: L, g :: gaps, hs, hlen, hgap => by
    have hrest := fun g' h => hgap g' (List.mem_cons_of_mem g h)
    rcases List.mem_cons.mp hs with rfl | hs
    · refine ⟨[], g ++ body L gaps, rfl, ?_⟩
      rw [isUtf8_append (hgap g List.mem_cons_self).utf8, isUtf8_body L gaps hrest]
    · obtain ⟨as, bs, hbody, hutf⟩ := mem_body hs (by simpa using hlen) hrest
      exact ⟨s'.text ++ (g ++ as), bs, by rw [body, hbody]; simp, hutf⟩

/-- Every statement of the list is part of the trimmed text. -/
theorem statement_infix {L : List Statement} (r : Rendering L) {s : Statement} (hs : s ∈ L) :
    (trim (chars s.text)).flatten <:+: (trimmedSql r.text).flatten := by
  obtain ⟨as, bs, hbody, hutf⟩ := mem_body hs r.length fun g h => r.isGap g (List.mem_cons_of_mem _ h)
  have hwhole : isUtf8 (s.text ++ bs) = true := by rw [isUtf8_append s.utf8, hutf]
  have htext : chars r.text = chars (r.lead ++ as) ++ (chars s.text ++ chars bs) := by
    rw [Rendering.text, hbody, ← List.append_assoc, chars_append _ (startsWhole_of_isUtf8 hwhole),
      chars_append _ (startsWhole_of_isUtf8 hutf)]
  have hplain : semicolon ∉ s.afterWord := fun h =>
    s.plain ((List.dropWhile_suffix _).mem ((List.dropWhile_suffix _).mem h))
  obtain ⟨rest, hrest⟩ := trimEnd_trimmed hplain (chars bs)
  rw [trimmedSql_statement s htext, hrest, s.trim_eq, ← List.append_assoc s.word]
  simp only [List.flatten_append]
  exact ⟨_, _, by rw [List.append_assoc]⟩

/-! ## What `run_query` does with a text -/

section

variable {user database : Bytes} {handler : QueryHandler} {status : TxnStatus} {sql : Bytes}

theorem runQuery_refused (hs : status = .failed) (hc : verbOf sql ≠ .commit)
    (hr : verbOf sql ≠ .rollback) : runQuery user database handler status sql =
      (.failed, [.sent failedBlock, .sent (Message.readyForQuery TxnStatus.failed.code)]) := by
  subst hs
  simp [runQuery, answerQuery, hc, hr]

theorem runQuery_handed (hs : status ≠ .failed) (hv : verbOf sql = .other) :
    runQuery user database handler status sql =
      let response := handler ⟨user, database, status⟩ (trimmedSql sql).flatten
      (response.status status, .called ⟨user, database, status⟩ (trimmedSql sql).flatten ::
        response.frames.map .sent ++
          [.sent (Message.readyForQuery (response.status status).code)]) := by
  simp [runQuery, answerQuery, hs, hv]

/-- A transaction command that is not refused ends in a status that is not failed, whatever else
stands in the text. -/
theorem runQuery_command {verb : Verb} (hv : verb ≠ .other)
    (hs : ¬ (status = .failed ∧ verb = .begin)) :
    ∃ status' tag, status' ≠ .failed ∧ ∀ sql, verbOf sql = verb →
      runQuery user database handler status sql =
        (status', [.sent (Message.commandComplete tag),
          .sent (Message.readyForQuery status'.code)]) := by
  cases verb with
  | begin =>
    refine ⟨.inTransaction, ascii "BEGIN", by decide, fun sql h => ?_⟩
    have hne : status ≠ .failed := fun hf => hs ⟨hf, rfl⟩
    simp [runQuery, answerQuery, h, hne]
  | commit =>
    refine ⟨.idle, ascii "COMMIT", by decide, fun sql h => ?_⟩
    simp [runQuery, answerQuery, h]
  | rollback =>
    refine ⟨.idle, ascii "ROLLBACK", by decide, fun sql h => ?_⟩
    simp [runQuery, answerQuery, h]
  | other => exact absurd rfl hv

end

/-! ## Two ways of writing a list -/

/-- The payload of the `Query`. -/
def Rendering.payload {L : List Statement} (r : Rendering L) : Bytes := r.text ++ [0]

theorem isWhitespace_noNul {c : Bytes} (h : isWhitespace c = true) : 0 ∉ c := by
  intro hc
  unfold isWhitespace at h
  split at h
  · obtain rfl := List.mem_singleton.mp hc
    exact absurd h (by decide)
  · simp only [List.mem_cons, List.not_mem_nil, or_false] at hc
    rcases hc with rfl | rfl <;> simp at h
  · simp only [List.mem_cons, List.not_mem_nil, or_false] at hc
    rcases hc with rfl | rfl | rfl <;> simp at h
  · cases h

theorem IsGap.noNul {g : Bytes} (h : IsGap g) : 0 ∉ g := by
  intro h0
  rw [← flatten_chars g] at h0
  obtain ⟨c, hc, h0⟩ := List.mem_flatten.mp h0
  rcases h.chars c hc with hw | rfl
  · exact isWhitespace_noNul hw h0
  · exact absurd h0 (by decide)

theorem body_noNul : ∀ (L : List Statement) (gaps : List Bytes), (∀ g ∈ gaps, IsGap g) →
    0 ∉ body L gaps
  | [], _, _ => by simp [body]
  | s :: L, [], _ => by simp [body]
  | s :: L, g :: gaps, h => by
    have ih := body_noNul L gaps fun g' hg => h g' (List.mem_cons_of_mem _ hg)
    simp [body, s.noNul, (h g List.mem_cons_self).noNul, ih]

/-- The `Query` carries the whole text. -/
theorem querySql_payload {L : List Statement} (r : Rendering L) : querySql r.payload = r.text := by
  have hlead := r.isGap r.lead List.mem_cons_self
  have hgaps : ∀ g ∈ r.gaps, IsGap g := fun g h => r.isGap g (List.mem_cons_of_mem _ h)
  have hnul : 0 ∉ r.text := by simp [Rendering.text, hlead.noNul, body_noNul L r.gaps hgaps]
  have hutf : isUtf8 r.text = true := by
    rw [Rendering.text, isUtf8_append hlead.utf8, isUtf8_body L r.gaps hgaps]
  rw [querySql, Rendering.payload, splitOnce_append hnul]
  exact if_pos hutf

/-- The run for the query, with a handler that gives this answer. -/
def Rendering.run (user database : Bytes) (answer : QueryResponse) (status : TxnStatus)
    {L : List Statement} (r : Rendering L) : TxnStatus × List Effect :=
  runQuery user database (fun _ _ => answer) status (querySql r.payload)

/-- What the client is told. -/
def framesSent (effects : List Effect) : List Bytes :=
  effects.filterMap fun
    | .sent bs => some bs
    | _ => none

def Acknowledged (effects : List Effect) : Prop :=
  ∃ bs ∈ framesSent effects, bs.head? = some Tag.commandComplete

def Handed (effects : List Effect) : Prop := ∃ ctx sql, .called ctx sql ∈ effects

/-- If the query is acknowledged, every statement that is no transaction command was part of a text
given to the handler. -/
def NoneLost (L : List Statement) (effects : List Effect) : Prop :=
  Acknowledged effects → ∀ s ∈ L, s.verb = .other →
    ∃ ctx sql, .called ctx sql ∈ effects ∧ (trim (chars s.text)).flatten <:+: sql

/-- Two ways of writing a list lead to the same status, tell the client the same and are both handed
to the handler or both not; and neither loses a statement. -/
structure SeparatorsHarmless (user database : Bytes) (answer : QueryResponse) (status : TxnStatus)
    {L : List Statement} (r₁ r₂ : Rendering L) : Prop where
  leaves : (r₁.run user database answer status).1 = (r₂.run user database answer status).1
  told : framesSent (r₁.run user database answer status).2 =
    framesSent (r₂.run user database answer status).2
  handed : Handed (r₁.run user database answer status).2 ↔
    Handed (r₂.run user database answer status).2
  kept₁ : NoneLost L (r₁.run user database answer status).2
  kept₂ : NoneLost L (r₂.run user database answer status).2

/-- The first statement is no transaction command, or one that is refused in a failed block, or
hidden in both texts; or it is hidden in neither and all statements are transaction commands. -/
def HarmlessWhen (status : TxnStatus) : {L : List Statement} → Rendering L → Rendering L → Prop
  | [], _, _ => True
  | s :: L, r₁, r₂ => s.verb = .other ∨ (status = .failed ∧ s.verb = .begin) ∨
      (r₁.Hides ∧ r₂.Hides) ∨
      (¬ r₁.Hides ∧ ¬ r₂.Hides ∧ ∀ t ∈ s :: L, t.verb ≠ .other)

section

variable {user database : Bytes} {answer : QueryResponse} {status : TxnStatus}
  {L : List Statement} {r r₁ r₂ : Rendering L}

theorem run_eq : r.run user database answer status =
    runQuery user database (fun _ _ => answer) status r.text := by
  rw [Rendering.run, querySql_payload]

theorem SeparatorsHarmless.symm (h : SeparatorsHarmless user database answer status r₁ r₂) :
    SeparatorsHarmless user database answer status r₂ r₁ :=
  ⟨h.leaves.symm, h.told.symm, h.handed.symm, h.kept₂, h.kept₁⟩

theorem noneLost_refused :
    NoneLost L [.sent failedBlock, .sent (Message.readyForQuery TxnStatus.failed.code)] := by
  rintro ⟨bs, hbs, hhead⟩
  simp only [framesSent, List.filterMap_cons, List.filterMap_nil, List.mem_cons, List.not_mem_nil,
    or_false] at hbs
  rcases hbs with rfl | rfl
  · exact absurd hhead (by decide)
  · exact absurd hhead (by decide)

/-- Two texts that a failed block refuses. -/
theorem harmless_refused (hs : status = .failed)
    (h₁ : verbOf r₁.text ≠ .commit ∧ verbOf r₁.text ≠ .rollback)
    (h₂ : verbOf r₂.text ≠ .commit ∧ verbOf r₂.text ≠ .rollback) :
    SeparatorsHarmless user database answer status r₁ r₂ := by
  have hrun : ∀ r : Rendering L, verbOf r.text ≠ .commit ∧ verbOf r.text ≠ .rollback →
      r.run user database answer status =
        (.failed, [.sent failedBlock, .sent (Message.readyForQuery TxnStatus.failed.code)]) :=
    fun r h => run_eq.trans (runQuery_refused hs h.1 h.2)
  constructor
  · rw [hrun r₁ h₁, hrun r₂ h₂]
  · rw [hrun r₁ h₁, hrun r₂ h₂]
  · rw [hrun r₁ h₁, hrun r₂ h₂]
  · rw [hrun r₁ h₁]
    exact noneLost_refused
  · rw [hrun r₂ h₂]
    exact noneLost_refused

/-- Two texts that are no transaction commands. -/
theorem harmless_other (h₁ : verbOf r₁.text = .other) (h₂ : verbOf r₂.text = .other) :
    SeparatorsHarmless user database answer status r₁ r₂ := by
  by_cases hs : status = .failed
  · exact harmless_refused hs (by rw [h₁]; exact ⟨nofun, nofun⟩) (by rw [h₂]; exact ⟨nofun, nofun⟩)
  · have hrun : ∀ r : Rendering L, verbOf r.text = .other → r.run user database answer status =
        (answer.status status, .called ⟨user, database, status⟩ (trimmedSql r.text).flatten ::
          answer.frames.map .sent ++
            [.sent (Message.readyForQuery (answer.status status).code)]) :=
      fun r h => run_eq.trans (runQuery_handed hs h)
    have hkept : ∀ r : Rendering L, verbOf r.text = .other →
        NoneLost L (r.run user database answer status).2 := by
      intro r h _ s hmem _
      rw [hrun r h]
      exact ⟨_, _, List.mem_cons_self, statement_infix r hmem⟩
    have hhanded : ∀ r : Rendering L, verbOf r.text = .other →
        Handed (r.run user database answer status).2 := by
      intro r h
      rw [hrun r h]
      exact ⟨_, _, List.mem_cons_self⟩
    have hskip : ∀ ctx sql effects, framesSent (.called ctx sql :: effects) = framesSent effects :=
      fun _ _ _ => rfl
    constructor
    · rw [hrun r₁ h₁, hrun r₂ h₂]
    · rw [hrun r₁ h₁, hrun r₂ h₂, List.cons_append, List.cons_append, hskip, hskip]
    · exact iff_of_true (hhanded r₁ h₁) (hhanded r₂ h₂)
    · exact hkept r₁ h₁
    · exact hkept r₂ h₂

theorem not_handed_command {tag : Bytes} {code : UInt8} :
    ¬ Handed [.sent (Message.commandComplete tag), .sent (Message.readyForQuery code)] := by
  rintro ⟨ctx, sql, h⟩
  simp at h

/-- Two texts read as the same transaction command, if there is nothing else in the list. -/
theorem harmless_command {verb : Verb} (hv : verb ≠ .other)
    (hs : ¬ (status = .failed ∧ verb = .begin)) (h₁ : verbOf r₁.text = verb)
    (h₂ : verbOf r₂.text = verb) (hall : ∀ s ∈ L, s.verb ≠ .other) :
    SeparatorsHarmless user database answer status r₁ r₂ := by
  obtain ⟨status', tag, -, hrun⟩ := @runQuery_command user database (fun _ _ => answer) status
    verb hv hs
  have hkept : ∀ effects, NoneLost L effects := fun _ _ s hmem hother => absurd hother (hall s hmem)
  refine ⟨?_, ?_, ?_, hkept _, hkept _⟩
  · rw [run_eq, run_eq, hrun _ h₁, hrun _ h₂]
  · rw [run_eq, run_eq, hrun _ h₁, hrun _ h₂]
  · rw [run_eq, run_eq, hrun _ h₁, hrun _ h₂]

/-- A transaction command that only one of the texts hides makes a difference. -/
theorem not_harmless_hidden {verb : Verb} (hv : verb ≠ .other)
    (hs : ¬ (status = .failed ∧ verb = .begin)) (h₁ : verbOf r₁.text = .other)
    (h₂ : verbOf r₂.text = verb) : ¬ SeparatorsHarmless user database answer status r₁ r₂ := by
  intro h
  obtain ⟨status', tag, hne, hrun⟩ := @runQuery_command user database (fun _ _ => answer) status
    verb hv hs
  have hrun₂ := run_eq.trans (hrun _ h₂)
  by_cases hf : status = .failed
  · have hrun₁ := (@run_eq user database answer status L r₁).trans
      (runQuery_refused hf (by rw [h₁]; nofun) (by rw [h₁]; nofun))
    have hleaves := h.leaves
    rw [hrun₁, hrun₂] at hleaves
    exact hne hleaves.symm
  · have hrun₁ := (@run_eq user database answer status L r₁).trans (runQuery_handed hf h₁)
    have hhanded : Handed (r₂.run user database answer status).2 := by
      rw [← h.handed, hrun₁]
      exact ⟨_, _, List.mem_cons_self⟩
    rw [hrun₂] at hhanded
    exact not_handed_command hhanded

/-- A transaction command is acknowledged for the whole list. -/
theorem not_harmless_lost {verb : Verb} (hv : verb ≠ .other)
    (hs : ¬ (status = .failed ∧ verb = .begin)) (h₁ : verbOf r₁.text = verb) {s : Statement}
    (hmem : s ∈ L) (hother : s.verb = .other) :
    ¬ SeparatorsHarmless user database answer status r₁ r₂ := by
  intro h
  obtain ⟨status', tag, -, hrun⟩ := @runQuery_command user database (fun _ _ => answer) status
    verb hv hs
  have hkept := h.kept₁
  rw [run_eq, hrun _ h₁] at hkept
  obtain ⟨ctx, sql, hcalled, -⟩ :=
    hkept ⟨Message.commandComplete tag, List.mem_cons_self, rfl⟩ s hmem hother
  exact not_handed_command ⟨ctx, sql, hcalled⟩

end

/-- When separators make no difference. -/
theorem separators_harmless_iff (user database : Bytes) (answer : QueryResponse)
    (status : TxnStatus) {L : List Statement} (r₁ r₂ : Rendering L) :
    SeparatorsHarmless user database answer status r₁ r₂ ↔ HarmlessWhen status r₁ r₂ := by
  cases L with
  | nil =>
    have hempty : ∀ r : Rendering [], verbOf r.text = .other := by
      intro r
      have htext : r.text = r.lead := List.append_nil r.lead
      rw [htext]
      exact verbOf_empty (r.isGap r.lead List.mem_cons_self).chars
    exact iff_of_true (harmless_other (hempty r₁) (hempty r₂)) trivial
  | cons s L =>
    by_cases hother : s.verb = .other
    · have hverb : ∀ r : Rendering (s :: L), verbOf r.text = .other := by
        intro r
        by_cases hr : r.Hides
        · exact verbOf_hidden hr
        · rw [verbOf_shown hr, hother]
      exact iff_of_true (harmless_other (hverb r₁) (hverb r₂)) (.inl hother)
    by_cases hs : status = .failed ∧ s.verb = .begin
    · have hverb : ∀ r : Rendering (s :: L), verbOf r.text ≠ .commit ∧ verbOf r.text ≠ .rollback := by
        intro r
        by_cases hr : r.Hides
        · rw [verbOf_hidden hr]
          exact ⟨nofun, nofun⟩
        · rw [verbOf_shown hr, hs.2]
          exact ⟨nofun, nofun⟩
      exact iff_of_true (harmless_refused hs.1 (hverb r₁) (hverb r₂)) (.inr (.inl hs))
    by_cases h₁ : r₁.Hides <;> by_cases h₂ : r₂.Hides
    · exact iff_of_true (harmless_other (verbOf_hidden h₁) (verbOf_hidden h₂))
        (.inr (.inr (.inl ⟨h₁, h₂⟩)))
    · refine iff_of_false (not_harmless_hidden hother hs (verbOf_hidden h₁) (verbOf_shown h₂)) ?_
      simp [HarmlessWhen, hother, hs, h₁, h₂]
    · refine iff_of_false (fun h => not_harmless_hidden hother hs (verbOf_hidden h₂)
        (verbOf_shown h₁) h.symm) ?_
      simp [HarmlessWhen, hother, hs, h₁, h₂]
    · by_cases hall : ∀ t ∈ s :: L, t.verb ≠ .other
      · exact iff_of_true (harmless_command hother hs (verbOf_shown h₁) (verbOf_shown h₂) hall)
          (.inr (.inr (.inr ⟨h₁, h₂, hall⟩)))
      · refine iff_of_false ?_ (by simp only [HarmlessWhen, hother, hs, h₁, h₂, hall]; simp)
        simp only [not_forall, not_not] at hall
        obtain ⟨t, hmem, ht⟩ := hall
        exact not_harmless_lost hother hs (verbOf_shown h₁) hmem ht

example : verbOf (ascii "BEGIN ; SELECT 1") = .begin ∧ verbOf (ascii "BEGIN;SELECT 1") = .other := by
  decide +kernel

def commitStatement : Statement where
  text := ascii "COMMIT"
  utf8 := isUtf8_of_isAscii (by decide)
  noNul := by decide
  nonblank := ⟨[67], by decide, rfl⟩
  plain := by decide

/-- `COMMIT` with this behind it. -/
def commitRendering (g : Bytes) (h : IsGap g) : Rendering [commitStatement] where
  lead := []
  gaps := [g]
  length := rfl
  isGap := by
    intro g' hg
    rcases List.mem_cons.mp hg with rfl | hg
    · exact ⟨isUtf8_of_isAscii (by decide), nofun⟩
    · obtain rfl := List.mem_singleton.mp hg
      exact h
  separated := nofun

theorem isGap_once : IsGap (ascii ";") := ⟨isUtf8_of_isAscii (by decide), by decide⟩

theorem isGap_twice : IsGap (ascii "; ;") := ⟨isUtf8_of_isAscii (by decide), by decide⟩

/-- A blank between two `;` behind `COMMIT` sends it to the handler, and the block stays open. -/
theorem repeated_separator_keeps_block :
    (commitRendering _ isGap_twice).text = ascii "COMMIT; ;" ∧
      (commitRendering _ isGap_once).text = ascii "COMMIT;" ∧
      ¬ SeparatorsHarmless (ascii "app") (ascii "db") (.command (ascii "OK")) .inTransaction
        (commitRendering _ isGap_twice) (commitRendering _ isGap_once) := by
  have htwice : verbOf (commitRendering _ isGap_twice).text = .other := by decide +kernel
  have honce : verbOf (commitRendering _ isGap_once).text = .commit := by decide +kernel
  exact ⟨rfl, rfl, not_harmless_hidden (by decide) (by decide) htwice honce⟩

end RamaPg.Proxy
