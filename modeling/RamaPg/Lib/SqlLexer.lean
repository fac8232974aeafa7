import RamaPg.Lib.Bytes

/-!
# Lexing SQL text

PostgreSQL's rules for words, operators, separators and string literals, as a machine that is fed
the text byte by byte. The literals are those of `standard_conforming_strings = on`: a backslash is
an ordinary character, two quotes stand for one, and literals with white space and a line break
between them are one literal. Text with anything else in it (comments, quoted names, dollar quotes,
numbers, literals with a prefix, operators of several characters) leaves the machine `stuck`.
-/

namespace RamaPg.Lib.SqlLexer

inductive Token where
  | word (text : Bytes)
  | operator (b : UInt8)
  | separator (b : UInt8)
  | literal (value : Bytes)
  deriving DecidableEq

/-- What the machine is reading; `closed` stands behind a quote that may end the literal, `gap` in
the white space behind it. -/
inductive Mode where
  | start
  | word (text : Bytes)
  | operator (b : UInt8)
  | quoted (value : Bytes)
  | closed (value : Bytes)
  | gap (value : Bytes) (newline : Bool)
  | stuck
  deriving DecidableEq

def isNewline (b : UInt8) : Bool := b == 10 || b == 13

def isSpace (b : UInt8) : Bool := b == 32 || (9 ≤ b && b ≤ 13)

def isLetter (b : UInt8) : Bool :=
  (65 ≤ b && b ≤ 90) || (97 ≤ b && b ≤ 122) || b == 95 || 0x80 ≤ b

def isWordChar (b : UInt8) : Bool := isLetter b || (48 ≤ b && b ≤ 57) || b == 36

def isOperator (b : UInt8) : Bool := b ∈ ascii "~!@#^&|`?+-*/%<>="

def isSeparator (b : UInt8) : Bool := b ∈ ascii ",()[];"

/-- The quote or `&` behind this word would make it the prefix of another kind of literal. -/
def opensLiteral (w : Bytes) (b : UInt8) : Bool :=
  (b == 39 && [ascii "e", ascii "E", ascii "b", ascii "B", ascii "x", ascii "X", ascii "n",
    ascii "N"].contains w) || (b == 38 && [ascii "u", ascii "U"].contains w)

/-- The first byte of a token, or white space. -/
def opening (b : UInt8) : List Token × Mode :=
  if isSpace b then ([], .start)
  else if b = 39 then ([], .quoted [])
  else if isLetter b then ([], .word [b])
  else if isOperator b then ([], .operator b)
  else if isSeparator b then ([.separator b], .start)
  else ([], .stuck)

/-- A byte behind a token that has ended. -/
def closing (t : Token) (b : UInt8) : List Token × Mode := (t :: (opening b).1, (opening b).2)

/-- The tokens a byte completes and what is read then. -/
def next : Mode → UInt8 → List Token × Mode
  | .start, b => opening b
  | .word w, b =>
    if isWordChar b then ([], .word (w ++ [b]))
    else if opensLiteral w b then ([], .stuck)
    else closing (.word w) b
  | .operator c, b => if isOperator b then ([], .stuck) else closing (.operator c) b
  | .quoted v, b => if b = 39 then ([], .closed v) else ([], .quoted (v ++ [b]))
  | .closed v, b =>
    if b = 39 then ([], .quoted (v ++ [39]))
    else if isSpace b then ([], .gap v (isNewline b))
    else closing (.literal v) b
  | .gap v newline, b =>
    if isSpace b then ([], .gap v (newline || isNewline b))
    else if b = 39 ∧ newline then ([], .quoted v)
    else closing (.literal v) b
  | .stuck, _ => ([], .stuck)

def feed (s : List Token × Mode) (text : Bytes) : List Token × Mode :=
  text.foldl (fun s b => (s.1 ++ (next s.2 b).1, (next s.2 b).2)) s

/-- The token the end of the text completes; none in the middle of a literal. -/
def finish : Mode → Option (List Token)
  | .start => some []
  | .word w => some [.word w]
  | .operator b => some [.operator b]
  | .quoted _ => none
  | .closed v => some [.literal v]
  | .gap v _ => some [.literal v]
  | .stuck => none

def lex (text : Bytes) : Option (List Token) :=
  let s := feed ([], .start) text
  (finish s.2).map (s.1 ++ ·)

example : lex (ascii "a = 'it''s \\' 'b'") =
    some [.word (ascii "a"), .operator 61, .literal (ascii "it's \\"), .literal (ascii "b")] := by
  decide

/-- Every quote doubled. -/
def escapeQuotes (value : Bytes) : Bytes := value.flatMap fun b => if b = 39 then [39, 39] else [b]

theorem feed_append (s : List Token × Mode) (a b : Bytes) : feed s (a ++ b) = feed (feed s a) b :=
  List.foldl_append

/-- Inside a literal the escaped bytes are read back one by one, whatever they are. -/
theorem feed_escapeQuotes (ts : List Token) (v value : Bytes) :
    feed (ts, .quoted v) (escapeQuotes value) = (ts, .quoted (v ++ value)) := by
  induction value generalizing v with
  | nil => simp [escapeQuotes, feed]
  | cons b value ih =>
    have hcons : escapeQuotes (b :: value) =
        (if b = 39 then [39, 39] else [b]) ++ escapeQuotes value := rfl
    have hbyte : feed (ts, .quoted v) (if b = 39 then [39, 39] else [b]) =
        (ts, .quoted (v ++ [b])) := by
      by_cases hb : b = 39
      · subst hb
        simp [feed, next]
      · simp [feed, next, hb]
    rw [hcons, feed_append, hbyte, ih, List.append_assoc]
    rfl

/-- A text that ends in one escaped literal has that literal's value as its last token. -/
theorem lex_literal {pre : Bytes} {ts : List Token} (h : feed ([], .start) pre = (ts, .start))
    (value : Bytes) :
    lex (pre ++ 39 :: (escapeQuotes value ++ [39])) = some (ts ++ [.literal value]) := by
  have hopen : feed (ts, .start) [39] = (ts, .quoted []) := by
    simp [feed, next, opening, isSpace]
  have hclose : feed (ts, .quoted value) [39] = (ts, .closed value) := by
    simp [feed, next]
  have htext : pre ++ 39 :: (escapeQuotes value ++ [39]) =
      pre ++ ([39] ++ (escapeQuotes value ++ [39])) := rfl
  unfold lex
  simp only [htext, feed_append, h, hopen, feed_escapeQuotes, List.nil_append, hclose]
  rfl

end RamaPg.Lib.SqlLexer
