import RamaPg.Scram.Server

/-!
# The grammar of the client's messages

The client-first and client-final messages of RFC 5802 as syntax: a message is built from its
attributes, each with the proof that its text is of its class, and `text` is how it is written. The
server's parsers do not follow this grammar; on its messages they find every attribute where it was
put, since no class admits a comma.
-/

namespace RamaPg.Scram

open RamaPg.Lib RamaPg.Codec

/-! ## Character classes -/

def isAlpha (b : UInt8) : Bool := (65 ≤ b && b ≤ 90) || (97 ≤ b && b ≤ 122)

/-- `value-safe-char`: a character that is not NUL, a comma or an equals sign. -/
inductive ValueSafeChar : Bytes → Prop where
  | one {a : UInt8} : 0x01 ≤ a → a ≤ 0x7F → a ≠ 0x2C → a ≠ 0x3D → ValueSafeChar [a]
  | two {a b : UInt8} : isUtf8Two a b → ValueSafeChar [a, b]
  | three {a b c : UInt8} : isUtf8Three a b c → ValueSafeChar [a, b, c]
  | four {a b c d : UInt8} : isUtf8Four a b c d → ValueSafeChar [a, b, c, d]

/-- `value-char`. -/
inductive ValueChar : Bytes → Prop where
  | safe {c : Bytes} : ValueSafeChar c → ValueChar c
  | equals : ValueChar (ascii "=")

/-- A character of a `saslname`, a comma and an equals sign written as escapes. -/
inductive SaslChar : Bytes → Prop where
  | safe {c : Bytes} : ValueSafeChar c → SaslChar c
  | comma : SaslChar (ascii "=2C")
  | equals : SaslChar (ascii "=3D")

/-- `printable`. -/
inductive Printable : Bytes → Prop where
  | mk {a : UInt8} : 0x21 ≤ a → a ≤ 0x7E → a ≠ 0x2C → Printable [a]

/-- A character of a `cb-name`. -/
inductive CbNameChar : Bytes → Prop where
  | alpha {a : UInt8} : isAlpha a → CbNameChar [a]
  | digit {a : UInt8} : isDigit a → CbNameChar [a]
  | dot : CbNameChar (ascii ".")
  | dash : CbNameChar (ascii "-")

def isBase64Char (b : UInt8) : Bool := isAlpha b || isDigit b || b == 43 || b == 47

/-- `base64`. -/
inductive IsBase64 : Bytes → Prop where
  | nil : IsBase64 []
  | two {a b : UInt8} : isBase64Char a → isBase64Char b → IsBase64 [a, b, 61, 61]
  | three {a b c : UInt8} : isBase64Char a → isBase64Char b → isBase64Char c →
      IsBase64 [a, b, c, 61]
  | four {a b c d : UInt8} {s : Bytes} : isBase64Char a → isBase64Char b → isBase64Char c →
      isBase64Char d → IsBase64 s → IsBase64 (a :: b :: c :: d :: s)

/-- The letters this grammar gives a meaning. -/
def reservedNames : Bytes := ascii "aceimnprsv"

/-! ## Messages -/

structure Extension where
  name : UInt8
  value : Bytes
  alpha : isAlpha name
  unreserved : name ∉ reservedNames
  isValue : Many ValueChar value

namespace Extension

/-- `attr-val`. -/
def text (e : Extension) : Bytes := e.name :: 61 :: e.value

end Extension

def extensionsText (es : List Extension) : Bytes := es.flatMap fun e => 44 :: e.text

inductive Gs2Flag where
  | p (name : Bytes) (isCbName : Many CbNameChar name)
  | n
  | y

namespace Gs2Flag

def text : Gs2Flag → Bytes
  | p name _ => ascii "p=" ++ name
  | n => ascii "n"
  | y => ascii "y"

def kind : Gs2Flag → CbindFlag
  | p _ _ => .p
  | n => .n
  | y => .y

def cbName : Gs2Flag → Option Bytes
  | p name _ => some name
  | _ => none

end Gs2Flag

/-- `client-first-message`. -/
structure FirstMessage where
  flag : Gs2Flag
  authzid : Option { s : Bytes // Many SaslChar s }
  mext : Option { s : Bytes // Many ValueChar s }
  username : { s : Bytes // Many SaslChar s }
  nonce : { s : Bytes // Many Printable s }
  extensions : List Extension

namespace FirstMessage

def authzidText (m : FirstMessage) : Bytes := m.authzid.elim [] fun a => ascii "a=" ++ a.1

def gs2Header (m : FirstMessage) : Bytes := m.flag.text ++ 44 :: (m.authzidText ++ [44])

def mextText (m : FirstMessage) : Bytes := m.mext.elim [] fun v => ascii "m=" ++ v.1 ++ [44]

/-- `client-first-message-bare`. -/
def bare (m : FirstMessage) : Bytes :=
  m.mextText ++ (ascii "n=" ++ m.username.1) ++ 44 :: (ascii "r=" ++ m.nonce.1) ++
    extensionsText m.extensions

def text (m : FirstMessage) : Bytes := m.gs2Header ++ m.bare

/-- The attributes of the bare message, in order. -/
def attributes (m : FirstMessage) : List Bytes :=
  (m.mext.elim [] fun v => [ascii "m=" ++ v.1]) ++
    (ascii "n=" ++ m.username.1) :: (ascii "r=" ++ m.nonce.1) :: m.extensions.map Extension.text

end FirstMessage

/-- `client-final-message`. -/
structure FinalMessage where
  channelBinding : { s : Bytes // IsBase64 s }
  nonce : { s : Bytes // Many Printable s }
  extensions : List Extension
  proof : { s : Bytes // IsBase64 s }

namespace FinalMessage

/-- `client-final-message-without-proof`. -/
def withoutProof (m : FinalMessage) : Bytes :=
  (ascii "c=" ++ m.channelBinding.1) ++ 44 :: (ascii "r=" ++ m.nonce.1) ++
    extensionsText m.extensions

def text (m : FinalMessage) : Bytes := m.withoutProof ++ ascii ",p=" ++ m.proof.1

def attributes (m : FinalMessage) : List Bytes :=
  (ascii "c=" ++ m.channelBinding.1) :: (ascii "r=" ++ m.nonce.1) ::
    m.extensions.map Extension.text

end FinalMessage

/-! ## No class admits a comma -/

/-- Text in which a comma is no part of a character. -/
structure Field (s : Bytes) : Prop where
  utf8 : isUtf8 s = true
  noComma : 44 ∉ s

theorem Field.append {a b : Bytes} (ha : Field a) (hb : Field b) : Field (a ++ b) :=
  ⟨by rw [isUtf8_append ha.utf8, hb.utf8], by simp [ha.noComma, hb.noComma]⟩

theorem field_ascii {s : Bytes} (h : IsAscii s) (h44 : 44 ∉ s) : Field s :=
  ⟨isUtf8_of_isAscii h, h44⟩

theorem field_byte {a : UInt8} (h : a < 0x80) (h44 : a ≠ 44) : Field [a] :=
  field_ascii (by simpa [IsAscii] using h) (by simpa using h44.symm)

theorem field_many {P : Bytes → Prop} (hP : ∀ c, P c → Field c) {s : Bytes} (h : Many P s) :
    Field s := by
  induction h with
  | one hc => exact hP _ hc
  | more hc _ ih => exact (hP _ hc).append ih

/-- A byte of a character of several bytes is no comma. -/
theorem ne_comma {b : UInt8} (h : 0x80 ≤ b) : 44 ≠ b := by
  rintro rfl
  exact absurd h (by decide)

theorem field_valueSafeChar {c : Bytes} (h : ValueSafeChar c) : Field c := by
  cases h with
  | one h₁ h₂ h₃ h₄ =>
    exact field_byte (UInt8.lt_of_le_of_lt h₂ (by decide)) h₃
  | @two a b h =>
    obtain ⟨ha, -, hb⟩ := isUtf8Two_bytes h
    exact ⟨isUtf8_two h, by simp [ne_comma (UInt8.le_trans (by decide) ha), ne_comma hb]⟩
  | @three a b c h =>
    obtain ⟨ha, -, hb, hc⟩ := isUtf8Three_bytes h
    exact ⟨isUtf8_three h,
      by simp [ne_comma (UInt8.le_trans (by decide) ha), ne_comma hb, ne_comma hc]⟩
  | @four a b c d h =>
    obtain ⟨ha, hb, hc, hd⟩ := isUtf8Four_bytes h
    exact ⟨isUtf8_four h,
      by simp [ne_comma (UInt8.le_trans (by decide) ha), ne_comma hb, ne_comma hc, ne_comma hd]⟩

theorem field_valueChar {c : Bytes} (h : ValueChar c) : Field c := by
  cases h with
  | safe h => exact field_valueSafeChar h
  | equals => exact field_ascii (by decide) (by decide)

theorem field_saslChar {c : Bytes} (h : SaslChar c) : Field c := by
  cases h with
  | safe h => exact field_valueSafeChar h
  | comma => exact field_ascii (by decide) (by decide)
  | equals => exact field_ascii (by decide) (by decide)

theorem field_printable {c : Bytes} (h : Printable c) : Field c := by
  cases h with
  | mk h₁ h₂ h₃ => exact field_byte (UInt8.lt_of_le_of_lt h₂ (by decide)) h₃

theorem field_alpha {a : UInt8} (h : isAlpha a = true) : Field [a] := by
  apply field_byte
  · simp only [isAlpha, Bool.or_eq_true, Bool.and_eq_true, decide_eq_true_eq] at h
    rcases h with h | h <;> exact UInt8.lt_of_le_of_lt h.2 (by decide)
  · rintro rfl
    exact absurd h (by decide)

theorem field_digit {a : UInt8} (h : isDigit a = true) : Field [a] := by
  apply field_byte
  · simp only [isDigit, Bool.and_eq_true, decide_eq_true_eq] at h
    exact UInt8.lt_of_le_of_lt h.2 (by decide)
  · rintro rfl
    exact absurd h (by decide)

theorem field_cbNameChar {c : Bytes} (h : CbNameChar c) : Field c := by
  cases h with
  | alpha h => exact field_alpha h
  | digit h => exact field_digit h
  | dot => exact field_ascii (by decide) (by decide)
  | dash => exact field_ascii (by decide) (by decide)

theorem field_base64Char {a : UInt8} (h : isBase64Char a = true) : Field [a] := by
  simp only [isBase64Char, Bool.or_eq_true, beq_iff_eq] at h
  rcases h with ((h | h) | rfl) | rfl
  · exact field_alpha h
  · exact field_digit h
  · exact field_byte (by decide) (by decide)
  · exact field_byte (by decide) (by decide)

theorem field_base64 {s : Bytes} (h : IsBase64 s) : Field s := by
  have hpad : Field [61] := field_byte (by decide) (by decide)
  induction h with
  | nil => exact ⟨rfl, by simp⟩
  | two ha hb => exact (field_base64Char ha).append ((field_base64Char hb).append (hpad.append hpad))
  | three ha hb hc =>
    exact (field_base64Char ha).append ((field_base64Char hb).append
      ((field_base64Char hc).append hpad))
  | four ha hb hc hd _ ih =>
    exact (field_base64Char ha).append ((field_base64Char hb).append
      ((field_base64Char hc).append ((field_base64Char hd).append ih)))

theorem field_extension (e : Extension) : Field e.text := by
  have hname : Field [e.name, 61] :=
    (field_alpha e.alpha).append (field_byte (by decide) (by decide))
  exact hname.append (field_many (fun _ => field_valueChar) e.isValue)

theorem field_attribute {name v : Bytes} (hname : IsAscii name) (h44 : 44 ∉ name) (hv : Field v) :
    Field (name ++ v) :=
  (field_ascii hname h44).append hv

/-! ## The attributes are the fields -/

theorem field_mext (m : FirstMessage) :
    ∀ f ∈ (m.mext.elim [] fun v => [ascii "m=" ++ v.1]), Field f := by
  intro f hf
  cases hm : m.mext with
  | none => simp [hm] at hf
  | some v =>
    obtain rfl : f = ascii "m=" ++ v.1 := by simpa [hm] using hf
    exact field_attribute (by decide) (by decide) (field_many (fun _ => field_valueChar) v.2)

theorem field_nonce (nonce : { s : Bytes // Many Printable s }) : Field (ascii "r=" ++ nonce.1) :=
  field_attribute (by decide) (by decide) (field_many (fun _ => field_printable) nonce.2)

theorem FirstMessage.field_attributes (m : FirstMessage) : ∀ f ∈ m.attributes, Field f := by
  intro f hf
  simp only [attributes, List.mem_append, List.mem_cons, List.mem_map] at hf
  rcases hf with hf | rfl | rfl | ⟨e, -, rfl⟩
  · exact field_mext m f hf
  · exact field_attribute (by decide) (by decide)
      (field_many (fun _ => field_saslChar) m.username.2)
  · exact field_nonce m.nonce
  · exact field_extension e

theorem FinalMessage.field_attributes (m : FinalMessage) : ∀ f ∈ m.attributes, Field f := by
  intro f hf
  simp only [attributes, List.mem_cons, List.mem_map] at hf
  rcases hf with rfl | rfl | ⟨e, -, rfl⟩
  · exact field_attribute (by decide) (by decide) (field_base64 m.channelBinding.2)
  · exact field_nonce m.nonce
  · exact field_extension e

theorem Gs2Flag.field_text (flag : Gs2Flag) : Field flag.text := by
  cases flag with
  | p name h =>
    exact field_attribute (by decide) (by decide) (field_many (fun _ => field_cbNameChar) h)
  | n => exact field_ascii (by decide) (by decide)
  | y => exact field_ascii (by decide) (by decide)

theorem FirstMessage.field_authzid (m : FirstMessage) : Field m.authzidText := by
  unfold authzidText
  cases m.authzid with
  | none => exact ⟨rfl, by simp⟩
  | some a =>
    exact field_attribute (by decide) (by decide) (field_many (fun _ => field_saslChar) a.2)

theorem extensionsText_eq (es : List Extension) :
    extensionsText es = (es.map Extension.text).flatMap (44 :: ·) := by
  simp [extensionsText, List.flatMap_map]

theorem FirstMessage.bare_eq (m : FirstMessage) : m.bare = [44].intercalate m.attributes := by
  unfold bare mextText attributes
  cases m.mext with
  | none => simp [intercalate_cons, extensionsText_eq]
  | some v => simp [intercalate_cons, extensionsText_eq]

theorem FinalMessage.withoutProof_eq (m : FinalMessage) :
    m.withoutProof = [44].intercalate m.attributes := by
  simp [withoutProof, attributes, intercalate_cons, extensionsText_eq]

theorem isUtf8_intercalate {fs : List Bytes} (h : ∀ f ∈ fs, Field f) :
    isUtf8 ([44].intercalate fs) = true := by
  cases fs with
  | nil => rfl
  | cons f fs =>
    rw [intercalate_cons, isUtf8_append (h f List.mem_cons_self).utf8]
    have hrest : ∀ g ∈ fs, Field g := fun g hg => h g (List.mem_cons_of_mem _ hg)
    clear h
    induction fs with
    | nil => rfl
    | cons g fs ih =>
      have hg := (hrest g List.mem_cons_self).utf8
      rw [List.flatMap_cons, List.cons_append, isUtf8.eq_def]
      simp only [show (44 : UInt8) < 0x80 from by decide, ↓reduceIte]
      rw [isUtf8_append hg, ih fun g hg => hrest g (List.mem_cons_of_mem _ hg)]

theorem splitOn_fields {fs : List Bytes} (h : ∀ f ∈ fs, Field f) (hne : fs ≠ []) :
    ([44].intercalate fs).splitOn 44 = fs :=
  List.splitOn_intercalate 44 (fun f hf => (h f hf).noComma) hne

theorem FirstMessage.splitOn_bare (m : FirstMessage) : m.bare.splitOn 44 = m.attributes := by
  rw [bare_eq]
  exact splitOn_fields m.field_attributes (by simp [attributes])

theorem FinalMessage.splitOn_withoutProof (m : FinalMessage) :
    m.withoutProof.splitOn 44 = m.attributes := by
  rw [withoutProof_eq]
  exact splitOn_fields m.field_attributes (by simp [attributes])

/-! ## Which attribute is which -/

/-- An extension's name is no name of the grammar. -/
theorem stripPrefix_extension {c : UInt8} (hc : c ∈ reservedNames) (e : Extension) :
    stripPrefix [c, 61] e.text = none := by
  have hne : c ≠ e.name := by
    rintro rfl
    exact e.unreserved hc
  simp [stripPrefix, Extension.text, hne]

theorem filterMap_extensions {c : UInt8} (hc : c ∈ reservedNames) (es : List Extension) :
    (es.map Extension.text).filterMap (stripPrefix [c, 61]) = [] := by
  simp [stripPrefix_extension hc]

/-- Attributes of different names. -/
theorem stripPrefix_other {c d : UInt8} (h : c ≠ d) (v : Bytes) :
    stripPrefix [c, 61] ([d, 61] ++ v) = none := by
  simp [stripPrefix, h]

theorem FirstMessage.filterMap_nonce (m : FirstMessage) :
    m.attributes.filterMap (stripPrefix (ascii "r=")) = [m.nonce.1] := by
  have hext : (m.extensions.map Extension.text).filterMap (stripPrefix (ascii "r=")) = [] :=
    filterMap_extensions (c := 114) (by decide) m.extensions
  have hn : stripPrefix (ascii "r=") (ascii "n=" ++ m.username.1) = none :=
    stripPrefix_other (c := 114) (d := 110) (by decide) m.username.1
  unfold attributes
  cases m.mext with
  | none =>
    simp only [Option.elim_none, List.nil_append, List.filterMap_cons, hn, stripPrefix_append, hext]
  | some v =>
    have hm : stripPrefix (ascii "r=") (ascii "m=" ++ v.1) = none :=
      stripPrefix_other (c := 114) (d := 109) (by decide) v.1
    simp only [Option.elim_some, List.singleton_append, List.filterMap_cons, hm, hn,
      stripPrefix_append, hext]

theorem FinalMessage.filterMap_channelBinding (m : FinalMessage) :
    m.attributes.filterMap (stripPrefix (ascii "c=")) = [m.channelBinding.1] := by
  have hext : (m.extensions.map Extension.text).filterMap (stripPrefix (ascii "c=")) = [] :=
    filterMap_extensions (c := 99) (by decide) m.extensions
  have hr : stripPrefix (ascii "c=") (ascii "r=" ++ m.nonce.1) = none :=
    stripPrefix_other (c := 99) (d := 114) (by decide) m.nonce.1
  simp only [attributes, List.filterMap_cons, hr, stripPrefix_append, hext]

theorem FinalMessage.filterMap_nonce (m : FinalMessage) :
    m.attributes.filterMap (stripPrefix (ascii "r=")) = [m.nonce.1] := by
  have hext : (m.extensions.map Extension.text).filterMap (stripPrefix (ascii "r=")) = [] :=
    filterMap_extensions (c := 114) (by decide) m.extensions
  have hc : stripPrefix (ascii "r=") (ascii "c=" ++ m.channelBinding.1) = none :=
    stripPrefix_other (c := 114) (d := 99) (by decide) m.channelBinding.1
  simp only [attributes, List.filterMap_cons, hc, stripPrefix_append, hext]

/-- No attribute before the proof is a proof. -/
theorem FinalMessage.filterMap_proof (m : FinalMessage) :
    m.attributes.filterMap (stripPrefix (ascii "p=")) = [] := by
  have hext : (m.extensions.map Extension.text).filterMap (stripPrefix (ascii "p=")) = [] :=
    filterMap_extensions (c := 112) (by decide) m.extensions
  have hc : stripPrefix (ascii "p=") (ascii "c=" ++ m.channelBinding.1) = none :=
    stripPrefix_other (c := 112) (d := 99) (by decide) m.channelBinding.1
  have hr : stripPrefix (ascii "p=") (ascii "r=" ++ m.nonce.1) = none :=
    stripPrefix_other (c := 112) (d := 114) (by decide) m.nonce.1
  simp only [attributes, List.filterMap_cons, hc, hr, hext]

/-! ## The parsers -/

theorem parseCbindFlag_text (flag : Gs2Flag) :
    parseCbindFlag flag.text = .ok (flag.kind, flag.cbName) := by
  cases flag with
  | p name h =>
    have hp : stripPrefix (ascii "p=") (Gs2Flag.p name h).text = some name := stripPrefix_append _ _
    simp only [parseCbindFlag, hp]
    rfl
  | n => rfl
  | y => rfl

theorem FirstMessage.splitOn_text (m : FirstMessage) :
    m.text.splitOn 44 = m.flag.text :: m.authzidText :: m.attributes := by
  have htext : m.text = m.flag.text ++ 44 :: (m.authzidText ++ 44 :: m.bare) := by
    simp [text, gs2Header]
  rw [htext, List.splitOn_append_cons_self_of_not_mem m.flag.field_text.noComma,
    List.splitOn_append_cons_self_of_not_mem m.field_authzid.noComma, m.splitOn_bare]

theorem FirstMessage.isUtf8_text (m : FirstMessage) : isUtf8 m.text = true := by
  have htext : m.text = [44].intercalate (m.flag.text :: m.authzidText :: m.attributes) := by
    have hattr : m.attributes ≠ [] := by simp [attributes]
    obtain ⟨a, as, has⟩ := List.exists_cons_of_ne_nil hattr
    rw [text, bare_eq, gs2Header, has, List.intercalate_cons_cons, List.intercalate_cons_cons]
    simp
  rw [htext]
  apply isUtf8_intercalate
  intro f hf
  simp only [List.mem_cons] at hf
  rcases hf with rfl | rfl | hf
  · exact m.flag.field_text
  · exact m.field_authzid
  · exact m.field_attributes f hf

theorem parseClientFirst_text (m : FirstMessage) :
    parseClientFirst m.text = .ok ⟨m.gs2Header, m.bare, m.nonce.1, m.flag.kind, m.flag.cbName⟩ := by
  have htext : m.text = m.flag.text ++ 44 :: (m.authzidText ++ 44 :: m.bare) := by
    simp [FirstMessage.text, FirstMessage.gs2Header]
  have hflag := splitOnce_append m.flag.field_text.noComma (m.authzidText ++ 44 :: m.bare)
  have hauthzid := splitOnce_append m.field_authzid.noComma m.bare
  have hnonce : fieldOf (ascii "r=") m.bare = some m.nonce.1 := by
    rw [fieldOf, m.splitOn_bare, ← List.head?_filterMap, m.filterMap_nonce]
    rfl
  rw [parseClientFirst, if_pos m.isUtf8_text, htext]
  simp only [hflag, hauthzid, hnonce, parseCbindFlag_text]
  rfl

/-- The extensions leave what the loop has found. -/
theorem foldl_scanField_extensions (es : List Extension) (acc : Option Bytes × Option Bytes) :
    (es.map Extension.text).foldl scanField acc = acc := by
  induction es with
  | nil => rfl
  | cons e es ih =>
    have hc : stripPrefix (ascii "c=") e.text = none := stripPrefix_extension (c := 99) (by decide) e
    have hr : stripPrefix (ascii "r=") e.text = none := stripPrefix_extension (c := 114) (by decide) e
    have hstep : scanField acc e.text = acc := by
      simp only [scanField, hc, hr]
    rw [List.map_cons, List.foldl_cons, hstep, ih]

theorem FinalMessage.foldl_attributes (m : FinalMessage) :
    m.attributes.foldl scanField (none, none) = (some m.channelBinding.1, some m.nonce.1) := by
  have hr : stripPrefix (ascii "c=") (ascii "r=" ++ m.nonce.1) = none :=
    stripPrefix_other (c := 99) (d := 114) (by decide) m.nonce.1
  simp only [attributes, List.foldl_cons, scanField, stripPrefix_append, hr,
    foldl_scanField_extensions]

theorem parseClientFinal_text (m : FinalMessage) :
    parseClientFinal m.text =
      .ok ⟨m.channelBinding.1, m.nonce.1, m.proof.1, m.withoutProof⟩ := by
  have hcut : rsplitOnce (ascii ",p=") m.text = some (m.withoutProof, m.proof.1) :=
    rsplitOnce_append (p := 44) m.withoutProof (by decide) (field_base64 m.proof.2).noComma
  simp only [parseClientFinal, hcut, m.splitOn_withoutProof, m.foldl_attributes]

theorem FinalMessage.text_eq (m : FinalMessage) :
    m.text = [44].intercalate (m.attributes ++ [ascii "p=" ++ m.proof.1]) := by
  have hp : ascii ",p=" = 44 :: ascii "p=" := rfl
  simp [text, withoutProof, attributes, intercalate_cons, extensionsText_eq, hp]

theorem FinalMessage.field_parts (m : FinalMessage) :
    ∀ f ∈ m.attributes ++ [ascii "p=" ++ m.proof.1], Field f := by
  intro f hf
  rcases List.mem_append.mp hf with hf | hf
  · exact m.field_attributes f hf
  · rw [List.mem_singleton.mp hf]
    exact field_attribute (by decide) (by decide) (field_base64 m.proof.2)

/-- On the messages of the grammar the parsers return the grammar's own attributes, and the commas
they cut at are the grammar's own separators. -/
theorem parsers_exact_on_grammar :
    (∀ m : FirstMessage,
      parseClientFirst m.text =
        .ok ⟨m.gs2Header, m.bare, m.nonce.1, m.flag.kind, m.flag.cbName⟩ ∧
      m.text = m.gs2Header ++ m.bare ∧
      m.text.splitOn 44 = m.flag.text :: m.authzidText :: m.attributes ∧
      m.attributes.filterMap (stripPrefix (ascii "r=")) = [m.nonce.1]) ∧
    ∀ m : FinalMessage,
      isUtf8 m.text = true ∧
      parseClientFinal m.text =
        .ok ⟨m.channelBinding.1, m.nonce.1, m.proof.1, m.withoutProof⟩ ∧
      m.text = m.withoutProof ++ ascii ",p=" ++ m.proof.1 ∧
      m.text.splitOn 44 = m.attributes ++ [ascii "p=" ++ m.proof.1] ∧
      m.attributes.filterMap (stripPrefix (ascii "c=")) = [m.channelBinding.1] ∧
      m.attributes.filterMap (stripPrefix (ascii "r=")) = [m.nonce.1] ∧
      m.attributes.filterMap (stripPrefix (ascii "p=")) = [] := by
  constructor
  · intro m
    exact ⟨parseClientFirst_text m, rfl, m.splitOn_text, m.filterMap_nonce⟩
  · intro m
    refine ⟨?_, parseClientFinal_text m, rfl, ?_, m.filterMap_channelBinding, m.filterMap_nonce,
      m.filterMap_proof⟩
    · rw [m.text_eq]
      exact isUtf8_intercalate m.field_parts
    · rw [m.text_eq]
      exact splitOn_fields m.field_parts (by simp)

example : parseClientFirst (ascii "y,a=r=3D1,m=r=2,n=u=2Cr=3D3,r=r=4,x=r=5") =
    .ok ⟨ascii "y,a=r=3D1,", ascii "m=r=2,n=u=2Cr=3D3,r=r=4,x=r=5", ascii "r=4", .y, none⟩ := by
  decide +kernel

end RamaPg.Scram
