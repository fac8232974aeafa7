import RamaPg.Lib.Bytes

/-!
# Base64

`Base64` is what a protocol needs of a base64 codec: decoding undoes encoding, the text is ASCII
without the separators `,`, `$` and `:`, and its length is known. `Base64.standard` is the
standard alphabet with canonical padding.
-/

namespace RamaPg.Lib

structure Base64 where
  encode : Bytes → Bytes
  decode : Bytes → Option Bytes
  decode_encode : ∀ bs, decode (encode bs) = some bs
  ascii_encode : ∀ bs, ∀ b ∈ encode bs, b < 0x80
  plain_encode : ∀ bs, 44 ∉ encode bs ∧ 36 ∉ encode bs ∧ 58 ∉ encode bs
  length_encode : ∀ bs, (encode bs).length = 4 * ((bs.length + 2) / 3)

namespace Base64

/-- The character of a six-bit value. -/
def sextet (n : Nat) : UInt8 :=
  if n < 26 then UInt8.ofNat (65 + n) else if n < 52 then UInt8.ofNat (71 + n)
  else if n < 62 then UInt8.ofNat (n - 4) else if n = 62 then 43 else 47

/-- The six-bit value of a character. -/
def sextetValue (c : UInt8) : Option Nat :=
  if 65 ≤ c ∧ c ≤ 90 then some (c.toNat - 65) else if 97 ≤ c ∧ c ≤ 122 then some (c.toNat - 71)
  else if 48 ≤ c ∧ c ≤ 57 then some (c.toNat + 4) else if c = 43 then some 62
  else if c = 47 then some 63 else none

theorem sextetValue_sextet : ∀ n < 64, sextetValue (sextet n) = some n := by decide

/-- A character of the alphabet is ASCII, no padding and none of the separators. -/
theorem sextet_plain : ∀ n < 64, sextet n < 0x80 ∧ sextet n ≠ 61 ∧ sextet n ≠ 44 ∧ sextet n ≠ 36 ∧
    sextet n ≠ 58 := by decide

def encodeStandard : Bytes → Bytes
  | [] => []
  | [a] => [sextet (a.toNat / 4), sextet (a.toNat % 4 * 16), 61, 61]
  | [a, b] => [sextet (a.toNat / 4), sextet (a.toNat % 4 * 16 + b.toNat / 16),
      sextet (b.toNat % 16 * 4), 61]
  | a :: b :: c :: rest => sextet (a.toNat / 4) :: sextet (a.toNat % 4 * 16 + b.toNat / 16) ::
      sextet (b.toNat % 16 * 4 + c.toNat / 64) :: sextet (c.toNat % 64) :: encodeStandard rest

/-- A padded last group: the bits the padding stands for are zero. -/
def decodeLast (x y z : UInt8) : Option Bytes := do
  let x ← sextetValue x
  let y ← sextetValue y
  if z = 61 then
    if y % 16 = 0 then some [UInt8.ofNat (x * 4 + y / 16)] else none
  else
    let z ← sextetValue z
    if z % 4 = 0 then some [UInt8.ofNat (x * 4 + y / 16), UInt8.ofNat (y % 16 * 16 + z / 4)]
    else none

def decodeGroup (x y z w : UInt8) : Option Bytes := do
  let x ← sextetValue x
  let y ← sextetValue y
  let z ← sextetValue z
  let w ← sextetValue w
  some [UInt8.ofNat (x * 4 + y / 16), UInt8.ofNat (y % 16 * 16 + z / 4),
    UInt8.ofNat (z % 4 * 64 + w)]

def decodeStandard : Bytes → Option Bytes
  | [] => some []
  | x :: y :: z :: w :: rest =>
    if w = 61 then if rest = [] then decodeLast x y z else none
    else (decodeGroup x y z w).bind fun bs => (decodeStandard rest).map (bs ++ ·)
  | _ => none

theorem ofNat_eq {n : Nat} {a : UInt8} (h : n = a.toNat) : UInt8.ofNat n = a := by
  subst h; simp

/-- Decoding undoes encoding, group by group. -/
theorem decodeStandard_encodeStandard : ∀ bs, decodeStandard (encodeStandard bs) = some bs
  | [] => rfl
  | [a] => by
    have ha := a.toNat_lt
    have hx := sextetValue_sextet (a.toNat / 4) (by omega)
    have hy := sextetValue_sextet (a.toNat % 4 * 16) (by omega)
    simp only [encodeStandard, decodeStandard, decodeLast, hx, hy, ↓reduceIte,
      Option.bind_eq_bind, Option.bind_some]
    rw [if_pos (by omega), @ofNat_eq _ a (by omega)]
  | [a, b] => by
    have ha := a.toNat_lt; have hb := b.toNat_lt
    have hx := sextetValue_sextet (a.toNat / 4) (by omega)
    have hy := sextetValue_sextet (a.toNat % 4 * 16 + b.toNat / 16) (by omega)
    have hz := sextetValue_sextet (b.toNat % 16 * 4) (by omega)
    have hne := (sextet_plain (b.toNat % 16 * 4) (by omega)).2.1
    simp only [encodeStandard, decodeStandard, decodeLast, hx, hy, hz, hne, ↓reduceIte,
      Option.bind_eq_bind, Option.bind_some]
    rw [if_pos (by omega), @ofNat_eq _ a (by omega), @ofNat_eq _ b (by omega)]
  | a :: b :: c :: rest => by
    have ha := a.toNat_lt; have hb := b.toNat_lt; have hc := c.toNat_lt
    have hx := sextetValue_sextet (a.toNat / 4) (by omega)
    have hy := sextetValue_sextet (a.toNat % 4 * 16 + b.toNat / 16) (by omega)
    have hz := sextetValue_sextet (b.toNat % 16 * 4 + c.toNat / 64) (by omega)
    have hw := sextetValue_sextet (c.toNat % 64) (by omega)
    have hne := (sextet_plain (c.toNat % 64) (by omega)).2.1
    simp only [encodeStandard, decodeStandard, decodeGroup, hx, hy, hz, hw, hne, ↓reduceIte,
      Option.bind_eq_bind, Option.bind_some, decodeStandard_encodeStandard rest, Option.map_some]
    rw [@ofNat_eq _ a (by omega), @ofNat_eq _ b (by omega), @ofNat_eq _ c (by omega)]
    rfl

/-- Every character is of the alphabet or padding. -/
theorem mem_encodeStandard : ∀ (bs : Bytes), ∀ x ∈ encodeStandard bs, x = 61 ∨ ∃ n < 64, x = sextet n
  | [], x, h => by cases h
  | [a], x, h => by
    have ha := a.toNat_lt
    simp only [encodeStandard, List.mem_cons, List.not_mem_nil, or_false] at h
    rcases h with rfl | rfl | rfl | rfl
    · exact .inr ⟨_, by omega, rfl⟩
    · exact .inr ⟨_, by omega, rfl⟩
    · exact .inl rfl
    · exact .inl rfl
  | [a, b], x, h => by
    have ha := a.toNat_lt; have hb := b.toNat_lt
    simp only [encodeStandard, List.mem_cons, List.not_mem_nil, or_false] at h
    rcases h with rfl | rfl | rfl | rfl
    · exact .inr ⟨_, by omega, rfl⟩
    · exact .inr ⟨_, by omega, rfl⟩
    · exact .inr ⟨_, by omega, rfl⟩
    · exact .inl rfl
  | a :: b :: c :: rest, x, h => by
    have ha := a.toNat_lt; have hb := b.toNat_lt; have hc := c.toNat_lt
    simp only [encodeStandard, List.mem_cons] at h
    rcases h with rfl | rfl | rfl | rfl | h
    · exact .inr ⟨_, by omega, rfl⟩
    · exact .inr ⟨_, by omega, rfl⟩
    · exact .inr ⟨_, by omega, rfl⟩
    · exact .inr ⟨_, by omega, rfl⟩
    · exact mem_encodeStandard rest x h

theorem encodeStandard_plain {bs : Bytes} {x : UInt8} (h : x ∈ encodeStandard bs) :
    x < 0x80 ∧ x ≠ 44 ∧ x ≠ 36 ∧ x ≠ 58 := by
  rcases mem_encodeStandard bs x h with rfl | ⟨n, hn, rfl⟩
  · decide
  · obtain ⟨h₁, -, h₂⟩ := sextet_plain n hn
    exact ⟨h₁, h₂⟩

theorem length_encodeStandard : ∀ bs : Bytes,
    (encodeStandard bs).length = 4 * ((bs.length + 2) / 3)
  | [] => rfl
  | [_] => by simp [encodeStandard]
  | [_, _] => by simp [encodeStandard]
  | a :: b :: c :: rest => by
    simp only [encodeStandard, List.length_cons, length_encodeStandard rest]; omega

def standard : Base64 where
  encode := encodeStandard
  decode := decodeStandard
  decode_encode := decodeStandard_encodeStandard
  ascii_encode _ _ h := (encodeStandard_plain h).1
  plain_encode _ :=
    ⟨fun h => (encodeStandard_plain h).2.1 rfl, fun h => (encodeStandard_plain h).2.2.1 rfl,
      fun h => (encodeStandard_plain h).2.2.2 rfl⟩
  length_encode := length_encodeStandard

example : standard.encode (ascii "n,,") = ascii "biws" := by decide

end Base64

end RamaPg.Lib
