import Mathlib.Data.List.Basic
import Mathlib.Tactic.Ring

/-!
# Byte strings and big-endian words

`i32OfBe` and `i32ToBe` are the two's-complement big-endian conversions of a 32-bit word, the
second taken modulo `2 ^ 32` so that it also stands for a narrowing cast. `ascii` is the byte
string of an ASCII literal.
-/

namespace RamaPg.Lib

abbrev Bytes := List UInt8

/-- The bytes of an ASCII literal. -/
def ascii (s : String) : Bytes := s.toList.map fun c => UInt8.ofNat c.toNat

def u32OfBe (a b c d : UInt8) : Nat :=
  2 ^ 24 * a.toNat + 2 ^ 16 * b.toNat + 2 ^ 8 * c.toNat + d.toNat

def i32OfBe (a b c d : UInt8) : Int :=
  if u32OfBe a b c d < 2 ^ 31 then u32OfBe a b c d else u32OfBe a b c d - 2 ^ 32

/-- The `i32` a wrapping operation leaves. -/
def wrapI32 (n : Int) : Int := (n + 2 ^ 31) % 2 ^ 32 - 2 ^ 31

def u32ToBe (n : Nat) : Bytes :=
  [UInt8.ofNat (n / 2 ^ 24), UInt8.ofNat (n / 2 ^ 16), UInt8.ofNat (n / 2 ^ 8), UInt8.ofNat n]

def i32ToBe (n : Int) : Bytes := u32ToBe (n % 2 ^ 32).toNat

/-- The low 16 bits, big-endian. -/
def i16ToBe (n : Int) : Bytes :=
  [UInt8.ofNat ((n % 2 ^ 16).toNat / 2 ^ 8), UInt8.ofNat (n % 2 ^ 16).toNat]

def u16OfBe (a b : UInt8) : Nat := 2 ^ 8 * a.toNat + b.toNat

def i16OfBe (a b : UInt8) : Int :=
  if u16OfBe a b < 2 ^ 15 then u16OfBe a b else u16OfBe a b - 2 ^ 16

/-- A count that fits 15 bits reads back. -/
theorem i16OfBe_i16ToBe {n : Nat} (h : n < 2 ^ 15) :
    i16ToBe n = [UInt8.ofNat (n / 2 ^ 8), UInt8.ofNat n] ∧
      i16OfBe (UInt8.ofNat (n / 2 ^ 8)) (UInt8.ofNat n) = n := by
  have hn : ((n : Int) % 2 ^ 16).toNat = n := by omega
  have hword : u16OfBe (UInt8.ofNat (n / 2 ^ 8)) (UInt8.ofNat n) = n := by
    simp only [u16OfBe, UInt8.toNat_ofNat']
    omega
  constructor
  · rw [i16ToBe, hn]
  · rw [i16OfBe, hword, if_pos h]

@[simp] theorem length_u32ToBe (n : Nat) : (u32ToBe n).length = 4 := rfl

@[simp] theorem length_i32ToBe (n : Int) : (i32ToBe n).length = 4 := rfl

theorem u32OfBe_lt (a b c d : UInt8) : u32OfBe a b c d < 2 ^ 32 := by
  have ha := a.toNat_lt; have hb := b.toNat_lt; have hc := c.toNat_lt; have hd := d.toNat_lt
  unfold u32OfBe; omega

theorem u32OfBe_u32ToBe {n : Nat} (h : n < 2 ^ 32) :
    u32OfBe (UInt8.ofNat (n / 2 ^ 24)) (UInt8.ofNat (n / 2 ^ 16)) (UInt8.ofNat (n / 2 ^ 8))
      (UInt8.ofNat n) = n := by
  simp only [u32OfBe, UInt8.toNat_ofNat']; omega

/-- A word that fits 31 bits reads back. -/
theorem i32OfBe_i32ToBe {n : Nat} (h : n < 2 ^ 31) :
    i32OfBe (UInt8.ofNat (n / 2 ^ 24)) (UInt8.ofNat (n / 2 ^ 16)) (UInt8.ofNat (n / 2 ^ 8))
      (UInt8.ofNat n) = n := by
  unfold i32OfBe
  rw [u32OfBe_u32ToBe (by omega), if_pos h]

theorem u32ToBe_u32OfBe (a b c d : UInt8) : u32ToBe (u32OfBe a b c d) = [a, b, c, d] := by
  have ha := a.toNat_lt; have hb := b.toNat_lt; have hc := c.toNat_lt; have hd := d.toNat_lt
  simp only [u32ToBe, u32OfBe, List.cons.injEq, and_true, ← UInt8.toNat_inj, UInt8.toNat_ofNat']
  refine ⟨?_, ?_, ?_, ?_⟩ <;> omega

/-- Every word is written back as it was read. -/
theorem i32ToBe_i32OfBe (a b c d : UInt8) : i32ToBe (i32OfBe a b c d) = [a, b, c, d] := by
  have hlt := u32OfBe_lt a b c d
  have h : (i32OfBe a b c d % 2 ^ 32).toNat = u32OfBe a b c d := by
    unfold i32OfBe
    split <;> omega
  rw [i32ToBe, h, u32ToBe_u32OfBe]

theorem i32ToBe_natCast {n : Nat} (h : n < 2 ^ 32) : i32ToBe n = u32ToBe n := by
  unfold i32ToBe; congr 1; omega

end RamaPg.Lib
