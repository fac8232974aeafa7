import RamaPg.Lib.Bytes

/-!
# HMAC and PBKDF2

`hmac H B` is the keyed hash of RFC 2104 over a hash function `H` with blocks of `B` bytes, and
`pbkdf2 prf` the derivation over a keyed function `prf`: block `i` is the exclusive or of the chain
`U` that starts at the salt followed by `i`.
-/

namespace RamaPg.Lib

variable {n : Nat}

def xorVec (a b : Vector UInt8 n) : Vector UInt8 n := Vector.zipWith (· ^^^ ·) a b

/-- The exclusive or of all strings of a list. -/
def xorAll (vs : List (Vector UInt8 n)) : Vector UInt8 n :=
  vs.foldr xorVec (Vector.replicate n 0)

theorem xorVec_assoc (a b c : Vector UInt8 n) : xorVec (xorVec a b) c = xorVec a (xorVec b c) := by
  unfold xorVec
  ext i hi
  simp [UInt8.xor_assoc]

theorem xorVec_comm (a b : Vector UInt8 n) : xorVec a b = xorVec b a := by
  apply Vector.ext
  intro i hi
  simp [xorVec, UInt8.xor_comm]

@[simp] theorem xorVec_zero (a : Vector UInt8 n) : xorVec a (Vector.replicate n 0) = a := by
  unfold xorVec
  ext i hi
  simp

/-- Summing with a repeated byte, byte by byte. -/
theorem toList_xorVec_replicate (v : Vector UInt8 n) (b : UInt8) :
    (xorVec v (Vector.replicate n b)).toList = v.toList.map (b ^^^ ·) := by
  apply List.ext_getElem
  · simp
  · intro i h1 h2
    simp [xorVec, UInt8.xor_comm]

@[simp] theorem xorAll_cons (v : Vector UInt8 n) (vs : List (Vector UInt8 n)) :
    xorAll (v :: vs) = xorVec v (xorAll vs) := rfl

@[simp] theorem xorAll_nil : xorAll ([] : List (Vector UInt8 n)) = Vector.replicate n 0 := rfl

namespace Hmac

variable (H : Bytes → Vector UInt8 n) (B : Nat)

/-- The key, or its hash when it is longer than a block. -/
def short (K : Bytes) : Bytes := if B < K.length then (H K).toList else K

/-- The key with zeros appended up to a block. -/
def block (K : Bytes) : Vector UInt8 B := Vector.ofFn fun i => (short H B K).getD i 0

def ipad : Vector UInt8 B := Vector.replicate B 0x36

def opad : Vector UInt8 B := Vector.replicate B 0x5c

end Hmac

/-- `H(K XOR opad, H(K XOR ipad, text))`. -/
def hmac (H : Bytes → Vector UInt8 n) (B : Nat) (K text : Bytes) : Vector UInt8 n :=
  let inner := H ((xorVec (Hmac.block H B K) (Hmac.ipad B)).toList ++ text)
  H ((xorVec (Hmac.block H B K) (Hmac.opad B)).toList ++ inner.toList)

namespace Pbkdf2

variable (prf : Bytes → Bytes → Vector UInt8 n) (P S : Bytes)

/-- `U_{k+1}` of block `i`. -/
def U (i : Nat) : Nat → Vector UInt8 n
  | 0 => prf P (S ++ u32ToBe i)
  | k + 1 => prf P (U i k).toList

/-- `U_1 ^ ... ^ U_c` of block `i`. -/
def F (c i : Nat) : Vector UInt8 n := xorAll ((List.range c).map (U prf P S i))

end Pbkdf2

/-- The first `dkLen` bytes of the blocks `T_1, T_2, ...`. -/
def pbkdf2 (prf : Bytes → Bytes → Vector UInt8 n) (P S : Bytes) (c dkLen : Nat) : Bytes :=
  ((List.range ((dkLen + n - 1) / n)).flatMap fun i => (Pbkdf2.F prf P S c (i + 1)).toList).take dkLen

/-- A key of one block's length is the first block. -/
theorem pbkdf2_one_block (prf : Bytes → Bytes → Vector UInt8 n) (P S : Bytes) (c : Nat) (hn : 0 < n) :
    pbkdf2 prf P S c n = (Pbkdf2.F prf P S c 1).toList := by
  have hl : (n + n - 1) / n = 1 := by
    have h1 : n + n - 1 = n - 1 + n := by omega
    rw [h1, Nat.add_div_right _ hn, Nat.div_eq_of_lt (by omega)]
  unfold pbkdf2
  rw [hl]
  simp [List.range_succ, List.take_of_length_le]

end RamaPg.Lib
