import RamaPg.Lib.Bytes

/-!
# SHA-256

The hash function of FIPS 180-4 on byte strings, for evaluating statements that hold of every hash
function at the one that is used.
-/

namespace RamaPg.Lib.Sha256

def rotr (x : UInt32) (n : UInt32) : UInt32 := (x >>> n) ||| (x <<< (32 - n))

def roundConstants : List UInt32 :=
  [0x428a2f98, 0x71374491, 0xb5c0fbcf, 0xe9b5dba5, 0x3956c25b, 0x59f111f1, 0x923f82a4, 0xab1c5ed5,
   0xd807aa98, 0x12835b01, 0x243185be, 0x550c7dc3, 0x72be5d74, 0x80deb1fe, 0x9bdc06a7, 0xc19bf174,
   0xe49b69c1, 0xefbe4786, 0x0fc19dc6, 0x240ca1cc, 0x2de92c6f, 0x4a7484aa, 0x5cb0a9dc, 0x76f988da,
   0x983e5152, 0xa831c66d, 0xb00327c8, 0xbf597fc7, 0xc6e00bf3, 0xd5a79147, 0x06ca6351, 0x14292967,
   0x27b70a85, 0x2e1b2138, 0x4d2c6dfc, 0x53380d13, 0x650a7354, 0x766a0abb, 0x81c2c92e, 0x92722c85,
   0xa2bfe8a1, 0xa81a664b, 0xc24b8b70, 0xc76c51a3, 0xd192e819, 0xd6990624, 0xf40e3585, 0x106aa070,
   0x19a4c116, 0x1e376c08, 0x2748774c, 0x34b0bcb5, 0x391c0cb3, 0x4ed8aa4a, 0x5b9cca4f, 0x682e6ff3,
   0x748f82ee, 0x78a5636f, 0x84c87814, 0x8cc70208, 0x90befffa, 0xa4506ceb, 0xbef9a3f7, 0xc67178f2]

/-- The eight working words. -/
structure State where
  a : UInt32
  b : UInt32
  c : UInt32
  d : UInt32
  e : UInt32
  f : UInt32
  g : UInt32
  h : UInt32

def initial : State :=
  ⟨0x6a09e667, 0xbb67ae85, 0x3c6ef372, 0xa54ff53a, 0x510e527f, 0x9b05688c, 0x1f83d9ab, 0x5be0cd19⟩

def round (s : State) (k w : UInt32) : State :=
  let s1 := rotr s.e 6 ^^^ rotr s.e 11 ^^^ rotr s.e 25
  let ch := (s.e &&& s.f) ^^^ (~~~s.e &&& s.g)
  let t1 := s.h + s1 + ch + k + w
  let s0 := rotr s.a 2 ^^^ rotr s.a 13 ^^^ rotr s.a 22
  let maj := (s.a &&& s.b) ^^^ (s.a &&& s.c) ^^^ (s.b &&& s.c)
  ⟨t1 + (s0 + maj), s.a, s.b, s.c, s.d + t1, s.e, s.f, s.g⟩

/-- The rounds with the constants left and the sixteen schedule words due next. -/
def rounds : List UInt32 → List UInt32 → State → State
  | [], _, s => s
  | _ :: _, [], s => s
  | k :: ks, w :: ws, s =>
    let w1 := ws.getD 0 0
    let w14 := ws.getD 13 0
    let next := w + (rotr w1 7 ^^^ rotr w1 18 ^^^ (w1 >>> 3)) + ws.getD 8 0 +
      (rotr w14 17 ^^^ rotr w14 19 ^^^ (w14 >>> 10))
    rounds ks (ws ++ [next]) (round s k w)

def addState (s t : State) : State :=
  ⟨s.a + t.a, s.b + t.b, s.c + t.c, s.d + t.d, s.e + t.e, s.f + t.f, s.g + t.g, s.h + t.h⟩

def words : Bytes → List UInt32
  | a :: b :: c :: d :: rest => UInt32.ofNat (u32OfBe a b c d) :: words rest
  | _ => []

def compress (s : State) (block : Bytes) : State :=
  addState s (rounds roundConstants (words block) s)

def blocks : Nat → State → Bytes → State
  | 0, s, _ => s
  | n + 1, s, bs => blocks n (compress s (bs.take 64)) (bs.drop 64)

/-- A one bit, zeros up to eight bytes below a block boundary, and the length in bits. -/
def pad (bs : Bytes) : Bytes :=
  bs ++ 0x80 :: (List.replicate ((119 - bs.length % 64) % 64) 0 ++
    u32ToBe (8 * bs.length / 2 ^ 32) ++ u32ToBe (8 * bs.length % 2 ^ 32))

def output (s : State) : Bytes :=
  [s.a, s.b, s.c, s.d, s.e, s.f, s.g, s.h].flatMap fun w => u32ToBe w.toNat

def hash (bs : Bytes) : Vector UInt8 32 :=
  ⟨(output (blocks ((pad bs).length / 64) initial (pad bs))).toArray, by simp [output]⟩

example : (hash (ascii "abc")).toList.take 8 = [0xba, 0x78, 0x16, 0xbf, 0x8f, 0x01, 0xcf, 0xea] := by
  decide +kernel

end RamaPg.Lib.Sha256
