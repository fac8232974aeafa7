import RamaPg.Lib.Base64

/-!
# SCRAM-SHA-256 primitives

The model of `scram/crypto.rs` over an arbitrary hash function `sha256`: HMAC and PBKDF2 as the
source writes them out, the key material, and the proof and its inverse.
-/

namespace RamaPg.Scram

open RamaPg.Lib

/-- `[u8; 32]`. -/
abbrev Key := Vector UInt8 32

/-- `random_nonce` for the 18 bytes drawn. -/
def randomNonce (b64 : Base64) (bytes : Vector UInt8 18) : Bytes := b64.encode bytes.toList

def xorKey (a b : Key) : Key := Vector.zipWith (· ^^^ ·) a b

/-- `ClientProof XOR ClientSignature`. -/
def recoverClientKey (proof clientSignature : Key) : Key := xorKey proof clientSignature

/-- `ClientKey XOR ClientSignature`. -/
def clientProof (clientKey clientSignature : Key) : Key := xorKey clientKey clientSignature

theorem recoverClientKey_clientProof (k s : Key) : recoverClientKey (clientProof k s) s = k := by
  unfold recoverClientKey clientProof xorKey
  ext i hi
  simp only [Vector.getElem_zipWith, UInt8.xor_assoc, UInt8.xor_self, UInt8.xor_zero]

structure ScramKeys where
  clientKey : Key
  storedKey : Key
  serverKey : Key
  deriving DecidableEq

section

variable (sha256 : Bytes → Key)

/-- The key padded with zeros to the block size, hashed first when it is longer. -/
def blockKey (key : Bytes) : Bytes :=
  let k := if 64 < key.length then (sha256 key).toList else key
  k ++ List.replicate (64 - k.length) 0

def hmacSha256 (key message : Bytes) : Key :=
  let ipad := (blockKey sha256 key).map (0x36 ^^^ ·)
  let opad := (blockKey sha256 key).map (0x5c ^^^ ·)
  sha256 (opad ++ (sha256 (ipad ++ message)).toList)

/-- The remaining rounds of PBKDF2 with the last `u` and the sum so far. -/
def pbkdf2Loop (password : Bytes) : Nat → Key → Key → Key
  | 0, _, result => result
  | n + 1, u, result =>
    let u := hmacSha256 sha256 password u.toList
    pbkdf2Loop password n u (xorKey result u)

/-- `pbkdf2_hmac_sha256`; the loop is over `1..iterations`. -/
def pbkdf2HmacSha256 (password salt : Bytes) (iterations : UInt32) : Key :=
  let u := hmacSha256 sha256 password (salt ++ u32ToBe 1)
  pbkdf2Loop sha256 password (iterations.toNat - 1) u u

namespace ScramKeys

def fromSaltedPassword (salted : Key) : ScramKeys :=
  let clientKey := hmacSha256 sha256 salted.toList (ascii "Client Key")
  ⟨clientKey, sha256 clientKey.toList, hmacSha256 sha256 salted.toList (ascii "Server Key")⟩

def fromPassword (password salt : Bytes) (iterations : UInt32) : ScramKeys :=
  fromSaltedPassword sha256 (pbkdf2HmacSha256 sha256 password salt iterations)

end ScramKeys

end

end RamaPg.Scram
