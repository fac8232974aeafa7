import RamaPg.Scram.Crypto
import RamaPg.Lib.Kdf
import RamaPg.Lib.Sha256

/-!
# Key derivation

`hmacSha256Loop` and `pbkdf2Step` are `hmac_sha256` and a round of `pbkdf2_hmac_sha256` with the
source's arrays: a zeroed block the key is copied into, pads and sums that are updated byte by byte.
They compute what `hmacSha256` and `pbkdf2Loop` do, and these are the keyed hash and the first
derivation block of the standards.
-/

namespace RamaPg.Scram

open RamaPg.Lib

variable {n : Nat}

/-- `dst[..src.len()].copy_from_slice(src)`. -/
def copyFromSlice (dst : Vector UInt8 n) (src : Bytes) : Vector UInt8 n :=
  Vector.ofFn fun i => src.getD i dst[i]

/-- `for i in 0..n { dst[i] ^= src[i]; }`. -/
def xorAssign (dst src : Vector UInt8 n) : Vector UInt8 n :=
  (List.finRange n).foldl (fun d (i : Fin n) => d.set i (d[i] ^^^ src[i])) dst

section

variable (sha256 : Bytes → Key)

/-- `hmac_sha256`; a hasher that was given several strings finishes with the hash of them all. -/
def hmacSha256Loop (key message : Bytes) : Key :=
  let zeroed : Vector UInt8 64 := Vector.replicate 64 0
  let blockKey :=
    if 64 < key.length then copyFromSlice zeroed (sha256 key).toList else copyFromSlice zeroed key
  let ipad := xorAssign (Vector.replicate 64 0x36) blockKey
  let opad := xorAssign (Vector.replicate 64 0x5c) blockKey
  let innerHash := sha256 (ipad.toList ++ message)
  sha256 (opad.toList ++ innerHash.toList)

/-- One round of the loop of `pbkdf2_hmac_sha256`, on `u` and `result`. -/
def pbkdf2Step (password : Bytes) (s : Key × Key) : Key × Key :=
  let u := hmacSha256Loop sha256 password s.1.toList
  (u, xorAssign s.2 u)

end

/-- A pass over distinct indices sums the bytes at these and leaves the others. -/
theorem getElem_foldl_set (src : Vector UInt8 n) (l : List (Fin n)) (hl : l.Nodup)
    (d : Vector UInt8 n) (i : Fin n) :
    (i ∈ l → (l.foldl (fun d (j : Fin n) => d.set j (d[j] ^^^ src[j])) d)[i] = d[i] ^^^ src[i]) ∧
      (i ∉ l → (l.foldl (fun d (j : Fin n) => d.set j (d[j] ^^^ src[j])) d)[i] = d[i]) := by
  induction l generalizing d with
  | nil => simp
  | cons j l ih =>
    obtain ⟨hj, hl⟩ := List.nodup_cons.1 hl
    rw [List.foldl_cons]
    obtain ⟨hin, hout⟩ := ih hl (d.set j (d[j] ^^^ src[j]))
    by_cases hij : i = j
    · subst hij
      refine ⟨fun _ => ?_, fun h => absurd List.mem_cons_self h⟩
      rw [hout hj]
      exact Vector.getElem_set_self _
    · have hne : (j : Nat) ≠ i := fun h => hij (Fin.ext h.symm)
      have hkeep : (d.set j (d[j] ^^^ src[j]))[i] = d[i] := Vector.getElem_set_ne _ _ hne
      rw [hkeep] at hin hout
      simp only [List.mem_cons, hij, false_or]
      exact ⟨hin, hout⟩

theorem xorAssign_eq (dst src : Vector UInt8 n) : xorAssign dst src = xorVec dst src := by
  apply Vector.ext
  intro i hi
  have h := getElem_foldl_set src (List.finRange n) (List.nodup_finRange n) dst ⟨i, hi⟩
  rw [xorVec, Vector.getElem_zipWith]
  exact h.1 (List.mem_finRange _)

section

variable (sha256 : Bytes → Key)

/-- The block the key is copied into is the padded key of the standard. -/
theorem copyFromSlice_zeroed (key : Bytes) :
    (if 64 < key.length then copyFromSlice (Vector.replicate 64 0) (sha256 key).toList
      else copyFromSlice (Vector.replicate 64 0) key) = Hmac.block sha256 64 key := by
  apply Vector.ext
  intro i hi
  unfold Hmac.block Hmac.short copyFromSlice
  split <;> simp

theorem hmacSha256Loop_eq_hmac (key message : Bytes) :
    hmacSha256Loop sha256 key message = hmac sha256 64 key message := by
  unfold hmacSha256Loop
  simp only [copyFromSlice_zeroed, xorAssign_eq]
  rw [xorVec_comm _ (Hmac.block sha256 64 key), xorVec_comm _ (Hmac.block sha256 64 key)]
  rfl

/-- No key is longer than a block once it is shortened. -/
theorem length_short_le (key : Bytes) : (Hmac.short sha256 64 key).length ≤ 64 := by
  unfold Hmac.short
  split
  · simp
  · omega

theorem blockKey_eq (key : Bytes) : blockKey sha256 key = (Hmac.block sha256 64 key).toList := by
  have hlen := length_short_le sha256 key
  have hkey : blockKey sha256 key =
      Hmac.short sha256 64 key ++ List.replicate (64 - (Hmac.short sha256 64 key).length) 0 := rfl
  rw [hkey]
  apply List.ext_getElem
  · simp; omega
  · intro i h1 h2
    rcases Nat.lt_or_ge i (Hmac.short sha256 64 key).length with hi | hi
    · simp [Hmac.block, List.getElem_append_left hi, List.getElem?_eq_getElem hi]
    · simp [Hmac.block, List.getElem_append_right hi, List.getElem?_eq_none hi]

theorem hmacSha256_eq_hmac (key message : Bytes) :
    hmacSha256 sha256 key message = hmac sha256 64 key message := by
  unfold hmacSha256 hmac Hmac.ipad Hmac.opad
  simp only [toList_xorVec_replicate, blockKey_eq]

/-- The loop's rounds over the source's arrays. -/
theorem iterate_pbkdf2Step (password : Bytes) (k : Nat) (s : Key × Key) :
    ((pbkdf2Step sha256 password)^[k] s).2 = pbkdf2Loop sha256 password k s.1 s.2 := by
  induction k generalizing s with
  | zero => rfl
  | succ k ih =>
    rw [Function.iterate_succ_apply, ih]
    have hu : hmacSha256Loop sha256 password s.1.toList = hmacSha256 sha256 password s.1.toList := by
      rw [hmacSha256Loop_eq_hmac, hmacSha256_eq_hmac]
    simp only [pbkdf2Step, pbkdf2Loop, hu, xorAssign_eq]
    rfl

/-- From `U_{m+1}` on the loop adds the next `k` links of the chain. -/
theorem pbkdf2Loop_eq (password salt : Bytes) (k m : Nat) (result : Key) :
    let chain := Pbkdf2.U (hmac sha256 64) password salt 1
    pbkdf2Loop sha256 password k (chain m) result =
      xorVec result (xorAll ((List.range k).map fun j => chain (m + 1 + j))) := by
  intro chain
  induction k generalizing m result with
  | zero => simp [pbkdf2Loop]
  | succ k ih =>
    have hu : hmacSha256 sha256 password (chain m).toList = chain (m + 1) :=
      hmacSha256_eq_hmac sha256 password _
    have hsum : xorKey result (chain (m + 1)) = xorVec result (chain (m + 1)) := rfl
    have hshift : (fun j => chain (m + 1 + (j + 1))) = fun j => chain (m + 1 + 1 + j) := by
      funext j
      exact congrArg chain (by omega)
    simp only [pbkdf2Loop, hu, hsum, List.range_succ_eq_map, List.map_cons, List.map_map,
      xorAll_cons, Nat.add_zero, Function.comp_def, Nat.succ_eq_add_one]
    rw [ih, xorVec_assoc, hshift]

theorem pbkdf2HmacSha256_eq_block (password salt : Bytes) (iterations : UInt32)
    (h : 1 ≤ iterations) :
    pbkdf2HmacSha256 sha256 password salt iterations =
      Pbkdf2.F (hmac sha256 64) password salt iterations.toNat 1 := by
  have hi : 1 ≤ iterations.toNat := by simpa [UInt32.le_iff_toNat_le] using h
  obtain ⟨k, hk⟩ : ∃ k, iterations.toNat = k + 1 := ⟨iterations.toNat - 1, by omega⟩
  unfold pbkdf2HmacSha256 Pbkdf2.F
  rw [hk, hmacSha256_eq_hmac, List.range_succ_eq_map, Nat.add_sub_cancel]
  have hloop := pbkdf2Loop_eq sha256 password salt k 0 (hmac sha256 64 password (salt ++ u32ToBe 1))
  simpa [Function.comp_def, Pbkdf2.U, Nat.add_comm] using hloop

end

/-- The code's keyed hash and derivation are those of the standards, for every hash function. -/
theorem key_derivation_exact (sha256 : Bytes → Key) :
    (∀ key message, hmacSha256 sha256 key message = hmac sha256 64 key message ∧
      hmacSha256Loop sha256 key message = hmac sha256 64 key message) ∧
    ∀ password salt (iterations : UInt32), 1 ≤ iterations →
      let block := Pbkdf2.F (hmac sha256 64) password salt iterations.toNat 1
      let u := hmacSha256Loop sha256 password (salt ++ u32ToBe 1)
      pbkdf2HmacSha256 sha256 password salt iterations = block ∧
      ((pbkdf2Step sha256 password)^[iterations.toNat - 1] (u, u)).2 = block ∧
      pbkdf2 (hmac sha256 64) password salt iterations.toNat 32 = block.toList := by
  constructor
  · intro key message
    exact ⟨hmacSha256_eq_hmac sha256 key message, hmacSha256Loop_eq_hmac sha256 key message⟩
  · intro password salt iterations h block u
    have hblock := pbkdf2HmacSha256_eq_block sha256 password salt iterations h
    refine ⟨hblock, ?_, pbkdf2_one_block _ _ _ _ (by decide)⟩
    have hu : u = hmacSha256 sha256 password (salt ++ u32ToBe 1) := by
      rw [hmacSha256_eq_hmac]
      exact hmacSha256Loop_eq_hmac sha256 password _
    rw [iterate_pbkdf2Step, hu]
    exact hblock

/-- The derivation of the worked example in the source's tests. -/
theorem key_derivation_pencil :
    (1 : UInt32) ≤ 4096 ∧
    pbkdf2HmacSha256 Sha256.hash (ascii "pencil") [0x5b, 0x6d, 0x99, 0x68] 4096 =
      Pbkdf2.F (hmac Sha256.hash 64) (ascii "pencil") [0x5b, 0x6d, 0x99, 0x68] 4096 1 :=
  ⟨by decide, ((key_derivation_exact Sha256.hash).2 (ascii "pencil") [0x5b, 0x6d, 0x99, 0x68] 4096
    (by decide)).1⟩

end RamaPg.Scram
