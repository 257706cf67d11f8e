-- The hash helpers of the Rust side (audit_hash.rs), over the digest of the `sha2` crate.
import GuiShell.Hmac
import GuiShell.Sha256

namespace audit_hash

variable (sha256 : Bytes → Bytes)

def sha256_tagged (input : Bytes) : String := "sha256:" ++ hex.encode (sha256 input)

def BLOCK_SIZE : Nat := 64

/-- The array of 64 zero bytes with `bytes` copied to its front. -/
def copyToBlock (bytes : Bytes) : Bytes := bytes ++ List.replicate (BLOCK_SIZE - bytes.length) 0

def hmac_sha256_tagged (key input : Bytes) : String :=
  let normalized_key :=
    if BLOCK_SIZE < key.length then copyToBlock (sha256 key) else copyToBlock key
  let outer_pad := normalized_key.map fun b => 0x5c ^^^ b
  let inner_pad := normalized_key.map fun b => 0x36 ^^^ b
  let inner_digest := sha256 (inner_pad ++ input)
  "sha256:" ++ hex.encode (sha256 (outer_pad ++ inner_digest))

variable {sha256}

/-- When no two inputs share a digest, no two share a tagged hash. -/
theorem sha256_tagged_inj (h : Function.Injective sha256) {a b : Bytes}
    (hab : sha256_tagged sha256 a = sha256_tagged sha256 b) : a = b :=
  h (hex.encode_inj (String.append_right_inj _ |>.mp hab))

/-! ## The HMAC -/

theorem copyToBlock_key (key : Bytes) :
    (if BLOCK_SIZE < key.length then copyToBlock (sha256 key) else copyToBlock key) =
      rfc2104.blockKey sha256 BLOCK_SIZE key := by
  unfold rfc2104.blockKey rfc2104.shortKey copyToBlock
  by_cases hlong : BLOCK_SIZE < key.length
  · rw [if_pos hlong, if_pos hlong]
  · rw [if_neg hlong, if_neg hlong]

/-- Over a hash whose digests fit in a block, the function is the HMAC of RFC 2104. -/
theorem hmac_tagged_of_fits (hfits : ∀ m, (sha256 m).length ≤ BLOCK_SIZE) (key input : Bytes) :
    hmac_sha256_tagged sha256 key input =
      "sha256:" ++ hex.encode (rfc2104.hmac sha256 BLOCK_SIZE key input) := by
  have hlength := rfc2104.blockKey_length hfits key
  rw [hmac_sha256_tagged, copyToBlock_key, rfc2104.hmac, rfc2104.opad, rfc2104.ipad,
    rfc2104.xor_replicate hlength, rfc2104.xor_replicate hlength]

/-- The function is HMAC-SHA-256, for every key and every message. -/
theorem hmac_sha256_tagged_eq_hmac (key input : Bytes) :
    hmac_sha256_tagged fips.digest key input =
      "sha256:" ++ hex.encode (rfc2104.hmac fips.digest 64 key input) := by
  apply hmac_tagged_of_fits
  intro m
  rw [fips.digest_length]
  decide

end audit_hash
