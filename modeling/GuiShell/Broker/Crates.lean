-- The third-party crates that the broker is built with, as far as the broker uses them.
-- What they compute is not part of this development, so it is a parameter.
import GuiShell.Json.Value
import GuiShell.Sha256

structure Crates where
  /-- `Sha256::digest` of `sha2`. -/
  sha256 : Bytes → Bytes
  /-- `nfkc` of `unicode-normalization`. -/
  nfkc : String → String
  /-- How `serde_json` prints the double nearest to a number text, if there is one. -/
  f64 : List Char → Option json.FloatText
  /-- The error of `serde_json` for a text that is no record of the named type. -/
  json_error : String → List Char → String
  /-- The error of `hex` for a text that is not hexadecimal. -/
  hex_error : List Char → String

/-- The crates on ASCII texts with no fraction in them. The error texts are left out. -/
def Crates.ascii : Crates where
  sha256 := fips.digest
  nfkc := id
  f64 _ := none
  json_error _ _ := ""
  hex_error _ := ""
