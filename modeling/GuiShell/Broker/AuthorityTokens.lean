-- The words that claim authority (protocol.rs, authority.rs): how a key or a value is
-- normalized, which normalized words count, and the scans of metadata for them.
import GuiShell.Broker.Crates
import GuiShell.Broker.Serde
import GuiShell.JsonLines

open json serde_json json_lines

namespace authority

variable (crates : Crates)

/-! ## Normalized words -/

/-- The characters of zero width that normalization takes out. -/
def isZeroWidth (c : Char) : Bool :=
  c = '\u200b' || c = '\u200c' || c = '\u200d' || c = '\ufeff'

/-- What the loop of `normalize_authority_token` keeps. -/
structure TokenState where
  result : List Char
  previous_was_underscore : Bool
  previous_was_lower_or_digit : Bool

def tokenStep (state : TokenState) (character : Char) : TokenState :=
  let result :=
    if character.isUpper && state.previous_was_lower_or_digit && !state.previous_was_underscore then
      state.result ++ ['_']
    else state.result
  if character.isAlphanum then
    { result := result ++ [character.toLower]
      previous_was_underscore := false
      previous_was_lower_or_digit := character.isLower || character.isDigit }
  else if !state.previous_was_underscore then
    { result := result ++ ['_']
      previous_was_underscore := true
      previous_was_lower_or_digit := false }
  else { state with result }

/-- `str::trim_matches` of one character. -/
def trim_matches (c : Char) (l : List Char) : List Char :=
  ((l.dropWhile fun x => x = c).reverse.dropWhile fun x => x = c).reverse

def normalize_authority_token (value : String) : String :=
  let canonicalized := (crates.nfkc value).toList
  let characters := trim (canonicalized.filter fun c => !isZeroWidth c)
  let state := characters.foldl tokenStep ⟨[], false, false⟩
  .ofList (trim_matches '_' state.result)

/-! ## The words that count -/

/-- The authority key that a normalized word stands for. Both files have this table. -/
def canonical_authority_key (normalized : String) : Option String :=
  match normalized with
  | "authority" => some "authority"
  | "authority_context" | "admin_context" => some "authority_context"
  | "authority_trace" => some "authority_trace"
  | "approval_state" => some "approval_state"
  | "approved_by" => some "approved_by"
  | "permission" | "permissions" | "permissions_granted" | "permissiongrant"
  | "permission_grant" | "grant" | "grants" | "privilege" | "privileges" => some "permission_grant"
  | "permission_override" => some "permission_override"
  | "role" => some "role"
  | "scope_escalation" | "elevated" => some "scope_escalation"
  | "trust_level" => some "trust_level"
  | _ => none

def authority_value_present (normalized : String) : Bool :=
  normalized ∈ ["admin", "all", "approved", "elevated", "root"]

def authority_token_present (normalized : String) : Bool :=
  (normalized.toList.splitOn '_').any fun token =>
    (canonical_authority_key (.ofList token)).isSome || authority_value_present (.ofList token)

/-! ## The scans -/

/-- A string value that claims authority, as a whole or by one of its words. -/
def textClaimsAuthority (value : String) : Bool :=
  let value := normalize_authority_token crates value
  authority_value_present value || authority_token_present value

def keyClaimsAuthority (key : String) : Bool :=
  (canonical_authority_key (normalize_authority_token crates key)).isSome

mutual
def metadata_attempts_authority_value : Value → Bool
  | .object object => anyField object
  | .array items => anyItem items
  | .string value => textClaimsAuthority crates value
  | _ => false
def anyItem : List Value → Bool
  | [] => false
  | item :: items => metadata_attempts_authority_value item || anyItem items
def anyField : List (String × Value) → Bool
  | [] => false
  | (key, value) :: fields =>
    (keyClaimsAuthority crates key || metadata_attempts_authority_value value) || anyField fields
end

end authority

namespace protocol

open authority

variable (crates : Crates)

structure BrokerMetadata where
  key : String
  value : String
  deriving DecidableEq

/-- A metadata value as the one string that the gate looks at. -/
def json_metadata_value : Value → String
  | .string value => value
  | .bool value => toString value
  | .number value => .ofList value.text
  | .null => "null"
  | value => to_string value

def metadata_attempts_authority (metadata : List BrokerMetadata) : Bool :=
  metadata.any fun item =>
    let key := normalize_authority_token crates item.key
    let value := normalize_authority_token crates item.value
    (canonical_authority_key key).isSome || authority_value_present value ||
      authority_token_present value

end protocol
