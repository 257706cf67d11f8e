-- The normalization of inbound payloads on the Python side (normalization.py and
-- authority_keys.py): normal forms of keys, the stripped payload, and the findings.
import GuiShell.Dict
import GuiShell.Json.Value

open json

namespace shell_core.normalization

/-- What the interpreter knows about characters: `unicodedata.normalize("NFKC", ·)`, and
`str.casefold` of a character. -/
structure Unicode where
  nfkc : String → String
  casefold : Char → List Char

/-- The character data for ASCII. -/
def Unicode.ascii : Unicode where
  nfkc := id
  casefold c := [c.toLower]

variable (unicode : Unicode)

/-! ## Keys -/

def AUTHORITY_KEYS : List String := [
  "authority", "authority_context", "authority_trace", "approval_state", "approved_by",
  "permission_grant", "permission_override", "role", "scope_escalation", "trust_level"]

def ZERO_WIDTH_CHARACTERS : List Char := ['\u200b', '\u200c', '\u200d', '\ufeff']

def AUTHORITY_KEY_ALIASES : List (String × String) := [
  ("admin_context", "authority_context"),
  ("elevated", "scope_escalation"),
  ("grant", "permission_grant"),
  ("grants", "permission_grant"),
  ("permission", "permission_grant"),
  ("permissions", "permission_grant"),
  ("permissions_granted", "permission_grant"),
  ("privilege", "permission_grant"),
  ("privileges", "permission_grant"),
  ("permissiongrant", "permission_grant")]

def AUTHORITY_VALUES : List String := ["admin", "all", "approved", "elevated", "root"]

/-- `str.isspace` of a character, and `\s` of a pattern. -/
def isSpace (c : Char) : Bool :=
  let n := c.toNat
  (0x09 ≤ n && n ≤ 0x0d) || (0x1c ≤ n && n ≤ 0x20) || n = 0x85 || n = 0xa0 || n = 0x1680 ||
    (0x2000 ≤ n && n ≤ 0x200a) || n = 0x2028 || n = 0x2029 || n = 0x202f || n = 0x205f || n = 0x3000

def strip (l : List Char) : List Char :=
  ((l.dropWhile isSpace).reverse.dropWhile isSpace).reverse

/-- `re.sub(r"(?<=[a-z0-9])(?=[A-Z])", "_", ·)`. -/
def splitCamel : List Char → List Char
  | a :: b :: rest =>
    if (a.isLower || a.isDigit) && b.isUpper then a :: '_' :: splitCamel (b :: rest)
    else a :: splitCamel (b :: rest)
  | l => l

/-- `re.sub(r"[...]+", "_", ·)`: an underscore for each run of the characters. -/
def replaceRuns (p : Char → Bool) (inRun : Bool) : List Char → List Char
  | [] => []
  | c :: rest =>
    if p c then
      if inRun then replaceRuns p true rest else '_' :: replaceRuns p true rest
    else c :: replaceRuns p false rest

def normalize_key (key : String) : String :=
  let normalized := (unicode.nfkc key).toList
  let normalized := normalized.filter fun character => character ∉ ZERO_WIDTH_CHARACTERS
  let normalized := strip normalized
  let normalized := splitCamel normalized
  let normalized := normalized.flatMap unicode.casefold
  let normalized := replaceRuns (fun c => isSpace c || c = '-') false normalized
  let normalized := replaceRuns (fun c => c = '_') false normalized
  .ofList normalized

def canonical_authority_key (key : String) : Option String :=
  let normalized := normalize_key unicode key
  if normalized ∈ AUTHORITY_KEYS then some normalized
  else sorted_map.get normalized AUTHORITY_KEY_ALIASES

/-! ## Payloads -/

mutual
def normalize_payload : Value → Value
  | .object value => .object (dict.ofItems (normalizeFields value))
  | .array value => .array (normalizeItems value)
  | .string value => .string (.ofList (strip (unicode.nfkc value).toList))
  | value => value
def normalizeItems : List Value → List Value
  | [] => []
  | item :: items => normalize_payload item :: normalizeItems items
def normalizeFields : List (String × Value) → List (String × Value)
  | [] => []
  | (key, item) :: fields =>
    (normalize_key unicode key, normalize_payload item) :: normalizeFields fields
end

mutual
def strip_authority_keys : Value → Value
  | .object value => .object (dict.ofItems (stripFields value))
  | .array value => .array (stripItems value)
  | value => value
def stripItems : List Value → List Value
  | [] => []
  | item :: items => strip_authority_keys item :: stripItems items
def stripFields : List (String × Value) → List (String × Value)
  | [] => []
  | (key, item) :: fields =>
    if canonical_authority_key unicode key = none then
      (normalize_key unicode key, strip_authority_keys item) :: stripFields fields
    else stripFields fields
end

/-! ## Findings -/

def childPath (path normalized : String) : String :=
  if path = "" then normalized else path ++ "." ++ normalized

def indexPath (path : String) (index : Nat) : String := path ++ "[" ++ Nat.repr index ++ "]"

mutual
def normalization_collisions_in (value : Value) (path : String) : List Value :=
  match value with
  | .object value => collisionsOfFields value path []
  | .array value => collisionsOfItems value path 0
  | _ => []
def collisionsOfItems (items : List Value) (path : String) (index : Nat) : List Value :=
  match items with
  | [] => []
  | item :: items =>
    normalization_collisions_in item (indexPath path index) ++ collisionsOfItems items path (index + 1)
def collisionsOfFields (fields : List (String × Value)) (path : String)
    (seen : List (String × String)) : List Value :=
  match fields with
  | [] => []
  | (key, item) :: fields =>
    let normalized := normalize_key unicode key
    let child_path := childPath path normalized
    match (sorted_map.get normalized seen).filter fun first_key => first_key ≠ key with
    | some first_key =>
      .object [
        ("path", .string child_path),
        ("normalized_key", .string normalized),
        ("first_key", .string first_key),
        ("colliding_key", .string key)] ::
      (normalization_collisions_in item child_path ++ collisionsOfFields fields path seen)
    | none =>
      normalization_collisions_in item child_path ++
        collisionsOfFields fields path (dict.setItem normalized key seen)
end

mutual
def authority_keys_in (value : Value) (path : String) : List Value :=
  match value with
  | .object value => keysOfFields value path
  | .array value => keysOfItems value path 0
  | _ => []
def keysOfItems (items : List Value) (path : String) (index : Nat) : List Value :=
  match items with
  | [] => []
  | item :: items => authority_keys_in item (indexPath path index) ++ keysOfItems items path (index + 1)
def keysOfFields (fields : List (String × Value)) (path : String) : List Value :=
  match fields with
  | [] => []
  | (key, item) :: fields =>
    let child_path := childPath path (normalize_key unicode key)
    (match canonical_authority_key unicode key with
      | some canonical => [.object [
          ("path", .string child_path), ("key", .string key), ("canonical_key", .string canonical)]]
      | none => []) ++
    authority_keys_in item child_path ++ keysOfFields fields path
end

mutual
def authority_values_in (value : Value) (path : String) : List Value :=
  match value with
  | .object value => valuesOfFields value path
  | .array value => valuesOfItems value path 0
  | .string value =>
    let normalized := normalize_key unicode value
    if normalized ∈ AUTHORITY_VALUES then [.object [
      ("path", .string path), ("value", .string value), ("canonical_value", .string normalized)]]
    else []
  | _ => []
def valuesOfItems (items : List Value) (path : String) (index : Nat) : List Value :=
  match items with
  | [] => []
  | item :: items =>
    authority_values_in item (indexPath path index) ++ valuesOfItems items path (index + 1)
def valuesOfFields (fields : List (String × Value)) (path : String) : List Value :=
  match fields with
  | [] => []
  | (key, item) :: fields =>
    authority_values_in item (childPath path (normalize_key unicode key)) ++
      valuesOfFields fields path
end

def normalize_inbound_payload (payload : Value) : Value :=
  let normalized_payload := normalize_payload unicode payload
  let stripped_payload := strip_authority_keys unicode payload
  let key_findings := authority_keys_in unicode payload ""
  let value_findings := authority_values_in unicode stripped_payload ""
  let collision_findings := normalization_collisions_in unicode payload ""
  let quarantined := !(key_findings.isEmpty && value_findings.isEmpty && collision_findings.isEmpty)
  .object [
    ("raw_payload", payload),
    ("normalized_payload", normalized_payload),
    ("stripped_payload", stripped_payload),
    ("quarantined", .bool quarantined),
    ("authority_key_findings", .array key_findings),
    ("authority_value_findings", .array value_findings),
    ("normalization_collision_findings", .array collision_findings),
    ("audit_event", .object [
      ("event_type",
        .string (if quarantined then "normalization.quarantine" else "normalization.pass")),
      ("authority_key_count", .number (.int key_findings.length)),
      ("authority_value_count", .number (.int value_findings.length)),
      ("normalization_collision_count", .number (.int collision_findings.length)),
      ("raw_payload_preserved", .bool true)])]

end shell_core.normalization
