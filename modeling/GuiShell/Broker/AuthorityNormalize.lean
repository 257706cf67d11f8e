-- The normalization of inbound payloads (authority.rs): the normalized and the stripped
-- payload, and the findings of authority keys, authority values and key collisions.
import GuiShell.Broker.AuthorityTokens

open json serde_json json_lines

namespace authority

variable (crates : Crates)

mutual
def normalize_payload : Value → Value
  | .object object => .mkObject (normalizeFields object)
  | .array items => .array (normalizeItems items)
  | .string value => .string (.ofList (trim (crates.nfkc value).toList))
  | value => value
def normalizeItems : List Value → List Value
  | [] => []
  | value :: items => normalize_payload value :: normalizeItems items
def normalizeFields : List (String × Value) → List (String × Value)
  | [] => []
  | (key, value) :: fields =>
    (normalize_authority_token crates key, normalize_payload value) :: normalizeFields fields
end

mutual
def strip_authority_keys : Value → Value
  | .object object => .mkObject (stripFields object)
  | .array items => .array (stripItems items)
  | value => value
def stripItems : List Value → List Value
  | [] => []
  | value :: items => strip_authority_keys value :: stripItems items
def stripFields : List (String × Value) → List (String × Value)
  | [] => []
  | (key, value) :: fields =>
    if keyClaimsAuthority crates key then stripFields fields
    else (normalize_authority_token crates key, strip_authority_keys value) :: stripFields fields
end

/-! ## Findings -/

/-- The path of a field, by its normalized key. -/
def childPath (path normalized : String) : String :=
  if path = "" then normalized else path ++ "." ++ normalized

def indexPath (path : String) (index : Nat) : String := path ++ "[" ++ Nat.repr index ++ "]"

mutual
def normalization_collisions_in (value : Value) (path : String) : List Value :=
  match value with
  | .object object => collisionsOfFields object path .empty
  | .array items => collisionsOfItems items path 0
  | _ => []
def collisionsOfItems (items : List Value) (path : String) (index : Nat) : List Value :=
  match items with
  | [] => []
  | item :: items =>
    normalization_collisions_in item (indexPath path index) ++ collisionsOfItems items path (index + 1)
/-- `seen` holds the first key of each normalized key. -/
def collisionsOfFields (fields : List (String × Value)) (path : String)
    (seen : SortedMap String String) : List Value :=
  match fields with
  | [] => []
  | (key, item) :: fields =>
    let normalized := normalize_authority_token crates key
    let child_path := childPath path normalized
    match seen.get normalized with
    | some first_key =>
      (if first_key ≠ key then [.mkObject [
          ("path", .string child_path),
          ("normalized_key", .string normalized),
          ("first_key", .string first_key),
          ("colliding_key", .string key)]]
        else []) ++
      normalization_collisions_in item child_path ++ collisionsOfFields fields path seen
    | none =>
      normalization_collisions_in item child_path ++
        collisionsOfFields fields path (seen.insert normalized key)
end

mutual
def authority_keys_in (value : Value) (path : String) : List Value :=
  match value with
  | .object object => keysOfFields object path
  | .array items => keysOfItems items path 0
  | _ => []
def keysOfItems (items : List Value) (path : String) (index : Nat) : List Value :=
  match items with
  | [] => []
  | item :: items => authority_keys_in item (indexPath path index) ++ keysOfItems items path (index + 1)
def keysOfFields (fields : List (String × Value)) (path : String) : List Value :=
  match fields with
  | [] => []
  | (key, item) :: fields =>
    let normalized := normalize_authority_token crates key
    let child_path := childPath path normalized
    (match canonical_authority_key normalized with
      | some canonical => [.mkObject [
          ("path", .string child_path), ("key", .string key), ("canonical_key", .string canonical)]]
      | none => []) ++
    authority_keys_in item child_path ++ keysOfFields fields path
end

mutual
def authority_values_in (value : Value) (path : String) : List Value :=
  match value with
  | .object object => valuesOfFields object path
  | .array items => valuesOfItems items path 0
  | .string value =>
    let normalized := normalize_authority_token crates value
    if authority_value_present normalized then [.mkObject [
      ("path", .string path), ("value", .string value), ("canonical_value", .string normalized)]]
    else []
  | _ => []
def valuesOfItems (items : List Value) (path : String) (index : Nat) : List Value :=
  match items with
  | [] => []
  | item :: items =>
    authority_values_in item (indexPath path index) ++ valuesOfItems items path (index + 1)
def valuesOfFields (fields : List (String × Value)) (path : String) : List Value :=
  match fields with
  | [] => []
  | (key, item) :: fields =>
    authority_values_in item (childPath path (normalize_authority_token crates key)) ++
      valuesOfFields fields path
end

def normalize_inbound_payload (payload : Value) : Value :=
  let normalized_payload := normalize_payload crates payload
  let stripped_payload := strip_authority_keys crates payload
  let key_findings := authority_keys_in crates payload ""
  let value_findings := authority_values_in crates stripped_payload ""
  let collision_findings := normalization_collisions_in crates payload ""
  let pass := key_findings.isEmpty && value_findings.isEmpty && collision_findings.isEmpty
  .mkObject [
    ("raw_payload", payload),
    ("normalized_payload", normalized_payload),
    ("stripped_payload", stripped_payload),
    ("quarantined", .bool (!pass)),
    ("authority_key_findings", .array key_findings),
    ("authority_value_findings", .array value_findings),
    ("normalization_collision_findings", .array collision_findings),
    ("audit_event", .mkObject [
      ("event_type", .string (if pass then "normalization.pass" else "normalization.quarantine")),
      ("authority_key_count", .number (.int key_findings.length)),
      ("authority_value_count", .number (.int value_findings.length)),
      ("normalization_collision_count", .number (.int collision_findings.length)),
      ("raw_payload_preserved", .bool true)])]

end authority
