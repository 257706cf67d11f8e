-- Schemas of JSON values, as far as closed records of strings, enumerations and typed fields
-- need them.
import GuiShell.Json.Value

namespace json

inductive JsonType where
  | null | boolean | number | string | array | object
  deriving DecidableEq

def Value.type : Value → JsonType
  | .null => .null
  | .bool _ => .boolean
  | .number _ => .number
  | .string _ => .string
  | .array _ => .array
  | .object _ => .object

inductive Schema where
  /-- `type`, one or more. -/
  | types (allowed : List JsonType)
  /-- A `string` with a `minLength`. -/
  | text (minLength : Nat)
  /-- A `string` with an `enum`. -/
  | enum (values : List String)
  /-- An `object` with `required` fields and no `additionalProperties`. -/
  | closed (required : List String) (properties : List (String × Schema))

namespace Schema

mutual
def accepts : Schema → Value → Bool
  | .types allowed, v => v.type ∈ allowed
  | .text minLength, .string s => minLength ≤ s.length
  | .enum values, .string s => s ∈ values
  | .closed required properties, .object fields =>
    required.all (fun name => (sorted_map.get name fields).isSome) &&
      fields.all (fun field => field.1 ∈ properties.map Prod.fst) &&
      acceptsFields properties fields
  | .text _, _ | .enum _, _ | .closed _ _, _ => false
/-- The properties that the object has, each by its schema. -/
def acceptsFields : List (String × Schema) → List (String × Value) → Bool
  | [], _ => true
  | (name, schema) :: properties, fields =>
    (match sorted_map.get name fields with
      | some v => schema.accepts v
      | none => true) && acceptsFields properties fields
end

@[simp] theorem accepts_types (allowed : List JsonType) (v : Value) :
    (types allowed).accepts v = decide (v.type ∈ allowed) := by
  rw [accepts]

@[simp] theorem accepts_text (minLength : Nat) (s : String) :
    (text minLength).accepts (.string s) = decide (minLength ≤ s.length) := by
  rw [accepts]

@[simp] theorem accepts_enum (values : List String) (s : String) :
    (enum values).accepts (.string s) = decide (s ∈ values) := by
  rw [accepts]

theorem accepts_closed (required : List String) (properties : List (String × Schema))
    (fields : List (String × Value)) :
    (closed required properties).accepts (.object fields) =
      (required.all (fun name => (sorted_map.get name fields).isSome) &&
        fields.all (fun field => field.1 ∈ properties.map Prod.fst) &&
        acceptsFields properties fields) := by
  rw [accepts]

@[simp] theorem acceptsFields_nil (fields : List (String × Value)) : acceptsFields [] fields = true := by
  rw [acceptsFields]

theorem acceptsFields_cons {name : String} {fields : List (String × Value)} {v : Value}
    (h : sorted_map.get name fields = some v) (schema : Schema)
    (properties : List (String × Schema)) :
    acceptsFields ((name, schema) :: properties) fields =
      (schema.accepts v && acceptsFields properties fields) := by
  rw [acceptsFields, h]

end Schema

end json
