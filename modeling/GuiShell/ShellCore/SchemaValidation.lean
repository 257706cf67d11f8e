-- The schema validator of the Python side (schema_validation.py). It looks at the keywords that
-- the contracts under specs/ use, and raises for a type name that it does not know.
import GuiShell.Json.Value

open json

namespace shell_core.schema_validation

/-! ## Schemas -/

/-- The value of `type`: none, one name, or a list of names. -/
inductive ExpectedType where
  | absent
  | one (name : String)
  | any (names : List String)
  deriving DecidableEq

/-- A value of `const`. -/
inductive Constant where
  | bool (b : Bool)
  | text (s : String)
  deriving DecidableEq

/-- The patterns of the contracts. -/
inductive Pattern where
  /-- `^sha256:[a-f0-9]{64}$` -/
  | digest
  /-- `^(sha256:[a-f0-9]{64})?$` -/
  | optionalDigest
  /-- `^v[0-9]+\.[0-9]+$` -/
  | version
  deriving DecidableEq

/-- The value of `additionalProperties`. -/
inductive Additional (σ : Type) where
  | allowed
  | forbidden
  | each (schema : σ)

structure Contract where
  type : ExpectedType := .absent
  const : Option Constant := none
  enum : Option (List String) := none
  minLength : Option Nat := none
  pattern : Option Pattern := none
  minimum : Option Int := none
  minItems : Option Nat := none
  items : Option Contract := none
  required : List String := []
  properties : List (String × Contract) := []
  additional : Additional Contract := .allowed

/-! ## Checks of one value -/

/-- `isinstance` of the type of that name, none for a name that `TYPE_MAP` does not have. -/
def type_matches (value : Value) (expected_type : String) : Option Bool :=
  match expected_type with
  | "integer" => some (match value with | .number (.int _) => true | _ => false)
  | "boolean" => some (match value with | .bool _ => true | _ => false)
  | "object" => some (match value with | .object _ => true | _ => false)
  | "array" => some (match value with | .array _ => true | _ => false)
  | "string" => some (match value with | .string _ => true | _ => false)
  | "null" => some (match value with | .null => true | _ => false)
  | _ => none

def any_type_matches (value : Value) : List String → Option Bool
  | [] => some false
  | name :: names => do
    if ← type_matches value name then some true else any_type_matches value names

/-- Whether a value passes `type`. -/
def ExpectedType.admits (value : Value) : ExpectedType → Option Bool
  | .absent => some true
  | .one name => type_matches value name
  | .any names => any_type_matches value names

/-- `==` with a constant. A number equals a truth value when it is 0 or 1. -/
def Constant.equals : Constant → Value → Bool
  | .text s, value => value = .string s
  | .bool b, .bool value => value = b
  | .bool true, .number n => n.text ∈ ["1".toList, "1.0".toList]
  | .bool false, .number n => n.text ∈ ["0".toList, "0.0".toList, "-0.0".toList]
  | .bool _, _ => false

def isDigest (l : List Char) : Bool :=
  l.take 7 = "sha256:".toList && (l.drop 7).length = 64 &&
    (l.drop 7).all fun c => c.isDigit || ('a' ≤ c && c ≤ 'f')

/-- `$` also matches before a newline at the end. -/
def dropFinalNewline (l : List Char) : List Char :=
  if l.getLast? = some '\n' then l.dropLast else l

def isVersion : List Char → Bool
  | 'v' :: rest =>
    match rest.dropWhile Char.isDigit with
    | '.' :: minor => (rest.takeWhile Char.isDigit ≠ []) && minor ≠ [] && minor.all Char.isDigit
    | _ => false
  | _ => false

/-- `re.match`. -/
def Pattern.matches (pattern : Pattern) (s : String) : Bool :=
  let l := dropFinalNewline s.toList
  match pattern with
  | .digest => isDigest l
  | .optionalDigest => l = [] || isDigest l
  | .version => isVersion l

def Pattern.source : Pattern → String
  | .digest => "^sha256:[a-f0-9]\x7b64\x7d$"
  | .optionalDigest => "^(sha256:[a-f0-9]\x7b64\x7d)?$"
  | .version => "^v[0-9]+\\.[0-9]+$"

/-- `repr` of a string without quotes and escapes in it, and of a list of such strings. -/
def quoted (s : String) : String := "\x27" ++ s ++ "\x27"

def listRepr (l : List String) : String := "[" ++ ", ".intercalate (l.map quoted) ++ "]"

def Constant.repr : Constant → String
  | .bool true => "True"
  | .bool false => "False"
  | .text s => quoted s

def ExpectedType.error (path : String) : ExpectedType → String
  | .absent => ""
  | .one name => path ++ ": " ++ name ++ " が必要です"
  | .any names => path ++ ": " ++ listRepr names ++ " のいずれかが必要です"

def errorUnless (check : Bool) (error : String) : List String := if check then [] else [error]

section validate

-- `repr` of a value.
variable (repr : Value → String)

/-- The checks that do not look into the parts of the value. -/
def ownErrors (value : Value) (schema : Contract) (path : String) : List String :=
  (match schema.const with
    | some const => errorUnless (const.equals value) (path ++ ": const " ++ const.repr ++ " が必要です")
    | none => []) ++
  (match schema.enum with
    | some values => errorUnless (value ∈ values.map Value.string)
        (path ++ ": 値 " ++ repr value ++ " が enum にありません")
    | none => []) ++
  match value with
  | .string s =>
    (match schema.minLength with
      | some n => errorUnless (n ≤ s.length)
          (path ++ ": minLength " ++ Nat.repr n ++ " より短い値です")
      | none => []) ++
    (match schema.pattern with
      | some pattern => errorUnless (pattern.matches s)
          (path ++ ": pattern " ++ pattern.source ++ " と一致しません")
      | none => [])
  | .array items =>
    (match schema.minItems with
      | some n => errorUnless (n ≤ items.length)
          (path ++ ": minItems " ++ Nat.repr n ++ " より項目が少ない値です")
      | none => [])
  | .object fields =>
    schema.required.flatMap (fun key => errorUnless (sorted_map.get key fields).isSome
      (path ++ ": 必須 key " ++ key ++ " がありません")) ++
    (match schema.additional with
      | .forbidden => fields.flatMap fun field =>
          errorUnless (sorted_map.get field.1 schema.properties).isSome
            (path ++ ": 追加 property " ++ field.1 ++ " は許可されません")
      | _ => [])
  | _ => []

/-- The schema of a field, when it has one. -/
def Contract.fieldSchema (schema : Contract) (key : String) : Option Contract :=
  match sorted_map.get key schema.properties, schema.additional with
  | some property, _ => some property
  | none, .each additional => some additional
  | none, _ => none

/-- The errors of two parts, when neither raises. -/
def appended (errors rest : Option (List String)) : Option (List String) :=
  errors.bind fun errors => rest.map (errors ++ ·)

mutual
/-- The errors of a value, or none when the code raises. -/
def validate_instance (value : Value) (schema : Contract) (path : String) : Option (List String) :=
  match schema.type.admits value with
  | none => none
  | some false => some [schema.type.error path]
  | some true =>
    match value with
    | .array items =>
      match schema.items with
      | some item_schema => (validateItems items item_schema path 0).map
          (ownErrors repr (.array items) schema path ++ ·)
      | none => some (ownErrors repr (.array items) schema path)
    | .object fields => (validateFields fields schema path).map
        (ownErrors repr (.object fields) schema path ++ ·)
    | value => some (ownErrors repr value schema path)
def validateItems (items : List Value) (schema : Contract) (path : String) (index : Nat) :
    Option (List String) :=
  match items with
  | [] => some []
  | item :: items =>
    appended (validate_instance item schema (path ++ "[" ++ Nat.repr index ++ "]"))
      (validateItems items schema path (index + 1))
def validateFields (fields : List (String × Value)) (schema : Contract) (path : String) :
    Option (List String) :=
  match fields with
  | [] => some []
  | (key, item) :: fields =>
    appended
      (match schema.fieldSchema key with
        | some property => validate_instance item property (path ++ "." ++ key)
        | none => some [])
      (validateFields fields schema path)
end

end validate

/-- `validate_contract` returns. It raises for a record with errors, whatever their text. -/
def validates (record : Value) (schema : Contract) : Bool :=
  validate_instance (fun _ => "") record schema "$" = some []

/-! ## Valid values -/

section valid

variable {repr : Value → String} {schema : Contract} {value : Value} {path : String}

theorem admits_of_valid (h : validate_instance repr value schema path = some []) :
    schema.type.admits value = some true := by
  unfold validate_instance at h
  split at h
  · cases h
  · cases h
  · assumption

/-- A value of a contract for strings is a string. -/
theorem string_of_valid (htype : schema.type = .one "string")
    (h : validate_instance repr value schema path = some []) : ∃ s, value = .string s := by
  have hadmits := admits_of_valid h
  rw [htype] at hadmits
  cases value with
  | string s => exact ⟨s, rfl⟩
  | null | bool _ | number _ | array _ | object _ =>
    exact absurd hadmits (by simp [ExpectedType.admits, type_matches])

theorem object_of_valid (htype : schema.type = .one "object")
    (h : validate_instance repr value schema path = some []) :
    ∃ fields, value = .object fields ∧ ownErrors repr value schema path = [] ∧
      validateFields repr fields schema path = some [] := by
  have hadmits := admits_of_valid h
  unfold validate_instance at h
  rw [hadmits] at h
  rw [htype] at hadmits
  cases value with
  | object fields =>
    obtain ⟨errors, herrors, happend⟩ := Option.map_eq_some_iff.mp h
    obtain ⟨hown, rfl⟩ := List.append_eq_nil_iff.mp happend
    exact ⟨fields, rfl, hown, herrors⟩
  | null | bool _ | number _ | array _ | string _ =>
    exact absurd hadmits (by simp [ExpectedType.admits, type_matches])

theorem validateFields_get {fields : List (String × Value)} {key : String} {v : Value}
    {property : Contract} (h : validateFields repr fields schema path = some [])
    (hget : sorted_map.get key fields = some v) (hproperty : schema.fieldSchema key = some property) :
    validate_instance repr v property (path ++ "." ++ key) = some [] := by
  have hmem := sorted_map.mem_of_get hget
  clear hget
  induction fields with
  | nil => cases hmem
  | cons e fields ih =>
    obtain ⟨k, w⟩ := e
    simp only [validateFields, appended, Option.bind_eq_some_iff, Option.map_eq_some_iff,
      List.append_eq_nil_iff] at h
    obtain ⟨_, herrors, _, hrest, rfl, rfl⟩ := h
    rcases List.mem_cons.mp hmem with he | hmem
    · cases he
      rw [hproperty] at herrors
      exact herrors
    · exact ih hrest hmem

/-- A required field of a valid record that is to be a string is one. -/
theorem field_of_valid {key : String} {property : Contract}
    (htype : schema.type = .one "object") (hrequired : key ∈ schema.required)
    (hproperty : schema.fieldSchema key = some property) (hstring : property.type = .one "string")
    (h : validate_instance repr value schema path = some []) :
    ∃ s, value.get key = some (.string s) := by
  obtain ⟨fields, rfl, hown, hfields⟩ := object_of_valid htype h
  unfold ownErrors at hown
  simp only [List.append_eq_nil_iff, List.flatMap_eq_nil_iff] at hown
  have hsome : (sorted_map.get key fields).isSome := by
    have hkey := hown.2.1 key hrequired
    unfold errorUnless at hkey
    split at hkey
    · assumption
    · cases hkey
  obtain ⟨v, hv⟩ := Option.isSome_iff_exists.mp hsome
  obtain ⟨s, rfl⟩ := string_of_valid hstring (validateFields_get hfields hv hproperty)
  exact ⟨s, hv⟩

theorem validateFields_of_forall {fields : List (String × Value)}
    (h : ∀ e ∈ fields, ∃ property, schema.fieldSchema e.1 = some property ∧
      validate_instance repr e.2 property (path ++ "." ++ e.1) = some []) :
    validateFields repr fields schema path = some [] := by
  induction fields with
  | nil => rfl
  | cons e fields ih =>
    obtain ⟨key, v⟩ := e
    obtain ⟨property, hproperty, hvalid⟩ := h (key, v) List.mem_cons_self
    rw [validateFields, hproperty, ih fun e he => h e (List.mem_cons_of_mem _ he)]
    dsimp only
    rw [hvalid]
    rfl

end valid

end shell_core.schema_validation
