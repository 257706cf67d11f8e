-- The schema validator of the release tooling (check_schemas.py), next to the one of the shell.
-- Both visit the same places of a value with the same types, and raise at the same ones; only
-- the tooling looks at `minimum`.
import GuiShell.ShellCore.Specs

open json shell_core shell_core.schema_validation

namespace check_schemas

/-! ## The visit -/

section visit

-- The error of a wrong type, and the errors of the other keywords at one place.
variable (typeError : ExpectedType → String → String)
  (ownErrors : Value → Contract → String → List String)

mutual
/-- The errors of a value and of its parts, or none when the code raises. -/
def visit (value : Value) (schema : Contract) (path : String) : Option (List String) :=
  match schema.type.admits value with
  | none => none
  | some false => some [typeError schema.type path]
  | some true =>
    appended (some (ownErrors value schema path))
      (match value with
        | .array items =>
          match schema.items with
          | some item_schema => visitItems items item_schema path 0
          | none => some []
        | .object fields => visitFields fields schema path
        | _ => some [])
def visitItems (items : List Value) (schema : Contract) (path : String) (index : Nat) :
    Option (List String) :=
  match items with
  | [] => some []
  | item :: items =>
    appended (visit item schema (path ++ "[" ++ Nat.repr index ++ "]"))
      (visitItems items schema path (index + 1))
def visitFields (fields : List (String × Value)) (schema : Contract) (path : String) :
    Option (List String) :=
  match fields with
  | [] => some []
  | (key, item) :: fields =>
    appended
      (match schema.fieldSchema key with
        | some property => visit item property (path ++ "." ++ key)
        | none => some [])
      (visitFields fields schema path)
end

end visit

/-! ## The two validators -/

section validators

variable (repr : Value → String)

/-- The error of a value that has none of the types. -/
def expectedError : ExpectedType → String → String
  | .absent, _ => ""
  | .one name, path => path ++ ": 期待値: " ++ name
  | .any names, path => path ++ ": 次のいずれかを期待: " ++ listRepr names

def ownErrors (value : Value) (schema : Contract) (path : String) : List String :=
  (match schema.const with
    | some const => errorUnless (const.equals value) (path ++ ": const " ++ const.repr ++ "を期待")
    | none => []) ++
  (match schema.enum with
    | some values => errorUnless (value ∈ values.map Value.string)
        (path ++ ": value " ++ repr value ++ "がenumにない")
    | none => []) ++
  match value with
  | .string s =>
    (match schema.minLength with
      | some n => errorUnless (n ≤ s.length) (path ++ ": minLength " ++ Nat.repr n ++ "より短い")
      | none => []) ++
    (match schema.pattern with
      | some pattern => errorUnless (pattern.matches s)
          (path ++ ": pattern " ++ pattern.source ++ "と一致しない")
      | none => [])
  | .number (.int i) =>
    (match schema.minimum with
      | some n => errorUnless (n ≤ i) (path ++ ": minimum " ++ toString n ++ "未満")
      | none => [])
  | .array items =>
    (match schema.minItems with
      | some n => errorUnless (n ≤ items.length)
          (path ++ ": minItems " ++ Nat.repr n ++ "より少ない")
      | none => [])
  | .object fields =>
    schema.required.flatMap (fun key => errorUnless (sorted_map.get key fields).isSome
      (path ++ ": 必須key " ++ key ++ "がない")) ++
    (match schema.additional with
      | .forbidden => fields.flatMap fun field =>
          errorUnless (sorted_map.get field.1 schema.properties).isSome
            (path ++ ": 追加property " ++ field.1 ++ "は許可されない")
      | _ => [])
  | _ => []

/-- The validator of the tooling. -/
def validate_instance : Value → Contract → String → Option (List String) :=
  visit expectedError (ownErrors repr)

/-- The validator of the shell visits the same places, with texts of its own. -/
theorem shell_eq_visit (value : Value) (schema : Contract) (path : String) :
    schema_validation.validate_instance repr value schema path =
      visit (fun type path => type.error path) (schema_validation.ownErrors repr) value schema
        path := by
  induction value using Value.induct generalizing schema path with
  | null | bool _ | number _ | string _ =>
    unfold schema_validation.validate_instance visit
    rcases schema.type.admits _ with _ | _ | _ <;> simp [appended]
  | array items ih =>
    have hitems : ∀ (item_schema : Contract) (index : Nat),
        validateItems repr items item_schema path index =
          visitItems (fun type path => type.error path) (schema_validation.ownErrors repr) items
            item_schema path index := by
      intro item_schema index
      induction items generalizing index with
      | nil => rfl
      | cons item items hrest =>
        rw [validateItems, visitItems, ih item List.mem_cons_self,
          hrest fun v hv => ih v (List.mem_cons_of_mem _ hv)]
    rw [schema_validation.validate_instance, visit]
    rcases schema.type.admits _ with _ | _ | _ <;> rcases schema.items with _ | item_schema <;>
      simp [appended, hitems]
  | object fields ih =>
    have hfields : validateFields repr fields schema path =
        visitFields (fun type path => type.error path) (schema_validation.ownErrors repr) fields
          schema path := by
      induction fields with
      | nil => rfl
      | cons field fields hrest =>
        obtain ⟨key, item⟩ := field
        rw [validateFields, visitFields, hrest fun k v hv => ih k v (List.mem_cons_of_mem _ hv)]
        congr 1
        rcases schema.fieldSchema key with _ | property
        · rfl
        · exact ih key item List.mem_cons_self property _
    rw [schema_validation.validate_instance, visit]
    rcases schema.type.admits _ with _ | _ | _ <;> simp [appended, hfields]

end validators

/-! ## The places that a visit reaches -/

/-- The visit of the value comes to the part `w`, with the schema `u`. -/
inductive Reaches : Value → Contract → Value → Contract → Prop
  | here (value : Value) (schema : Contract) : Reaches value schema value schema
  | item {items : List Value} {schema item_schema : Contract} {v w : Value} {u : Contract}
      (admits : schema.type.admits (.array items) = some true)
      (hitems : schema.items = some item_schema) (hv : v ∈ items)
      (h : Reaches v item_schema w u) : Reaches (.array items) schema w u
  | field {fields : List (String × Value)} {schema property : Contract} {key : String}
      {v w : Value} {u : Contract} (admits : schema.type.admits (.object fields) = some true)
      (hv : (key, v) ∈ fields) (hproperty : schema.fieldSchema key = some property)
      (h : Reaches v property w u) : Reaches (.object fields) schema w u

section reaches

variable {typeError : ExpectedType → String → String}
  {ownErrors : Value → Contract → String → List String}

/-- What the visit adds at one place. -/
def atPlace (typeError : ExpectedType → String → String)
    (ownErrors : Value → Contract → String → List String) (value : Value) (schema : Contract)
    (path : String) : Option (List String) :=
  match schema.type.admits value with
  | none => none
  | some false => some [typeError schema.type path]
  | some true => some (ownErrors value schema path)

/-- A property of results that holds of a whole visit when it holds at every place. -/
structure Splits (Q : Option (List String) → Prop) : Prop where
  nil : Q (some [])
  append : ∀ a b, Q (appended a b) ↔ Q a ∧ Q b

variable {Q : Option (List String) → Prop} {L : Value → Contract → Prop}

theorem visitItems_iff (hQ : Splits Q) {items : List Value} {item_schema : Contract}
    {P : Value → Prop}
    (h : ∀ v ∈ items, ∀ path, Q (visit typeError ownErrors v item_schema path) ↔ P v)
    (path : String) (index : Nat) :
    Q (visitItems typeError ownErrors items item_schema path index) ↔ ∀ v ∈ items, P v := by
  induction items generalizing index with
  | nil => simpa [visitItems] using hQ.nil
  | cons v items ih =>
    rw [visitItems, hQ.append, h v List.mem_cons_self,
      ih fun w hw => h w (List.mem_cons_of_mem _ hw)]
    simp

theorem visitFields_iff (hQ : Splits Q) {fields : List (String × Value)} {schema : Contract}
    {P : Value → Contract → Prop}
    (h : ∀ key v, (key, v) ∈ fields → ∀ property path,
      Q (visit typeError ownErrors v property path) ↔ P v property) (path : String) :
    Q (visitFields typeError ownErrors fields schema path) ↔ ∀ key v, (key, v) ∈ fields →
      ∀ property, schema.fieldSchema key = some property → P v property := by
  induction fields with
  | nil => simpa [visitFields] using hQ.nil
  | cons field fields ih =>
    obtain ⟨key, v⟩ := field
    rw [visitFields, hQ.append, ih fun k w hw => h k w (List.mem_cons_of_mem _ hw)]
    have hfirst : Q (match schema.fieldSchema key with
        | some property => visit typeError ownErrors v property (path ++ "." ++ key)
        | none => some []) ↔ ∀ property, schema.fieldSchema key = some property → P v property := by
      rcases schema.fieldSchema key with _ | property
      · simpa using hQ.nil
      · simpa using h key v List.mem_cons_self property _
    rw [hfirst]
    constructor
    · rintro ⟨hhead, htail⟩ k w hw
      rcases List.mem_cons.mp hw with hw | hw
      · cases hw
        exact hhead
      · exact htail k w hw
    · exact fun hall => ⟨hall key v List.mem_cons_self,
        fun k w hw => hall k w (List.mem_cons_of_mem _ hw)⟩

/-- The places that are reached from the parts of an array. -/
theorem reaches_array_iff {items : List Value} {schema : Contract}
    (hadmits : schema.type.admits (.array items) = some true) :
    (∀ w u, Reaches (.array items) schema w u → L w u) ↔ L (.array items) schema ∧
      ∀ item_schema, schema.items = some item_schema → ∀ v ∈ items, ∀ w u,
        Reaches v item_schema w u → L w u := by
  constructor
  · exact fun h => ⟨h _ _ (.here _ _), fun _ hitems v hv w u hr => h w u (.item hadmits hitems hv hr)⟩
  · rintro ⟨hhere, hparts⟩ w u hr
    cases hr with
    | here => exact hhere
    | item _ hitems hv hr => exact hparts _ hitems _ hv w u hr

theorem reaches_object_iff {fields : List (String × Value)} {schema : Contract}
    (hadmits : schema.type.admits (.object fields) = some true) :
    (∀ w u, Reaches (.object fields) schema w u → L w u) ↔ L (.object fields) schema ∧
      ∀ key v, (key, v) ∈ fields → ∀ property, schema.fieldSchema key = some property → ∀ w u,
        Reaches v property w u → L w u := by
  constructor
  · exact fun h => ⟨h _ _ (.here _ _),
      fun _ v hv _ hproperty w u hr => h w u (.field hadmits hv hproperty hr)⟩
  · rintro ⟨hhere, hparts⟩ w u hr
    cases hr with
    | here => exact hhere
    | field _ hv hproperty hr => exact hparts _ _ hv _ hproperty w u hr

/-- Where the type is wrong or unknown, nothing else is reached. -/
theorem reaches_of_not_admits {value : Value} {schema : Contract}
    (hadmits : schema.type.admits value ≠ some true) :
    (∀ w u, Reaches value schema w u → L w u) ↔ L value schema := by
  constructor
  · exact fun h => h _ _ (.here _ _)
  · intro hhere w u hr
    cases hr with
    | here => exact hhere
    | item h | field h => exact absurd h hadmits

/-- A scalar has no parts. -/
theorem reaches_scalar_iff {value : Value} {schema : Contract}
    (harray : ∀ items, value ≠ .array items) (hobject : ∀ fields, value ≠ .object fields) :
    (∀ w u, Reaches value schema w u → L w u) ↔ L value schema := by
  constructor
  · exact fun h => h _ _ (.here _ _)
  · intro hhere w u hr
    cases hr with
    | here => exact hhere
    | item => exact absurd rfl (harray _)
    | field => exact absurd rfl (hobject _)

theorem visit_of_not_admits {value : Value} {schema : Contract}
    (h : schema.type.admits value ≠ some true) (path : String) :
    visit typeError ownErrors value schema path = atPlace typeError ownErrors value schema path := by
  unfold visit atPlace
  rcases hadmits : schema.type.admits value with _ | _ | _
  · rfl
  · rfl
  · exact absurd hadmits h

/-- A visit has the property exactly when every place that it reaches has it. -/
theorem visit_iff (hQ : Splits Q)
    (hL : ∀ w u path, Q (atPlace typeError ownErrors w u path) ↔ L w u) (value : Value)
    (schema : Contract) (path : String) :
    Q (visit typeError ownErrors value schema path) ↔
      ∀ w u, Reaches value schema w u → L w u := by
  have hown : ∀ {w u}, u.type.admits w = some true → ∀ path,
      Q (some (ownErrors w u path)) ↔ L w u := by
    intro w u hadmits path
    rw [← hL w u path, atPlace, hadmits]
  induction value using Value.induct generalizing schema path with
  | null | bool _ | number _ | string _ =>
    rw [reaches_scalar_iff (by simp) (by simp), ← hL _ _ path]
    unfold visit atPlace
    rcases schema.type.admits _ with _ | _ | _ <;> simp [appended]
  | array items ih =>
    by_cases hadmits : schema.type.admits (.array items) = some true
    · rw [reaches_array_iff hadmits, visit, hadmits]
      dsimp only
      rw [hQ.append, hown hadmits]
      refine and_congr Iff.rfl ?_
      rcases schema.items with _ | item_schema
      · simpa using hQ.nil
      · simpa using visitItems_iff hQ (fun v hv path => ih v hv item_schema path) path 0
    · rw [visit_of_not_admits hadmits, hL, reaches_of_not_admits hadmits]
  | object fields ih =>
    by_cases hadmits : schema.type.admits (.object fields) = some true
    · rw [reaches_object_iff hadmits, visit, hadmits]
      dsimp only
      rw [hQ.append, hown hadmits]
      exact and_congr Iff.rfl
        (visitFields_iff hQ (fun key v hv property path => ih key v hv property path) path)
    · rw [visit_of_not_admits hadmits, hL, reaches_of_not_admits hadmits]

/-- A visit returns exactly when it knows the type at every place. -/
theorem visit_isSome_iff (value : Value) (schema : Contract) (path : String) :
    (visit typeError ownErrors value schema path).isSome = true ↔
      ∀ w u, Reaches value schema w u → (u.type.admits w).isSome = true := by
  have hQ : Splits fun errors => errors.isSome = true := by
    refine ⟨rfl, fun a b => ?_⟩
    cases a <;> cases b <;> simp [appended]
  refine visit_iff hQ (fun w u path => ?_) value schema path
  unfold atPlace
  rcases u.type.admits w with _ | _ | _ <;> rfl

/-- A visit finds no error exactly when every place has its type and keeps its keywords. -/
theorem visit_eq_nil_iff {keeps : Value → Contract → Bool}
    (hkeeps : ∀ w u path, ownErrors w u path = [] ↔ keeps w u = true) (value : Value)
    (schema : Contract) (path : String) :
    visit typeError ownErrors value schema path = some [] ↔
      ∀ w u, Reaches value schema w u → u.type.admits w = some true ∧ keeps w u = true := by
  have hQ : Splits fun errors => errors = some [] := by
    refine ⟨rfl, fun a b => ?_⟩
    cases a <;> cases b <;> simp [appended]
  refine visit_iff hQ (fun w u path => ?_) value schema path
  unfold atPlace
  rcases u.type.admits w with _ | _ | _
  · simp
  · simp
  · simpa using hkeeps w u path

end reaches

/-! ## The keywords at one place -/

theorem errorUnless_eq_nil {check : Bool} {error : String} :
    errorUnless check error = [] ↔ check = true := by
  cases check <;> simp [errorUnless]

/-- The value keeps every keyword but `type` and `minimum`. -/
def keepsOwn (value : Value) (schema : Contract) : Bool :=
  schema.const.all (fun const => const.equals value) &&
    schema.enum.all (fun values => value ∈ values.map Value.string) &&
    match value with
    | .string s => schema.minLength.all (fun n => n ≤ s.length) &&
        schema.pattern.all (fun pattern => pattern.matches s)
    | .array items => schema.minItems.all fun n => n ≤ items.length
    | .object fields => schema.required.all (fun key => (sorted_map.get key fields).isSome) &&
        match schema.additional with
        | .forbidden => fields.all fun field => (sorted_map.get field.1 schema.properties).isSome
        | _ => true
    | _ => true

/-- An integer is not below its `minimum`. -/
def keepsMinimum (value : Value) (schema : Contract) : Bool :=
  match value with
  | .number (.int i) => schema.minimum.all fun n => n ≤ i
  | _ => true

theorem shell_ownErrors_eq_nil (repr : Value → String) (value : Value) (schema : Contract)
    (path : String) :
    schema_validation.ownErrors repr value schema path = [] ↔ keepsOwn value schema = true := by
  unfold schema_validation.ownErrors keepsOwn
  rw [List.append_eq_nil_iff, List.append_eq_nil_iff, Bool.and_eq_true, Bool.and_eq_true]
  refine and_congr (and_congr ?_ ?_) ?_
  · rcases schema.const with _ | const <;> simp [errorUnless_eq_nil]
  · rcases schema.enum with _ | values <;> simp [errorUnless_eq_nil]
  · cases value with
    | null | bool _ | number _ => simp
    | string s =>
      rcases schema.minLength with _ | n <;> rcases schema.pattern with _ | pattern <;>
        simp [errorUnless_eq_nil]
    | array items => rcases schema.minItems with _ | n <;> simp [errorUnless_eq_nil]
    | object fields =>
      rcases schema.additional with _ | _ | additional <;> simp [errorUnless_eq_nil]

theorem ownErrors_eq_nil (repr : Value → String) (value : Value) (schema : Contract)
    (path : String) :
    ownErrors repr value schema path = [] ↔
      (keepsOwn value schema && keepsMinimum value schema) = true := by
  unfold ownErrors keepsOwn keepsMinimum
  rw [List.append_eq_nil_iff, List.append_eq_nil_iff, Bool.and_eq_true, Bool.and_eq_true,
    Bool.and_eq_true, and_assoc (c := (_ : Bool) = true)]
  refine and_congr (and_congr ?_ ?_) ?_
  · rcases schema.const with _ | const <;> simp [errorUnless_eq_nil]
  · rcases schema.enum with _ | values <;> simp [errorUnless_eq_nil]
  · cases value with
    | null | bool _ => simp
    | number n =>
      rcases n with i | t
      · rcases schema.minimum with _ | n <;> simp [errorUnless_eq_nil]
      · simp
    | string s =>
      rcases schema.minLength with _ | n <;> rcases schema.pattern with _ | pattern <;>
        simp [errorUnless_eq_nil]
    | array items => rcases schema.minItems with _ | n <;> simp [errorUnless_eq_nil]
    | object fields =>
      rcases schema.additional with _ | _ | additional <;> simp [errorUnless_eq_nil]

/-! ## The two validators agree but for `minimum` -/

/-- The value keeps every keyword but `minimum`, at every place. -/
def KeepsOthers (value : Value) (schema : Contract) : Prop :=
  ∀ w u, Reaches value schema w u → u.type.admits w = some true ∧ keepsOwn w u = true

/-- No integer in the value is below the `minimum` of its place. -/
def KeepsMinimums (value : Value) (schema : Contract) : Prop :=
  ∀ w u, Reaches value schema w u → keepsMinimum w u = true

variable {repr : Value → String} {value : Value} {schema : Contract} {path : String}

theorem shell_accepts_iff :
    schema_validation.validate_instance repr value schema path = some [] ↔
      KeepsOthers value schema := by
  rw [shell_eq_visit]
  exact visit_eq_nil_iff (shell_ownErrors_eq_nil repr) value schema path

theorem accepts_iff : validate_instance repr value schema path = some [] ↔
    KeepsOthers value schema ∧ KeepsMinimums value schema := by
  rw [validate_instance, visit_eq_nil_iff (ownErrors_eq_nil repr)]
  constructor
  · intro h
    refine ⟨fun w u hr => ?_, fun w u hr => ?_⟩
    · obtain ⟨hadmits, hkeeps⟩ := h w u hr
      exact ⟨hadmits, (Bool.and_eq_true_iff.mp hkeeps).1⟩
    · exact (Bool.and_eq_true_iff.mp (h w u hr).2).2
  · rintro ⟨hothers, hminimums⟩ w u hr
    obtain ⟨hadmits, hkeeps⟩ := hothers w u hr
    exact ⟨hadmits, Bool.and_eq_true_iff.mpr ⟨hkeeps, hminimums w u hr⟩⟩

/-! ## The schemas under specs/ -/

/-- A check of a schema and of the schemas in it, to a depth. -/
def everyPart (check : Contract → Bool) : Nat → Contract → Bool
  | 0, schema => check schema && schema.items.isNone && schema.properties.isEmpty &&
    match schema.additional with
    | .each _ => false
    | _ => true
  | n + 1, schema => check schema && schema.items.all (everyPart check n) &&
    schema.properties.all (fun property => everyPart check n property.2) &&
    match schema.additional with
    | .each additional => everyPart check n additional
    | _ => true

section everyPart

variable {check : Contract → Bool} {n : Nat}

theorem check_of_everyPart (h : everyPart check n schema = true) : check schema = true := by
  cases n <;> simp only [everyPart, Bool.and_eq_true] at h <;> exact h.1.1.1

theorem everyPart_item {item_schema : Contract} (h : everyPart check n schema = true)
    (hitems : schema.items = some item_schema) : ∃ m, everyPart check m item_schema = true := by
  cases n with
  | zero => simp [everyPart, hitems] at h
  | succ n =>
    simp only [everyPart, Bool.and_eq_true, hitems, Option.all_some] at h
    exact ⟨n, h.1.1.2⟩

theorem everyPart_field {key : String} {property : Contract} (h : everyPart check n schema = true)
    (hproperty : schema.fieldSchema key = some property) : ∃ m, everyPart check m property = true := by
  unfold Contract.fieldSchema at hproperty
  rcases hkey : sorted_map.get key schema.properties with _ | found
  · rw [hkey] at hproperty
    rcases hadditional : schema.additional with _ | _ | additional <;>
      rw [hadditional] at hproperty <;> cases hproperty
    cases n with
    | zero => simp [everyPart, hadditional] at h
    | succ n =>
      simp only [everyPart, Bool.and_eq_true, hadditional] at h
      exact ⟨n, h.2⟩
  · rw [hkey] at hproperty
    cases hproperty
    have hmem := sorted_map.mem_of_get hkey
    cases n with
    | zero =>
      simp only [everyPart, Bool.and_eq_true, List.isEmpty_iff] at h
      rw [h.1.2] at hmem
      cases hmem
    | succ n =>
      simp only [everyPart, Bool.and_eq_true, List.all_eq_true] at h
      exact ⟨n, h.1.2 _ hmem⟩

/-- What holds of all the schemas in a schema holds at every place. -/
theorem check_of_reaches {w : Value} {u : Contract} (h : everyPart check n schema = true)
    (hr : Reaches value schema w u) : check u = true := by
  induction hr generalizing n with
  | here => exact check_of_everyPart h
  | item _ hitems _ _ ih =>
    obtain ⟨m, hm⟩ := everyPart_item h hitems
    exact ih hm
  | field _ _ hproperty _ ih =>
    obtain ⟨m, hm⟩ := everyPart_field h hproperty
    exact ih hm

end everyPart

/-- A schema without `minimum` has no integer below it. -/
theorem keepsMinimums_of_specs {name : String} (h : (name, schema) ∈ specs)
    (hframework : name ≠ "framework_risk_profile.schema.json")
    (hmanifest : name ≠ "runtime_manifest.schema.json") : KeepsMinimums value schema := by
  have hspecs : ∀ spec ∈ specs, spec.1 ≠ "framework_risk_profile.schema.json" →
      spec.1 ≠ "runtime_manifest.schema.json" →
      everyPart (fun schema => schema.minimum.isNone) 3 spec.2 = true := by
    decide +kernel
  intro w u hr
  have hnone := check_of_reaches (hspecs _ h hframework hmanifest) hr
  unfold keepsMinimum
  rw [Option.isNone_iff_eq_none.mp hnone]
  split <;> rfl

/-- Where both return, they agree unless the value breaks nothing but `minimum`; and only two
schemas have a `minimum`. -/
theorem validators_agree_iff {name : String} {errors shell_errors : List String}
    (hspec : (name, schema) ∈ specs)
    (hshell : schema_validation.validate_instance repr value schema path = some shell_errors)
    (htooling : validate_instance repr value schema path = some errors) :
    ((shell_errors = [] ↔ errors = []) ↔
        (KeepsOthers value schema → KeepsMinimums value schema)) ∧
      (name ≠ "framework_risk_profile.schema.json" → name ≠ "runtime_manifest.schema.json" →
        (shell_errors = [] ↔ errors = [])) := by
  have h1 : shell_errors = [] ↔ KeepsOthers value schema := by
    rw [← @shell_accepts_iff repr value schema path, hshell, Option.some.injEq]
  have h2 : errors = [] ↔ KeepsOthers value schema ∧ KeepsMinimums value schema := by
    rw [← @accepts_iff repr value schema path, htooling, Option.some.injEq]
  rw [h1, h2]
  refine ⟨⟨fun h hothers => (h.mp hothers).2, fun h => ⟨fun hothers => ⟨hothers, h hothers⟩,
    And.left⟩⟩, fun hframework hmanifest => ⟨fun hothers => ⟨hothers, ?_⟩, And.left⟩⟩
  exact keepsMinimums_of_specs hspec hframework hmanifest

/-- A manifest of a runtime, with the ports that it needs. -/
def manifest (ports : List Value) : Value := .object [
  ("runtime_id", .string "runtime-1"),
  ("display_name", .string "Runtime"),
  ("runtime_type", .string "llm_runtime"),
  ("supported_platforms", .array []),
  ("required_tools", .array []),
  ("required_ports", .array ports),
  ("storage_paths", .array []),
  ("network_policy", .string "localhost_only"),
  ("capabilities", .array []),
  ("permissions", .array []),
  ("audit_profile", .string "audit"),
  ("recovery_profile", .string "recovery"),
  ("trust_profile", .string "signed_local"),
  ("signed_manifest", .bool true)]

theorem validators_agree_port :
    (([] : List String) = [] ↔ ([] : List String) = []) ↔
      (KeepsOthers (manifest [.number (.int 8080)]) runtime_manifest_schema →
        KeepsMinimums (manifest [.number (.int 8080)]) runtime_manifest_schema) :=
  (@validators_agree_iff (fun _ => "") (manifest [.number (.int 8080)]) runtime_manifest_schema "$"
    "runtime_manifest.schema.json" [] [] (by simp [specs]) (by decide +kernel)
    (by decide +kernel)).1

/-- The shell accepts the port 0, and the tooling does not. -/
theorem validators_differ_on_port :
    ¬ ∀ spec ∈ specs, ∀ (value : Value) (shell_errors errors : List String),
      schema_validation.validate_instance (fun _ => "") value spec.2 "$" = some shell_errors →
      validate_instance (fun _ => "") value spec.2 "$" = some errors →
      (shell_errors = [] ↔ errors = []) := by
  intro h
  have hagree := h ("runtime_manifest.schema.json", runtime_manifest_schema) (by simp [specs])
    (manifest [.number (.int 0)]) [] ["$.required_ports[0]: minimum 1未満"] (by decide +kernel)
    (by decide +kernel)
  exact absurd (hagree.mp rfl) (by decide)

/-! ## Where the validators raise -/

/-- `TYPE_MAP` has the names of the type. -/
def knownType (schema : Contract) : Bool :=
  let names := ["object", "array", "string", "integer", "boolean", "null"]
  match schema.type with
  | .absent => true
  | .one name => name ∈ names
  | .any expected => expected.all fun name => name ∈ names

theorem admits_of_knownType (h : knownType schema = true) (value : Value) :
    (schema.type.admits value).isSome = true := by
  have hname : ∀ name ∈ ["object", "array", "string", "integer", "boolean", "null"],
      (type_matches value name).isSome = true := by
    intro name hname
    simp only [List.mem_cons, List.not_mem_nil, or_false] at hname
    rcases hname with rfl | rfl | rfl | rfl | rfl | rfl <;> rfl
  unfold knownType at h
  unfold ExpectedType.admits
  generalize schema.type = expected at h ⊢
  cases expected with
  | absent => rfl
  | one name => exact hname name (by simpa using h)
  | any names =>
    dsimp only at h ⊢
    induction names with
    | nil => rfl
    | cons name names ih =>
      rw [List.all_cons, Bool.and_eq_true] at h
      obtain ⟨found, hfound⟩ := Option.isSome_iff_exists.mp (hname name (by simpa using h.1))
      cases found with
      | true => simp [any_type_matches, hfound]
      | false => simpa [any_type_matches, hfound] using ih h.2

/-- The schema of the body of a response. -/
def bodySchema : Contract :=
  { type := .any ["object", "array", "string", "number", "boolean", "null"] }

theorem fieldSchema_body : ipc_response_schema.fieldSchema "body" = some bodySchema := rfl

/-- Every field of a response but the body has a known type, and no parts. -/
theorem knownType_of_response_field {key : String} {property : Contract} (hkey : key ≠ "body")
    (h : ipc_response_schema.fieldSchema key = some property) :
    everyPart knownType 0 property = true := by
  have hproperties : ∀ property ∈ ipc_response_schema.properties, property.1 ≠ "body" →
      everyPart knownType 0 property.2 = true := by
    decide +kernel
  unfold Contract.fieldSchema at h
  rcases hget : sorted_map.get key ipc_response_schema.properties with _ | found
  · rw [hget] at h
    cases h
  · rw [hget] at h
    cases h
    exact hproperties _ (sorted_map.mem_of_get hget) hkey

/-- A place of a record under specs/ has a known type, unless it is the body of a response. -/
theorem knownType_or_body {name : String} (h : (name, schema) ∈ specs) {w : Value} {u : Contract}
    (hr : Reaches value schema w u) : knownType u = true ∨
      name = "ipc_response.schema.json" ∧ u = bodySchema ∧
        ∃ fields, value = .object fields ∧ ("body", w) ∈ fields := by
  have hspecs : ∀ spec ∈ specs, spec.1 ≠ "ipc_response.schema.json" →
      everyPart knownType 3 spec.2 = true := by
    decide +kernel
  by_cases hname : name = "ipc_response.schema.json"
  · have hschema : schema = ipc_response_schema := by
      subst hname
      simpa [specs] using h
    subst hschema
    cases hr with
    | here => exact .inl rfl
    | item _ hitems => cases hitems
    | @field fields _ property key v _ _ _ hv hproperty hr =>
      by_cases hkey : key = "body"
      · subst hkey
        rw [fieldSchema_body] at hproperty
        cases hproperty
        cases hr with
        | here => exact .inr ⟨hname, rfl, fields, rfl, hv⟩
        | item _ hitems => cases hitems
        | field _ _ hproperty => cases hproperty
      · exact .inl (check_of_reaches (knownType_of_response_field hkey hproperty) hr)
  · exact .inl (check_of_reaches (hspecs _ h hname) hr)

/-- A value that is none of an object, an array and a string. -/
def isPlain : Value → Bool
  | .null | .bool _ | .number _ => true
  | _ => false

/-- Both validators return on the records under specs/, but for the body of a response. -/
theorem validators_return_iff {name : String} (h : (name, schema) ∈ specs) :
    ((schema_validation.validate_instance repr value schema path).isSome = true ∧
        (validate_instance repr value schema path).isSome = true) ↔
      ¬ (name = "ipc_response.schema.json" ∧ ∃ fields body, value = .object fields ∧
        ("body", body) ∈ fields ∧ isPlain body = true) := by
  rw [shell_eq_visit, validate_instance, visit_isSome_iff, visit_isSome_iff, and_self]
  constructor
  · rintro hall ⟨rfl, fields, body, rfl, hbody, hplain⟩
    have hschema : schema = ipc_response_schema := by simpa [specs] using h
    subst hschema
    have hbody := hall body bodySchema (.field rfl hbody fieldSchema_body (.here _ _))
    cases body with
    | null | bool _ | number _ =>
      simp [bodySchema, ExpectedType.admits, any_type_matches, type_matches] at hbody
    | string _ | array _ | object _ => cases hplain
  · intro hno w u hr
    rcases knownType_or_body h hr with hknown | ⟨hname, rfl, fields, hvalue, hbody⟩
    · exact admits_of_knownType hknown w
    · have hplain : isPlain w = false := by
        by_contra hplain
        exact hno ⟨hname, fields, w, hvalue, hbody, by simpa using hplain⟩
      cases w <;> first | rfl | cases hplain

/-- A response of the broker that accepts an operation, with its body. -/
def acceptedResponse (operation : String) (body : Value) (shutdown_requested : Bool) : Value :=
  .object [
    ("request_id", .string "request-1"),
    ("operation", .string operation),
    ("status", .string "accepted"),
    ("evidence_source", .string "LIVE_RUNTIME"),
    ("audit_event_id", .string "broker-audit-1"),
    ("error", .null),
    ("health", .null),
    ("body", body),
    ("shutdown_requested", .bool shutdown_requested)]

theorem validators_return_projection :
    let response := acceptedResponse "content_projection" (.object []) false
    (schema_validation.validate_instance (fun _ => "") response ipc_response_schema "$").isSome =
        true ∧
      (validate_instance (fun _ => "") response ipc_response_schema "$").isSome = true := by
  have hspec : ("ipc_response.schema.json", ipc_response_schema) ∈ specs := by simp [specs]
  refine (validators_return_iff hspec).mpr ?_
  rintro ⟨-, fields, body, hfields, hbody, hplain⟩
  obtain rfl := Value.object.inj hfields
  simp only [List.mem_cons, Prod.mk.injEq, List.not_mem_nil, or_false] at hbody
  obtain rfl : body = .object [] := by simpa using hbody
  cases hplain

/-- Both validators raise on the response to a shutdown, whose body is null. -/
theorem validators_raise_on_null_body :
    ¬ ∀ spec ∈ specs, ∀ value : Value,
      (schema_validation.validate_instance (fun _ => "") value spec.2 "$").isSome = true ∧
        (validate_instance (fun _ => "") value spec.2 "$").isSome = true := by
  intro h
  obtain ⟨hshell, -⟩ := h ("ipc_response.schema.json", ipc_response_schema) (by simp [specs])
    (acceptedResponse "shutdown" .null true)
  exact absurd hshell (by decide +kernel)

end check_schemas
