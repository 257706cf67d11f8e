-- The values that the Python modules of the shell compute with: how they compare, and how
-- `json.loads` reads them. A dict keeps the order of its keys, and a float is known by its repr.
-- These are the values that are JSON: NaN, Infinity, surrogates that stand alone and the limit
-- for the digits of an integer are left to the PythonJson module, which has `json.loads` on any
-- text.
import GuiShell.Dict
import GuiShell.Json.Parts
import GuiShell.Json.Trailing

open json

namespace shell_core

/-- `bool` of a value. -/
def truthy : Value → Bool
  | .null => false
  | .bool b => b
  | .number n => !(["0".toList, "0.0".toList, "-0.0".toList].contains n.text)
  | .string s => s ≠ ""
  | .array items => items ≠ []
  | .object fields => fields ≠ []

/-- `get` of a dict, with the default None. -/
def getOrNone (v : Value) (field : String) : Value := (v.get field).getD .null

/-- A value that can be the key of a dict or stand in a set. -/
def hashable : Value → Bool
  | .array _ | .object _ => false
  | _ => true

/-- What the interpreter knows of floats. -/
structure Floats where
  /-- `repr` of the double nearest to the text of a number, if it is finite. -/
  repr : FloatText → Option FloatText
  /-- The integer that a float is equal to, if there is one. -/
  integer : FloatText → Option Int

variable (floats : Floats)

/-! ## Equality -/

/-- A number, where True is 1 and False is 0. -/
def asNumber : Value → Option Number
  | .number n => some n
  | .bool b => some (.int (if b then 1 else 0))
  | _ => none

def isZero (t : FloatText) : Bool := ["0.0".toList, "-0.0".toList].contains t.chars

def eqNumber : Number → Number → Bool
  | .int i, .int j => i = j
  | .float s, .float t => s = t || (isZero s && isZero t)
  | .int i, .float t | .float t, .int i => floats.integer t = some i

mutual
/-- `==`. Dicts are equal whatever the order of their keys. -/
def eq : Value → Value → Bool
  | .null, .null => true
  | .string s, .string t => s = t
  | .array items, .array items' => eqItems items items'
  | .object fields, .object fields' => fields.length = fields'.length && eqFields fields fields'
  | v, w =>
    match asNumber v, asNumber w with
    | some a, some b => eqNumber floats a b
    | _, _ => false
def eqItems : List Value → List Value → Bool
  | [], [] => true
  | v :: items, w :: items' => eq v w && eqItems items items'
  | _, _ => false
def eqFields : List (String × Value) → List (String × Value) → Bool
  | [], _ => true
  | (k, v) :: fields, fields' =>
    (match sorted_map.get k fields' with
      | some w => eq v w
      | none => false) && eqFields fields fields'
end

@[simp] theorem eq_string_iff {v : Value} {s : String} :
    eq floats v (.string s) = true ↔ v = .string s := by
  cases v <;> simp [eq, asNumber]

@[simp] theorem eq_null_iff {v : Value} : eq floats v .null = true ↔ v = .null := by
  cases v <;> simp [eq, asNumber]

/-! ## Reading -/

/-- `-0` is an integer for Python. -/
def readNumber : Number → Option Number
  | .int i => some (.int i)
  | .float t => if t.chars = "-0".toList then some (.int 0) else (floats.repr t).map .float

mutual
/-- The value that a JSON value is read as. Of two fields with one key the later one stays, in
the place of the first one. -/
def readAs : Value → Option Value
  | .number n => (readNumber floats n).map .number
  | .array items => (readAsItems items).map .array
  | .object fields => (readAsFields fields).map fun fields => .object (dict.ofItems fields)
  | v => some v
def readAsItems : List Value → Option (List Value)
  | [] => some []
  | v :: items => do
    let v ← readAs v
    let items ← readAsItems items
    some (v :: items)
def readAsFields : List (String × Value) → Option (List (String × Value))
  | [] => some []
  | (k, v) :: fields => do
    let v ← readAs v
    let fields ← readAsFields fields
    some ((k, v) :: fields)
end

/-- `json.loads` of a text that is JSON, or none for a JSONDecodeError. -/
def loads (text : List Char) : Option Value := (parse (.ofList text)).bind (readAs floats)

/-- A value as the interpreter holds it: a dict has each key once, and a float is its repr. -/
structure Held (v : Value) : Prop where
  keys : ∀ keys ∈ v.keyLists, keys.Nodup
  numbers : ∀ n ∈ v.numbers, readNumber floats n = some n

variable {floats}

theorem readAsItems_eq_self {items : List Value} (h : ∀ v ∈ items, readAs floats v = some v) :
    readAsItems floats items = some items := by
  induction items with
  | nil => rfl
  | cons v items ih =>
    rw [readAsItems, h v List.mem_cons_self, ih fun w hw => h w (List.mem_cons_of_mem _ hw)]
    rfl

theorem readAsFields_eq_self {fields : List (String × Value)}
    (h : ∀ e ∈ fields, readAs floats e.2 = some e.2) :
    readAsFields floats fields = some fields := by
  induction fields with
  | nil => rfl
  | cons e fields ih =>
    obtain ⟨k, v⟩ := e
    rw [readAsFields, h (k, v) List.mem_cons_self,
      ih fun w hw => h w (List.mem_cons_of_mem _ hw)]
    rfl

theorem Held.readAs_eq {v : Value} (h : Held floats v) : readAs floats v = some v := by
  obtain ⟨hkeys, hnumbers⟩ := h
  induction v using Value.induct with
  | null | bool _ | string _ => rfl
  | number n =>
    rw [readAs, hnumbers n (by simp [Value.numbers])]
    rfl
  | array items ih =>
    rw [readAs, readAsItems_eq_self]
    · rfl
    · intro v hv
      apply ih v hv
      · intro keys hk
        exact hkeys keys (Value.mem_keyListsOfItems.mpr ⟨v, hv, hk⟩)
      · intro n hn
        exact hnumbers n (Value.mem_numbersOfItems.mpr ⟨v, hv, hn⟩)
  | object fields ih =>
    have hfields : readAsFields floats fields = some fields := by
      apply readAsFields_eq_self
      intro e he
      apply ih e.1 e.2 he
      · intro keys hk
        exact hkeys keys (List.mem_cons_of_mem _ (Value.mem_keyListsOfFields.mpr ⟨e, he, hk⟩))
      · intro n hn
        exact hnumbers n (Value.mem_numbersOfFields.mpr ⟨e, he, hn⟩)
    rw [readAs, hfields, Option.map_some, dict.ofItems_of_nodup (hkeys _ List.mem_cons_self)]

/-- Sorting takes no number in. -/
theorem mem_numbers_of_sortKeys {v : Value} {n : Number} (h : n ∈ v.sortKeys.numbers) :
    n ∈ v.numbers := by
  induction v using Value.induct with
  | null | bool _ | number _ | string _ => exact h
  | array items ih =>
    rw [Value.sortKeys, Value.numbers, Value.sortItems_eq, Value.mem_numbersOfItems] at h
    obtain ⟨w, hw, hn⟩ := h
    obtain ⟨v, hv, rfl⟩ := List.mem_map.mp hw
    exact Value.mem_numbersOfItems.mpr ⟨v, hv, ih v hv hn⟩
  | object fields ih =>
    rw [Value.sortKeys, Value.numbers, Value.sortFields_eq, Value.mem_numbersOfFields] at h
    obtain ⟨e, he, hn⟩ := h
    obtain ⟨e', he', rfl⟩ := List.mem_map.mp (sorted_map.mem_of_mem_ofList he)
    exact Value.mem_numbersOfFields.mpr ⟨e', he', ih e'.1 e'.2 he' hn⟩

theorem sorted_sortKeys (v : Value) : v.sortKeys.Sorted := by
  induction v using Value.induct with
  | null | bool _ | number _ | string _ => exact trivial
  | array items ih =>
    rw [Value.sortKeys, Value.Sorted, Value.sortItems_eq, Value.sortedItems_iff]
    intro w hw
    obtain ⟨v, hv, rfl⟩ := List.mem_map.mp hw
    exact ih v hv
  | object fields ih =>
    rw [Value.sortKeys, Value.Sorted, Value.sortFields_eq, Value.sortedFields_iff]
    refine ⟨sorted_map.sorted_ofList _, fun k w hw => ?_⟩
    obtain ⟨e, he, heq⟩ := List.mem_map.mp (sorted_map.mem_of_mem_ofList hw)
    rw [Prod.mk.injEq] at heq
    rw [← heq.2]
    exact ih e.1 e.2 he

theorem Held.sortKeys {v : Value} (h : Held floats v) : Held floats v.sortKeys where
  keys := (sorted_sortKeys v).nodup_keys
  numbers n hn := h.numbers n (mem_numbers_of_sortKeys hn)

/-- What is written with sorted keys is read as the sorted value, whatever spaces stand around
it. -/
theorem Held.loads_print {v : Value} (h : Held floats v) {before after : List Char}
    (hbefore : before.all isSpace = true) (hafter : after.all isSpace = true) (L : Layout)
    (E : Escaper) (d : Nat) :
    loads floats (before ++ (print L E d v.sortKeys ++ after)) = some v.sortKeys := by
  unfold loads
  rw [parse_spaces hbefore hafter, Option.bind_some, h.sortKeys.readAs_eq]

/-! ## Sorted dicts -/

theorem eqItems_map {items : List Value} {f : Value → Value}
    (h : ∀ v ∈ items, eq floats (f v) v = true) : eqItems floats (items.map f) items = true := by
  induction items with
  | nil => rfl
  | cons v items ih =>
    rw [List.map_cons, eqItems, h v List.mem_cons_self,
      ih fun w hw => h w (List.mem_cons_of_mem _ hw)]
    rfl

theorem eqFields_of_forall {fields fields' : List (String × Value)}
    (h : ∀ e ∈ fields, ∃ w, sorted_map.get e.1 fields' = some w ∧ eq floats e.2 w = true) :
    eqFields floats fields fields' = true := by
  induction fields with
  | nil => rfl
  | cons e fields ih =>
    obtain ⟨k, v⟩ := e
    obtain ⟨w, hw, heq⟩ := h (k, v) List.mem_cons_self
    rw [eqFields, ih fun x hx => h x (List.mem_cons_of_mem _ hx), hw]
    simpa using heq

/-- A value is equal to its sorting. -/
theorem eq_sortKeys {v : Value} (h : ∀ keys ∈ v.keyLists, keys.Nodup) :
    eq floats v.sortKeys v = true := by
  induction v using Value.induct with
  | null => rfl
  | bool b => simp [Value.sortKeys, eq, asNumber, eqNumber]
  | number n => cases n <;> simp [Value.sortKeys, eq, asNumber, eqNumber]
  | string s => simp [Value.sortKeys]
  | array items ih =>
    rw [Value.sortKeys, Value.sortItems_eq, eq]
    apply eqItems_map
    intro v hv
    exact ih v hv fun keys hk => h keys (Value.mem_keyListsOfItems.mpr ⟨v, hv, hk⟩)
  | object fields ih =>
    have hnodup : (fields.map Prod.fst).Nodup := h _ List.mem_cons_self
    have hsorted : ((Value.sortFields fields).map Prod.fst).Nodup := by
      rw [Value.sortFields_eq, List.map_map]
      exact hnodup
    have hlength : (sorted_map.ofList (Value.sortFields fields)).length = fields.length := by
      rw [(sorted_map.perm_ofList hsorted).length_eq, Value.sortFields_eq, List.length_map]
    rw [Value.sortKeys, eq, hlength, decide_eq_true rfl, Bool.true_and]
    apply eqFields_of_forall
    intro e he
    have hmem := sorted_map.mem_of_mem_ofList he
    rw [Value.sortFields_eq] at hmem
    obtain ⟨e', he', rfl⟩ := List.mem_map.mp hmem
    refine ⟨e'.2, sorted_map.get_of_mem hnodup he', ?_⟩
    exact ih e'.1 e'.2 he' fun keys hk =>
      h keys (List.mem_cons_of_mem _ (Value.mem_keyListsOfFields.mpr ⟨e', he', hk⟩))

end shell_core
