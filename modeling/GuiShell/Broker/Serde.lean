-- The parts of serde_json that the broker reads with: values from a text, and the records
-- of a derived `Deserialize`.
import GuiShell.Json.Parts

open json

namespace serde_json

/-- A value of the crate: its objects are maps sorted by key. -/
abbrev SerdeValue := { v : json.Value // v.Sorted }

/-- `to_string` of a value or a record: no spaces, and nothing escaped without need. -/
def to_string (v : json.Value) : String := .ofList (print compact raw 0 v)

/-- `to_string_pretty`. -/
def to_string_pretty (v : json.Value) : String := .ofList (print pretty raw 0 v)

theorem to_string_inj {v w : json.Value} (h : to_string v = to_string w) : v = w :=
  print_inj _ _ (String.ofList_injective h)

@[simp] theorem parse_to_string (v : json.Value) : parse (to_string v) = some v := parse_print _ _ _ _

/-! ## Values from a text -/

/-- The integers that a number keeps exactly, those of `i64` and `u64`. -/
def keepsInt (i : Int) : Bool :=
  -9223372036854775808 ≤ i && i < 18446744073709551616

section values

-- How the crate prints the double that a number text names. There is none for a text
-- beyond the range of a double.
variable (f64 : List Char → Option FloatText)

def numberOf : Number → Option Number
  | .int i => if keepsInt i then some (.int i) else (f64 (intText i)).map .float
  | .float t => (f64 t.chars).map .float

mutual
def valueOf : json.Value → Option json.Value
  | .number n => (numberOf f64 n).map .number
  | .array items => (itemsOf items).map .array
  | .object fields => (fieldsOf fields).map fun fields => .object (sorted_map.ofList fields)
  | v => some v
def itemsOf : List json.Value → Option (List json.Value)
  | [] => some []
  | v :: items => do
    let v ← valueOf v
    let items ← itemsOf items
    some (v :: items)
def fieldsOf : List (String × json.Value) → Option (List (String × json.Value))
  | [] => some []
  | (k, v) :: fields => do
    let v ← valueOf v
    let fields ← fieldsOf fields
    some ((k, v) :: fields)
end

/-- A value read as an `Option`, where `null` is none. -/
def optionOf : json.Value → Option json.Value
  | .null => none
  | v => some v

@[simp] theorem getD_optionOf (v : json.Value) : (optionOf v).getD .null = v := by
  cases v <;> rfl

/-- The deepest nesting that the reader of a text takes. -/
def MAX_DEPTH : Nat := 127

variable {f64}

theorem mem_itemsOf {items items' : List json.Value} (h : itemsOf f64 items = some items')
    {w : json.Value} (hw : w ∈ items') : ∃ v ∈ items, valueOf f64 v = some w := by
  induction items generalizing items' with
  | nil =>
    cases h
    simp at hw
  | cons v items ih =>
    simp only [itemsOf, Option.bind_eq_bind, Option.bind_eq_some_iff, Option.some.injEq] at h
    obtain ⟨v', hv, items', hi, rfl⟩ := h
    rcases List.mem_cons.mp hw with rfl | hw
    · exact ⟨v, List.mem_cons_self, hv⟩
    · obtain ⟨u, hu, huw⟩ := ih hi hw
      exact ⟨u, List.mem_cons_of_mem _ hu, huw⟩

theorem mem_fieldsOf {fields fields' : List (String × json.Value)}
    (h : fieldsOf f64 fields = some fields') {k : String} {w : json.Value}
    (hw : (k, w) ∈ fields') : ∃ v, (k, v) ∈ fields ∧ valueOf f64 v = some w := by
  induction fields generalizing fields' with
  | nil =>
    cases h
    simp at hw
  | cons e fields ih =>
    obtain ⟨l, v⟩ := e
    simp only [fieldsOf, Option.bind_eq_bind, Option.bind_eq_some_iff, Option.some.injEq] at h
    obtain ⟨v', hv, fields', hf, rfl⟩ := h
    rcases List.mem_cons.mp hw with he | hw
    · cases he
      exact ⟨v, List.mem_cons_self, hv⟩
    · obtain ⟨u, hu, huw⟩ := ih hf hw
      exact ⟨u, List.mem_cons_of_mem _ hu, huw⟩

/-- What the crate reads is a value of the crate. -/
theorem sorted_valueOf {v w : json.Value} (h : valueOf f64 v = some w) : w.Sorted := by
  induction v using Value.induct generalizing w with
  | null | bool _ | string _ =>
    cases h
    trivial
  | number n =>
    simp only [valueOf, Option.map_eq_some_iff] at h
    obtain ⟨_, _, rfl⟩ := h
    trivial
  | array items ih =>
    simp only [valueOf, Option.map_eq_some_iff] at h
    obtain ⟨items', hi, rfl⟩ := h
    refine (Value.sortedItems_iff _).mpr fun w hw => ?_
    obtain ⟨v, hv, hvw⟩ := mem_itemsOf hi hw
    exact ih v hv hvw
  | object fields ih =>
    simp only [valueOf, Option.map_eq_some_iff] at h
    obtain ⟨fields', hf, rfl⟩ := h
    refine ⟨sorted_map.sorted_ofList _, (Value.sortedFields_iff _).mpr fun k w hw => ?_⟩
    have hw : (k, w) ∈ fields'.reverse := by
      have := ((sorted_map.sorted_ofList fields').get_iff k w).mpr hw
      rw [sorted_map.get_ofList] at this
      exact sorted_map.mem_of_get this
    obtain ⟨v, hv, hvw⟩ := mem_fieldsOf hf (List.mem_reverse.mp hw)
    exact ih k v hv hvw

/-- A value with numbers that read as themselves reads as its sorting. -/
theorem valueOf_eq_sortKeys {v : json.Value} (h : ∀ n ∈ v.numbers, numberOf f64 n = some n) :
    valueOf f64 v = some v.sortKeys := by
  induction v using Value.induct with
  | null | bool _ | string _ => rfl
  | number n =>
    rw [valueOf, h n (by simp [Value.numbers])]
    rfl
  | array items ih =>
    have hi : itemsOf f64 items = some (items.map Value.sortKeys) := by
      have hv : ∀ v ∈ items, valueOf f64 v = some v.sortKeys := fun v hv =>
        ih v hv fun n hn => h n (Value.mem_numbersOfItems.mpr ⟨v, hv, hn⟩)
      clear ih h
      induction items with
      | nil => rfl
      | cons v items hind =>
        rw [itemsOf, hv v List.mem_cons_self, hind fun w hw => hv w (List.mem_cons_of_mem _ hw)]
        rfl
    rw [valueOf, hi, Value.sortKeys, Value.sortItems_eq]
    rfl
  | object fields ih =>
    have hf : fieldsOf f64 fields = some (fields.map fun e => (e.1, e.2.sortKeys)) := by
      have hv : ∀ e ∈ fields, valueOf f64 e.2 = some e.2.sortKeys := fun e he =>
        ih e.1 e.2 he fun n hn => h n (Value.mem_numbersOfFields.mpr ⟨e, he, hn⟩)
      clear ih h
      induction fields with
      | nil => rfl
      | cons e fields hind =>
        obtain ⟨k, v⟩ := e
        rw [fieldsOf, hv (k, v) List.mem_cons_self,
          hind fun w hw => hv w (List.mem_cons_of_mem _ hw)]
        rfl
    rw [valueOf, hf, Value.sortKeys, Value.sortFields_eq]
    rfl

theorem itemsOf_eq_self {items : List json.Value} :
    itemsOf f64 items = some items ↔ ∀ v ∈ items, valueOf f64 v = some v := by
  induction items with
  | nil => simp [itemsOf]
  | cons v items ih =>
    simp only [itemsOf, Option.bind_eq_bind, Option.bind_eq_some_iff, Option.some.injEq,
      List.cons.injEq, List.mem_cons, forall_eq_or_imp, ← ih]
    constructor
    · rintro ⟨_, hv, _, hi, rfl, rfl⟩
      exact ⟨hv, hi⟩
    · exact fun ⟨hv, hi⟩ => ⟨v, hv, items, hi, rfl, rfl⟩

theorem fieldsOf_eq_self {fields : List (String × json.Value)} :
    fieldsOf f64 fields = some fields ↔ ∀ e ∈ fields, valueOf f64 e.2 = some e.2 := by
  induction fields with
  | nil => simp [fieldsOf]
  | cons e fields ih =>
    obtain ⟨k, v⟩ := e
    simp only [fieldsOf, Option.bind_eq_bind, Option.bind_eq_some_iff, Option.some.injEq,
      List.cons.injEq, List.mem_cons, forall_eq_or_imp, Prod.mk.injEq, true_and, ← ih]
    constructor
    · rintro ⟨_, hv, _, hf, rfl, rfl⟩
      exact ⟨hv, hf⟩
    · exact fun ⟨hv, hf⟩ => ⟨v, hv, fields, hf, rfl, rfl⟩

theorem fieldsOf_keys {fields fields' : List (String × json.Value)}
    (h : fieldsOf f64 fields = some fields') : fields'.map Prod.fst = fields.map Prod.fst := by
  induction fields generalizing fields' with
  | nil =>
    cases h
    rfl
  | cons e fields ih =>
    obtain ⟨k, v⟩ := e
    simp only [fieldsOf, Option.bind_eq_bind, Option.bind_eq_some_iff, Option.some.injEq] at h
    obtain ⟨v', _, fields', hf, rfl⟩ := h
    simp [ih hf]

/-- The fields of a sorted object are read in their places. -/
theorem sorted_fieldsOf {fields fields' : List (String × json.Value)}
    (hs : sorted_map.Sorted fields) (h : fieldsOf f64 fields = some fields') :
    sorted_map.Sorted fields' := by
  have hp : (fields'.map Prod.fst).Pairwise (· < ·) := by
    rw [fieldsOf_keys h]
    exact List.pairwise_map.mpr hs
  exact List.pairwise_map.mp hp

/-- A sorted value reads as itself when each of its numbers does. -/
theorem valueOf_eq_self_iff {v : json.Value} (hs : v.Sorted) :
    valueOf f64 v = some v ↔ ∀ n ∈ v.numbers, numberOf f64 n = some n := by
  induction v using Value.induct with
  | null | bool _ | string _ => simp [valueOf, Value.numbers]
  | number n => simp [valueOf, Value.numbers]
  | array items ih =>
    have hs := (Value.sortedItems_iff _).mp hs
    have hv : valueOf f64 (.array items) = some (.array items) ↔
        itemsOf f64 items = some items := by
      simp [valueOf]
    rw [hv, itemsOf_eq_self]
    constructor
    · intro h n hn
      obtain ⟨v, hv, hn⟩ := Value.mem_numbersOfItems.mp hn
      exact (ih v hv (hs v hv)).mp (h v hv) n hn
    · exact fun h v hv => (ih v hv (hs v hv)).mpr fun n hn =>
        h n (Value.mem_numbersOfItems.mpr ⟨v, hv, hn⟩)
  | object fields ih =>
    obtain ⟨hsf, hsv⟩ := hs
    have hsv := (Value.sortedFields_iff _).mp hsv
    have hv : valueOf f64 (.object fields) = some (.object fields) ↔
        fieldsOf f64 fields = some fields := by
      simp only [valueOf, Option.map_eq_some_iff, Value.object.injEq]
      constructor
      · rintro ⟨fields', hf, hl⟩
        rw [(sorted_fieldsOf hsf hf).ofList_eq] at hl
        exact hl ▸ hf
      · exact fun h => ⟨fields, h, hsf.ofList_eq⟩
    rw [hv, fieldsOf_eq_self]
    constructor
    · intro h n hn
      obtain ⟨e, he, hn⟩ := Value.mem_numbersOfFields.mp hn
      exact (ih e.1 e.2 he (hsv e.1 e.2 he)).mp (h e he) n hn
    · exact fun h e he => (ih e.1 e.2 he (hsv e.1 e.2 he)).mpr fun n hn =>
        h n (Value.mem_numbersOfFields.mpr ⟨e, he, hn⟩)

end values

/-! ## Records -/

/-- The field of a record, none when it is missing. Two fields of one name are an error. -/
def recordField (fields : List (String × json.Value)) (name : String) :
    Option (Option json.Value) :=
  match fields.filter fun e => e.1 = name with
  | [] => some none
  | [e] => some (some e.2)
  | _ => none

/-- The fields of a derived record, by name from an object or by place from an array.
Other fields of an object are passed over. -/
def recordFields (names : List String) : json.Value → Option (List (Option json.Value))
  | .object fields => names.mapM (recordField fields)
  | .array items => if items.length = names.length then some (items.map some) else none
  | _ => none

def asString : Option json.Value → Option String
  | some (.string s) => some s
  | _ => none

/-- A field of type `Option<String>`: a missing field and `null` are none. -/
def asOptionString : Option json.Value → Option (Option String)
  | none | some .null => some none
  | some (.string s) => some (some s)
  | _ => none

end serde_json
