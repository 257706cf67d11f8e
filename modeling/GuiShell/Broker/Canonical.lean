-- The canonical texts that the Rust broker hashes: `canonical_json` of authority.rs, and
-- the payload hash of protocol.rs. Both write a value with its keys in order, so values
-- with sorted objects are equal when their texts are.
import GuiShell.AuditHash
import GuiShell.Broker.Serde
import GuiShell.Json.KeyOrder

open json audit_hash serde_json

namespace authority

variable (sha256 : Bytes → Bytes)

/-! ## The canonical text -/

/-- Texts with a comma between them. -/
def join : List (List Char) → List Char
  | [] => []
  | text :: texts => text ++ texts.flatMap fun t => ',' :: t

mutual
def canonical_json : Value → List Char
  | .null => "null".toList
  | .bool value => (toString value).toList
  | .number value => value.text
  | .string value => printString raw value
  | .array items => '[' :: (join (canonicalItems items) ++ [']'])
  | .object object =>
    '{' :: (join ((sorted_map.ofList (canonicalFields object)).map fun e =>
      printString raw e.1 ++ ':' :: e.2) ++ ['}'])
def canonicalItems : List Value → List (List Char)
  | [] => []
  | value :: items => canonical_json value :: canonicalItems items
def canonicalFields : List (String × Value) → List (String × List Char)
  | [] => []
  | (key, value) :: fields => (key, canonical_json value) :: canonicalFields fields
end

def canonical_hash (payload : Value) : String :=
  sha256_tagged sha256 (utf8.encode (.ofList (canonical_json payload)))

/-! ### The text is the print of the sorted value -/

theorem canonicalItems_eq (items : List Value) : canonicalItems items = items.map canonical_json := by
  induction items with
  | nil => rfl
  | cons v items ih => simp [canonicalItems, ih]

theorem canonicalFields_eq (fields : List (String × Value)) :
    canonicalFields fields = fields.map fun e => (e.1, canonical_json e.2) := by
  induction fields with
  | nil => rfl
  | cons e fields ih => simp [canonicalFields, ih]

theorem printItems_compact (d : Nat) (items : List Value) :
    printItems compact raw d items = items.flatMap fun v => ',' :: print compact raw d v := by
  induction items with
  | nil => rfl
  | cons v items ih => simp [printItems, ih]

theorem printFields_compact (d : Nat) (fields : List (String × Value)) :
    printFields compact raw d fields =
      fields.flatMap fun e => ',' :: (printString raw e.1 ++ ':' :: print compact raw d e.2) := by
  induction fields with
  | nil => rfl
  | cons e fields ih => simp [printFields, ih]

theorem print_array (d : Nat) (items : List Value) :
    print compact raw d (.array items) =
      '[' :: (join (items.map (print compact raw (d + 1))) ++ [']']) := by
  cases items with
  | nil => simp [print, join]
  | cons v items =>
    rw [print, printItems_compact, List.map_cons, join, List.flatMap_map]
    simp

theorem print_object (d : Nat) (fields : List (String × Value)) :
    print compact raw d (.object fields) =
      '{' :: (join (fields.map fun e => printString raw e.1 ++ ':' :: print compact raw (d + 1) e.2) ++
        ['}']) := by
  cases fields with
  | nil => simp [print, join]
  | cons e fields =>
    rw [print, printFields_compact, List.map_cons, join, List.flatMap_map]
    simp

theorem canonical_json_eq_print (v : Value) (d : Nat) :
    canonical_json v = print compact raw d v.sortKeys := by
  induction v using Value.induct generalizing d with
  | null => rfl
  | bool b => cases b <;> rfl
  | number n => rfl
  | string s => rfl
  | array items ih =>
    rw [canonical_json, Value.sortKeys, print_array, canonicalItems_eq, Value.sortItems_eq,
      List.map_map]
    congr 3
    exact List.map_congr_left fun v hv => ih v hv _
  | object fields ih =>
    have hf : canonicalFields fields = (Value.sortFields fields).map
        fun e => (e.1, print compact raw (d + 1) e.2) := by
      rw [canonicalFields_eq, Value.sortFields_eq, List.map_map]
      refine List.map_congr_left fun e he => ?_
      simp only [Function.comp_apply]
      rw [ih e.1 e.2 he]
    rw [canonical_json, Value.sortKeys, print_object, hf, sorted_map.ofList_map, List.map_map]
    rfl

/-- The canonical text of a sorted value is what serde_json writes. -/
theorem canonical_json_of_sorted {v : Value} (h : v.Sorted) :
    String.ofList (canonical_json v) = to_string v := by
  rw [canonical_json_eq_print v 0, h.sortKeys_eq, to_string]

variable {sha256}

/-- Without collisions of the digest, the canonical hash gives the sorted value back. -/
theorem sortKeys_of_canonical_hash (hsha : Function.Injective sha256) {v w : Value}
    (h : canonical_hash sha256 v = canonical_hash sha256 w) : v.sortKeys = w.sortKeys := by
  have htext := utf8.encode_inj (sha256_tagged_inj hsha h)
  rw [canonical_json_eq_print v 0, canonical_json_eq_print w 0] at htext
  exact print_inj _ _ (String.ofList_injective htext)

theorem canonical_hash_inj (hsha : Function.Injective sha256) {v w : Value} (hv : v.Sorted)
    (hw : w.Sorted) (h : canonical_hash sha256 v = canonical_hash sha256 w) : v = w := by
  rw [← hv.sortKeys_eq, ← hw.sortKeys_eq]
  exact sortKeys_of_canonical_hash hsha h

end authority

namespace protocol

/-- The payload hash of a request, that of `null` when there is no payload. -/
def canonical_payload_hash (sha256 : Bytes → Bytes) (payload : Option Value) : String :=
  sha256_tagged sha256 (utf8.encode (to_string (payload.getD .null)))

end protocol

namespace authority

/-- Two texts are equal exactly when the values are, up to the order of keys. -/
theorem canonical_json_eq_iff {v w : Value} (hv : v.Distinct) (hw : w.Distinct) :
    canonical_json v = canonical_json w ↔ UpToOrder v w := by
  rw [← sortKeys_eq_iff hv hw, canonical_json_eq_print v 0, canonical_json_eq_print w 0]
  constructor
  · exact fun h => print_inj _ _ h
  · intro h
    rw [h]

/-- The payload of a request is hashed as its canonical text. -/
theorem canonical_payload_hash_eq (sha256 : Bytes → Bytes) (payload : Option SerdeValue) :
    protocol.canonical_payload_hash sha256 (payload.map Subtype.val) =
      canonical_hash sha256 ((payload.map Subtype.val).getD .null) := by
  have hsorted : ((payload.map Subtype.val).getD .null).Sorted := by
    cases payload with
    | none => trivial
    | some v => exact v.property
  rw [protocol.canonical_payload_hash, canonical_hash, canonical_json_of_sorted hsorted]

/-- The canonical text tells values apart that differ in more than the order of keys, and no
others; and the other encoder of the broker writes the same bytes. -/
theorem canonical_encoders :
    (∀ v w : DistinctValue, canonical_json v.val = canonical_json w.val ↔ UpToOrder v.val w.val) ∧
      (∀ v : SerdeValue, utf8.encode (.ofList (canonical_json v.val)) =
        utf8.encode (to_string v.val)) ∧
      ∀ (sha256 : Bytes → Bytes) (payload : Option SerdeValue),
        protocol.canonical_payload_hash sha256 (payload.map Subtype.val) =
          canonical_hash sha256 ((payload.map Subtype.val).getD .null) := by
  refine ⟨fun v w => canonical_json_eq_iff v.property w.property, fun v => ?_,
    canonical_payload_hash_eq⟩
  rw [canonical_json_of_sorted v.property]

example : UpToOrder (.object [("b", .null), ("a", .array [])])
    (.object [("a", .array []), ("b", .null)]) :=
  (canonical_json_eq_iff (by decide) (by decide)).mp (by decide)

end authority
