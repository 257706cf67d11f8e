-- The payload hash of the Dart client against the one of the broker. Both write the
-- payload with sorted keys and the same escapes, but the client sorts by UTF-16 code units
-- and the broker by code points.
import GuiShell.Broker.Canonical
import GuiShell.Desktop.Sha256

open json serde_json

namespace client_parity

/-! ## The two orders -/

/-- In every object of the value, the keys grow in the order of their UTF-16 units. -/
def Utf16Ordered (v : Value) : Prop :=
  ∀ keys ∈ v.keyLists, keys.Pairwise fun a b => utf16.codeUnits a < utf16.codeUnits b

theorem utf16Ordered_array {items : List Value} :
    Utf16Ordered (.array items) ↔ ∀ v ∈ items, Utf16Ordered v := by
  simp only [Utf16Ordered, Value.keyLists, Value.mem_keyListsOfItems]
  constructor
  · exact fun h v hv keys hk => h keys ⟨v, hv, hk⟩
  · intro h keys hk
    obtain ⟨v, hv, hk⟩ := hk
    exact h v hv keys hk

theorem utf16Ordered_object {fields : List (String × Value)} :
    Utf16Ordered (.object fields) ↔
      sorted_map.Sorted (fields.map fun e => (utf16.Key.mk e.1, e.2)) ∧
        ∀ e ∈ fields, Utf16Ordered e.2 := by
  simp only [Utf16Ordered, Value.keyLists, List.mem_cons, Value.mem_keyListsOfFields,
    forall_eq_or_imp, sorted_map.Sorted, List.pairwise_map, utf16.Key.lt_iff]
  refine and_congr_right fun _ => ?_
  constructor
  · exact fun h e he keys hk => h keys ⟨e, he, hk⟩
  · intro h keys hk
    obtain ⟨e, he, hk'⟩ := hk
    exact h e he keys hk'

open broker_client

theorem canonicalizeItems_eq (items : List Value) :
    canonicalizeItems items = items.map canonicalizeJsonValue := by
  induction items with
  | nil => rfl
  | cons v items ih => simp [canonicalizeItems, ih]

theorem canonicalizeEntries_eq (entries : List (String × Value)) :
    canonicalizeEntries entries = entries.map fun e => (e.1, canonicalizeJsonValue e.2) := by
  induction entries with
  | nil => rfl
  | cons e entries ih => simp [canonicalizeEntries, ih]

/-- The entries of the map with the keys that Dart compares. -/
theorem map_splayTreeMap (entries : List (String × Value)) :
    (splayTreeMap entries).map (fun e => (utf16.Key.mk e.1, e.2)) =
      sorted_map.ofList (entries.map fun e => (utf16.Key.mk e.1, e.2)) := by
  rw [splayTreeMap, List.map_map]
  exact List.map_id' _

/-- The client sorts by UTF-16 units at every depth. -/
theorem utf16Ordered_canonicalize (v : Value) : Utf16Ordered (canonicalizeJsonValue v) := by
  induction v using Value.induct with
  | null | bool _ | number _ | string _ => exact fun keys hk => absurd hk (List.not_mem_nil)
  | array items ih =>
    rw [canonicalizeJsonValue, utf16Ordered_array, canonicalizeItems_eq]
    intro w hw
    obtain ⟨v, hv, rfl⟩ := List.mem_map.mp hw
    exact ih v hv
  | object fields ih =>
    rw [canonicalizeJsonValue, utf16Ordered_object, map_splayTreeMap]
    refine ⟨sorted_map.sorted_ofList _, fun e he => ?_⟩
    have he : (utf16.Key.mk e.1, e.2) ∈ sorted_map.ofList ((canonicalizeEntries fields).map
        fun e => (utf16.Key.mk e.1, e.2)) := by
      rw [← map_splayTreeMap]
      exact List.mem_map_of_mem he
    have hget := ((sorted_map.sorted_ofList _).get_iff _ _).mpr he
    rw [sorted_map.get_ofList] at hget
    have hmem := List.mem_reverse.mp (sorted_map.mem_of_get hget)
    rw [canonicalizeEntries_eq, List.map_map] at hmem
    obtain ⟨e', he', heq⟩ := List.mem_map.mp hmem
    rw [← (Prod.mk.inj heq).2]
    exact ih e'.1 e'.2 he'

theorem get_map_key (k : String) (l : List (String × Value)) :
    sorted_map.get (utf16.Key.mk k) (l.map fun e => (utf16.Key.mk e.1, e.2)) =
      sorted_map.get k l := by
  induction l with
  | nil => rfl
  | cons e l ih =>
    rw [List.map_cons, sorted_map.get_cons, sorted_map.get_cons, ih]
    simp only [utf16.Key.mk.injEq]

/-- The client's sorting is the broker's exactly when the broker's is in the client's
order. -/
theorem canonicalize_eq_sortKeys_iff (v : Value) :
    canonicalizeJsonValue v = v.sortKeys ↔ Utf16Ordered v.sortKeys := by
  refine ⟨fun h => h ▸ utf16Ordered_canonicalize v, fun h => ?_⟩
  induction v using Value.induct with
  | null | bool _ | number _ | string _ => rfl
  | array items ih =>
    rw [Value.sortKeys, utf16Ordered_array, Value.sortItems_eq] at h
    rw [canonicalizeJsonValue, Value.sortKeys, canonicalizeItems_eq, Value.sortItems_eq]
    exact congrArg Value.array (List.map_congr_left fun v hv =>
      ih v hv (h _ (List.mem_map_of_mem hv)))
  | object fields ih =>
    rw [Value.sortKeys, utf16Ordered_object, Value.sortFields_eq] at h
    obtain ⟨hsort, hall⟩ := h
    rw [canonicalizeJsonValue, Value.sortKeys, canonicalizeEntries_eq, Value.sortFields_eq]
    have hinj : Function.Injective fun e : String × Value => (utf16.Key.mk e.1, e.2) := by
      rintro ⟨k, v⟩ ⟨l, w⟩ h
      simpa using h
    refine congrArg Value.object (List.map_injective_iff.mpr hinj ?_)
    rw [map_splayTreeMap]
    refine (sorted_map.sorted_ofList _).ext hsort fun k => ?_
    -- Both maps give the last field of each key.
    rw [sorted_map.get_ofList, ← List.map_reverse, get_map_key k.val, get_map_key k.val,
      sorted_map.get_ofList, ← List.map_reverse, ← List.map_reverse, sorted_map.get_map,
      sorted_map.get_map]
    rcases hg : sorted_map.get k.val fields.reverse with _ | v
    · rfl
    · have hv : (k.val, v) ∈ fields := List.mem_reverse.mp (sorted_map.mem_of_get hg)
      have hmem : (k.val, v.sortKeys) ∈
          sorted_map.ofList (fields.map fun e => (e.1, e.2.sortKeys)) := by
        rw [← (sorted_map.sorted_ofList _).get_iff, sorted_map.get_ofList, ← List.map_reverse,
          sorted_map.get_map, hg]
        rfl
      exact congrArg some (ih k.val v hv (hall _ hmem))

/-! ## The two hashes -/

/-- A payload of the client: no floats, and the integers of Dart. -/
abbrev ClientPayload :=
  { payload : Option Value //
    ∀ n ∈ (payload.getD .null).numbers,
      ∃ i : Int, n = .int i ∧ -9223372036854775808 ≤ i ∧ i < 9223372036854775808 }

variable (sha256 : Bytes → Bytes) (f64 : List Char → Option FloatText)

/-- The hash that the broker expects for the payload it has read. -/
def brokerHash (payload : Option Value) : Option String :=
  (valueOf f64 (payload.getD .null)).map fun v =>
    protocol.canonical_payload_hash sha256 (optionOf v)

/-- The bytes that the broker hashes for a payload of the client. -/
def brokerBytes (payload : Option Value) : Bytes :=
  utf8.encode (to_string (payload.getD .null).sortKeys)

def clientBytes (payload : Option Value) : Bytes := utf8.encode (canonicalJson payload)

variable {sha256 f64}

theorem brokerHash_eq (payload : ClientPayload) :
    brokerHash sha256 f64 payload.val =
      some ("sha256:" ++ hex.encode (sha256 (brokerBytes payload.val))) := by
  have hread : valueOf f64 (payload.val.getD .null) = some (payload.val.getD .null).sortKeys := by
    refine valueOf_eq_sortKeys fun n hn => ?_
    obtain ⟨i, rfl, hlo, hhi⟩ := payload.property n hn
    have hkeep : keepsInt i = true := by
      simp only [keepsInt, Bool.and_eq_true, decide_eq_true_eq]
      omega
    rw [numberOf, if_pos hkeep]
  rw [brokerHash, hread, Option.map_some, protocol.canonical_payload_hash, getD_optionOf]
  rfl

theorem clientBytes_eq_brokerBytes_iff (payload : Option Value) :
    clientBytes payload = brokerBytes payload ↔ Utf16Ordered (payload.getD .null).sortKeys := by
  rw [← canonicalize_eq_sortKeys_iff]
  constructor
  · exact fun h => to_string_inj (utf8.encode_inj h)
  · intro h
    rw [clientBytes, canonicalJson, h]
    rfl

/-- The client and the broker agree on the hash of a payload exactly when the broker's order
of the keys is the client's order too, at every depth. -/
theorem payload_hashes_agree_iff (hsha2 : ∀ bytes, sha256 bytes = fips.digest bytes)
    (payload : ClientPayload)
    (hcollision : fips.digest (brokerBytes payload.val) = fips.digest (clientBytes payload.val) →
      brokerBytes payload.val = clientBytes payload.val) :
    brokerHash sha256 f64 payload.val = some (payloadHash payload.val) ↔
      Utf16Ordered (payload.val.getD .null).sortKeys := by
  rw [brokerHash_eq, payloadHash, sha256Tagged_eq, hsha2, Option.some.injEq,
    ← clientBytes_eq_brokerBytes_iff]
  constructor
  · exact fun h => (hcollision (hex.encode_inj (String.append_right_inj _ |>.mp h))).symm
  · exact fun h => by rw [← h, clientBytes]

/-- Two keys in ASCII, which both sides sort alike. -/
def asciiKeys : ClientPayload :=
  ⟨some (.object [("operation", .string "health"), ("action", .bool true)]), by
    simp [Value.numbers, Value.numbersOfFields]⟩

theorem payload_hashes_agree_ascii_keys :
    brokerHash fips.digest (fun _ => none) asciiKeys.val = some (payloadHash asciiKeys.val) ↔
      Utf16Ordered (asciiKeys.val.getD .null).sortKeys :=
  payload_hashes_agree_iff (fun _ => rfl) asciiKeys (fun _ => by decide +kernel)

/-- A key from the private use area and a key above U+FFFF. Its UTF-16 units are smaller. -/
def astralKey : ClientPayload :=
  ⟨some (.object [("\uE000", .bool true), ("😀", .bool true)]), by
    simp [Value.numbers, Value.numbersOfFields]⟩

theorem payload_hashes_differ_on_astral_key :
    ¬ ∀ (sha256 : Bytes → Bytes) (f64 : List Char → Option FloatText) (payload : ClientPayload),
      (∀ bytes, sha256 bytes = fips.digest bytes) →
        brokerHash sha256 f64 payload.val = some (payloadHash payload.val) := by
  intro h
  have h := h fips.digest (fun _ => none) astralKey fun _ => rfl
  rw [brokerHash_eq, payloadHash, sha256Tagged_eq] at h
  have h := hex.encode_inj (String.append_right_inj _ |>.mp (Option.some.inj h))
  exact absurd h (by decide +kernel)

end client_parity
