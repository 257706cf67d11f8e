-- What a state keeps of its adapters (adapter_loader.py). Where the keys of an adapter's metadata
-- are ASCII, the metadata that stays claims no authority, and loading it again changes nothing.
import GuiShell.MetadataParity
import GuiShell.ShellCore.RegistrationHistory

open json shell_core shell_core.normalization shell_core.policy_evaluator normal_forms
  metadata_parity normalization_parity

namespace loaded_adapters

/-! ## Normal forms of keys -/

variable {unicode : Unicode} {key : String}

/-- A normal form of an ASCII key is ASCII without spaces and capitals. -/
theorem mem_normalize_key (hdata : AsciiData .ascii unicode) (h : IsAscii key) {c : Char}
    (hc : c ∈ (normalize_key unicode key).toList) :
    c.toNat < 0x80 ∧ normalization.isSpace c = false ∧ c.isUpper = false := by
  rw [python_normal_form hdata h, String.toList_ofList] at hc
  rcases mem_of_mem_replaceRuns hc with rfl | ⟨hmem, hp⟩
  · decide
  · obtain ⟨d, hd, rfl⟩ := List.mem_map.mp hmem
    simp only [Bool.or_eq_false_iff] at hp
    have hascii : d.toNat < 0x80 := by
      rcases mem_splitCamel hd with hd | rfl
      · exact h d (mem_strip hd)
      · decide
    refine ⟨?_, hp.1.1, isUpper_toLower d⟩
    rw [authority.toNat_toLower]
    split <;> omega

/-- A normal form is its own normal form. -/
theorem normalize_key_normalize_key (hdata : AsciiData .ascii unicode) (h : IsAscii key) :
    normalize_key unicode (normalize_key unicode key) = normalize_key unicode key := by
  have hmem := fun {c} => @mem_normalize_key unicode key hdata h c
  have hstrip := strip_eq_self fun c hc => (hmem hc).2.1
  have hcamel := splitCamel_eq_self fun c hc => (hmem hc).2.2
  have hlower : (normalize_key unicode key).toList.map Char.toLower =
      (normalize_key unicode key).toList :=
    (List.map_congr_left fun c hc => authority.toLower_eq_self (hmem hc).2.2).trans (List.map_id' _)
  rw [python_normal_form hdata fun c hc => (hmem hc).1, hstrip, hcamel, hlower,
    python_normal_form hdata h, String.toList_ofList,
    replaceRuns_replaceRuns (by decide) fun hb => hb]
  simp only [Bool.or_self]

theorem canonical_normalize_key (hdata : AsciiData .ascii unicode) (h : IsAscii key) :
    canonical_authority_key unicode (normalize_key unicode key) =
      canonical_authority_key unicode key := by
  unfold canonical_authority_key
  rw [normalize_key_normalize_key hdata h]

/-! ## Stripped metadata -/

def AsciiKeys (v : Value) : Prop := ∀ keys ∈ v.keyLists, ∀ key ∈ keys, IsAscii key

variable {fields : List (String × Value)} {v : Value}

theorem asciiKeys_array {items : List Value} (h : AsciiKeys (.array items)) :
    ∀ v ∈ items, AsciiKeys v := by
  intro v hv keys hkeys
  apply h keys
  rw [Value.keyLists, Value.mem_keyListsOfItems]
  exact ⟨v, hv, hkeys⟩

theorem asciiKeys_object (h : AsciiKeys (.object fields)) :
    ∀ e ∈ fields, IsAscii e.1 ∧ AsciiKeys e.2 := by
  intro e he
  refine ⟨h (fields.map Prod.fst) ?_ e.1 (List.mem_map_of_mem he), fun keys hkeys => h keys ?_⟩
  · simp [Value.keyLists]
  · rw [Value.keyLists, List.mem_cons, Value.mem_keyListsOfFields]
    exact .inr ⟨e, he, hkeys⟩

/-- A field that stays comes from a field whose key claims no authority. -/
theorem exists_of_mem_stripFields {e : String × Value} (h : e ∈ stripFields unicode fields) :
    ∃ e' ∈ fields, canonical_authority_key unicode e'.1 = none ∧
      e = (normalize_key unicode e'.1, strip_authority_keys unicode e'.2) := by
  induction fields with
  | nil => cases h
  | cons e' fields ih =>
    rw [stripFields] at h
    by_cases hkey : canonical_authority_key unicode e'.1 = none
    · rw [if_pos hkey] at h
      rcases List.mem_cons.mp h with rfl | h
      · exact ⟨e', List.mem_cons_self, hkey, rfl⟩
      · obtain ⟨e'', he'', hfield⟩ := ih h
        exact ⟨e'', List.mem_cons_of_mem _ he'', hfield⟩
    · rw [if_neg hkey] at h
      obtain ⟨e'', he'', hfield⟩ := ih h
      exact ⟨e'', List.mem_cons_of_mem _ he'', hfield⟩

theorem stripFields_of_noKey (h : ∀ e ∈ fields, canonical_authority_key unicode e.1 = none) :
    stripFields unicode fields =
      fields.map fun e => (normalize_key unicode e.1, strip_authority_keys unicode e.2) := by
  induction fields with
  | nil => rfl
  | cons e fields ih =>
    rw [stripFields, if_pos (h e List.mem_cons_self),
      ih fun x hx => h x (List.mem_cons_of_mem _ hx)]
    rfl

theorem mem_ofItems {l : List (String × Value)} {e : String × Value} (h : e ∈ dict.ofItems l) :
    e ∈ l := by
  have hfold : ∀ l d : List (String × Value),
      e ∈ l.foldl (fun d e => dict.setItem e.1 e.2 d) d → e ∈ d ∨ e ∈ l := by
    intro l
    induction l with
    | nil => exact fun _ h => .inl h
    | cons e' l ih =>
      intro d h
      rcases ih _ h with h | h
      · rcases dict.mem_setItem h with rfl | h
        · exact .inr List.mem_cons_self
        · exact .inl h
      · exact .inr (List.mem_cons_of_mem _ h)
  exact (hfold l [] h).resolve_left List.not_mem_nil

/-- The fields of a stripped object: their keys are normal forms and claim no authority. -/
theorem mem_stripped (hdata : AsciiData .ascii unicode) (h : AsciiKeys (.object fields))
    {e : String × Value} (he : e ∈ dict.ofItems (stripFields unicode fields)) :
    canonical_authority_key unicode e.1 = none ∧ normalize_key unicode e.1 = e.1 ∧
      ∃ e' ∈ fields, e.2 = strip_authority_keys unicode e'.2 := by
  obtain ⟨e', he', hkey, rfl⟩ := exists_of_mem_stripFields (mem_ofItems he)
  have hascii := (asciiKeys_object h e' he').1
  exact ⟨(canonical_normalize_key hdata hascii).trans hkey,
    normalize_key_normalize_key hdata hascii, e', he', rfl⟩

/-- Stripping again changes nothing. -/
theorem strip_strip (hdata : AsciiData .ascii unicode) (h : AsciiKeys v) :
    strip_authority_keys unicode (strip_authority_keys unicode v) =
      strip_authority_keys unicode v := by
  induction v using Value.induct with
  | null | bool _ | number _ | string _ => rfl
  | array items ih =>
    rw [strip_authority_keys, strip_authority_keys, python_stripItems, python_stripItems,
      List.map_map]
    exact congrArg Value.array (List.map_congr_left fun v hv => ih v hv (asciiKeys_array h v hv))
  | object fields ih =>
    have hmem := fun {e} => @mem_stripped unicode fields hdata h e
    have hsame : ∀ e ∈ dict.ofItems (stripFields unicode fields),
        (normalize_key unicode e.1, strip_authority_keys unicode e.2) = e := by
      intro e he
      obtain ⟨-, hnormal, e', he', hvalue⟩ := hmem he
      have hstrip := ih e'.1 e'.2 he' (asciiKeys_object h e' he').2
      rw [hnormal, hvalue, hstrip, ← hvalue]
    rw [strip_authority_keys, strip_authority_keys, stripFields_of_noKey fun e he => (hmem he).1,
      List.map_congr_left hsame, List.map_id', dict.ofItems_of_nodup (dict.nodup_ofItems _)]

theorem noKey_strip (hdata : AsciiData .ascii unicode) (h : AsciiKeys v) :
    ∀ keys ∈ (strip_authority_keys unicode v).keyLists, ∀ key ∈ keys,
      canonical_authority_key unicode key = none := by
  induction v using Value.induct with
  | null | bool _ | number _ | string _ =>
    intro keys hkeys
    cases hkeys
  | array items ih =>
    intro keys hkeys
    rw [strip_authority_keys, python_stripItems, Value.keyLists,
      Value.mem_keyListsOfItems] at hkeys
    obtain ⟨w, hw, hkeys⟩ := hkeys
    obtain ⟨v, hv, rfl⟩ := List.mem_map.mp hw
    exact ih v hv (asciiKeys_array h v hv) keys hkeys
  | object fields ih =>
    intro keys hkeys key hkey
    rw [strip_authority_keys, Value.keyLists, List.mem_cons, Value.mem_keyListsOfFields] at hkeys
    rcases hkeys with rfl | ⟨e, he, hkeys⟩
    · obtain ⟨e, he, rfl⟩ := List.mem_map.mp hkey
      exact (mem_stripped hdata h he).1
    · obtain ⟨-, -, e', he', hvalue⟩ := mem_stripped hdata h he
      rw [hvalue] at hkeys
      exact ih e'.1 e'.2 he' (asciiKeys_object h e' he').2 keys hkeys key hkey

theorem authority_keys_in_strip (hdata : AsciiData .ascii unicode) (h : AsciiKeys v) :
    authority_keys_in unicode (strip_authority_keys unicode v) "" = [] := by
  rw [← List.length_eq_zero_iff, python_keys_length, overObjects,
    List.sum_eq_zero_iff_forall_eq_nat]
  intro n hn
  obtain ⟨keys, hkeys, rfl⟩ := List.mem_map.mp hn
  rw [List.countP_eq_zero]
  intro key hkey
  rw [pythonClaims, noKey_strip hdata h keys hkeys key hkey]
  exact Bool.false_ne_true

/-! ## Adapters -/

section adapters

variable {adapter : Value} {record : AdapterRecord}

def metadataOf (adapter : Value) : Value := (adapter.get "metadata").getD (.object [])

/-- What the loader takes over. -/
structure Loaded (unicode : Unicode) (adapter : Value) (record : AdapterRecord) : Prop where
  adapter_id : adapter.get "adapter_id" = some record.adapter_id
  runtime_id : adapter.get "runtime_id" = some record.runtime_id
  contract_version : adapter.get "contract_version" = some record.contract_version
  transport : record.transport = (adapter.get "transport").getD (.string "mock")
  declared_capabilities : tuple ((adapter.get "declared_capabilities").getD (.array [])) =
    some record.declared_capabilities
  metadata : record.metadata = strip_authority_keys unicode (metadataOf adapter)
  noValue : authority_values_in unicode record.metadata "" = []

theorem loaded_of_load_adapter (h : load_adapter unicode adapter = some record) :
    Loaded unicode adapter record := by
  unfold load_adapter at h
  split at h
  · cases h
  · obtain ⟨adapter_id, hadapter_id, h⟩ := Option.bind_eq_some_iff.mp h
    obtain ⟨runtime_id, hruntime_id, h⟩ := Option.bind_eq_some_iff.mp h
    obtain ⟨contract_version, hversion, h⟩ := Option.bind_eq_some_iff.mp h
    obtain ⟨declared_capabilities, hcapabilities, h⟩ := Option.bind_eq_some_iff.mp h
    dsimp only at h
    split at h
    · cases h
    · rename_i hvalues
      cases h
      exact ⟨hadapter_id, hruntime_id, hversion, rfl, hcapabilities, rfl, not_not.mp hvalues⟩

theorem Loaded.strip_metadata (h : Loaded unicode adapter record)
    (hdata : AsciiData .ascii unicode) (hascii : AsciiKeys (metadataOf adapter)) :
    strip_authority_keys unicode record.metadata = record.metadata := by
  rw [h.metadata]
  exact strip_strip hdata hascii

/-- What a state keeps of an adapter is loaded as it is. -/
theorem load_adapter_entry (hdata : AsciiData .ascii unicode)
    (hascii : AsciiKeys (metadataOf adapter)) (h : load_adapter unicode adapter = some record) :
    load_adapter unicode record.entry = some record := by
  have hloaded := loaded_of_load_adapter h
  have hentry : load_adapter unicode record.entry =
      if authority_values_in unicode (strip_authority_keys unicode record.metadata) "" ≠ [] then
        none
      else some { record with metadata := strip_authority_keys unicode record.metadata } := rfl
  rw [hentry, hloaded.strip_metadata hdata hascii, if_neg (not_not.mpr hloaded.noValue)]

theorem metadata_claims_nothing {python : Python} (hdata : AsciiData .ascii python.unicode)
    (hascii : AsciiKeys (metadataOf adapter))
    (h : load_adapter python.unicode adapter = some record) :
    metadata_claims_authority python record.metadata = false := by
  have hloaded := loaded_of_load_adapter h
  have hkeys : authority_keys_in python.unicode record.metadata "" = [] := by
    rw [hloaded.metadata]
    exact authority_keys_in_strip hdata hascii
  unfold metadata_claims_authority
  simp only [hkeys, hloaded.strip_metadata hdata hascii, hloaded.noValue]
  rfl

/-! ### The record that is kept -/

open schema_validation

theorem valid_openObject {repr : Value → String} {path : String} (fields : List (String × Value)) :
    validate_instance repr (.object fields) openObject path = some [] := by
  have hfields : validateFields repr fields openObject path = some [] := by
    induction fields with
    | nil => rfl
    | cons e fields ih =>
      rw [validateFields, ih]
      rfl
  unfold validate_instance
  rw [show openObject.type = .one "object" from rfl]
  simp only [ExpectedType.admits, type_matches]
  rw [hfields]
  rfl

theorem array_of_valid {repr : Value → String} {path : String} {value : Value}
    (h : validate_instance repr value texts path = some []) : ∃ items, value = .array items := by
  have hadmits := admits_of_valid h
  cases value with
  | array items => exact ⟨items, rfl⟩
  | null | bool _ | number _ | object _ | string _ =>
    exact absurd hadmits (by simp [texts, ExpectedType.admits, type_matches])

/-- What a state keeps of a valid adapter is a valid adapter. -/
theorem validates_entry (hvalid : validates adapter adapter_schema = true)
    (h : load_adapter unicode adapter = some record) :
    validates record.entry adapter_schema = true := by
  have hloaded := loaded_of_load_adapter h
  obtain ⟨fields, rfl, -, hfields⟩ := object_of_valid rfl (of_decide_eq_true hvalid)
  apply decide_eq_true
  apply valid_closedObject
  · simp only [List.forall_mem_cons]
    exact ⟨rfl, rfl, rfl, rfl, List.forall_mem_nil _⟩
  · simp only [List.forall_mem_cons]
    refine ⟨⟨_, rfl, validateFields_get hfields hloaded.adapter_id rfl⟩,
      ⟨_, rfl, validateFields_get hfields hloaded.runtime_id rfl⟩,
      ⟨_, rfl, validateFields_get hfields hloaded.contract_version rfl⟩, ⟨_, rfl, ?_⟩,
      ⟨_, rfl, rfl⟩, ⟨_, rfl, ?_⟩, ⟨_, rfl, ?_⟩, List.forall_mem_nil _⟩
    · rw [hloaded.transport]
      cases hget : (Value.object fields).get "transport" with
      | none => rfl
      | some transport => exact validateFields_get hfields hget rfl
    · have hcapabilities := hloaded.declared_capabilities
      cases hget : (Value.object fields).get "declared_capabilities" with
      | none =>
        rw [hget] at hcapabilities
        have hitems : record.declared_capabilities = [] := (Option.some.inj hcapabilities).symm
        rw [hitems]
        rfl
      | some capabilities =>
        have hvalid := validateFields_get hfields hget (rfl : _ = some texts)
        obtain ⟨items, rfl⟩ := array_of_valid hvalid
        rw [hget] at hcapabilities
        have hitems : record.declared_capabilities = items := (Option.some.inj hcapabilities).symm
        rw [hitems]
        exact hvalid
    · rw [hloaded.metadata, metadataOf]
      cases hget : (Value.object fields).get "metadata" with
      | none => exact valid_openObject []
      | some metadata =>
        have hvalid := validateFields_get hfields hget (rfl : _ = some openObject)
        obtain ⟨fields', rfl, -⟩ := object_of_valid rfl hvalid
        exact valid_openObject _

/-! ### The state -/

theorem setItem_of_get {id : String} {l : List (String × Value)}
    (h : sorted_map.get id l = some adapter) : dict.setItem id adapter l = l := by
  induction l with
  | nil => cases h
  | cons e l ih =>
    rw [sorted_map.get_cons] at h
    rw [dict.setItem]
    by_cases hid : e.1 = id
    · rw [if_pos hid, Option.some_inj] at h
      rw [if_pos hid, ← h]
    · rw [if_neg hid] at h
      rw [if_neg hid, ih h]

theorem put_of_get {adapters : Adapters} {id : String}
    (hid : adapter.get "adapter_id" = some (.string id))
    (h : sorted_map.get id adapters.entries = some adapter) :
    adapters.put id adapter hid = adapters := by
  obtain ⟨entries, nodup, own_id⟩ := adapters
  unfold Adapters.put
  simp only [Adapters.mk.injEq]
  exact setItem_of_get h

/-- An adapter that the state keeps is registered again without a change. -/
theorem register_again {state : RuntimeState} {id : String}
    (hvalid : validates record.entry adapter_schema = true)
    (hload : load_adapter unicode record.entry = some record)
    (hid : record.adapter_id = .string id)
    (hget : sorted_map.get id state.adapters.entries = some record.entry) :
    state.register_adapter unicode record.entry = some state := by
  unfold RuntimeState.register_adapter
  rw [if_pos hvalid]
  split
  · rename_i record' hload'
    rw [hload] at hload'
    cases hload'
    split
    · rename_i id' hid'
      rw [hid] at hid'
      cases hid'
      rw [put_of_get _ hget]
    · rename_i hno
      exact absurd hid (hno id)
  · rename_i hnone
    rw [hload] at hnone
    cases hnone

/-- The evaluator finds no claim in the adapter's metadata, and registering what the state keeps
of the adapter is accepted and changes nothing. -/
structure Settled (python : Python) (state : RuntimeState) (adapter : Value) : Prop where
  claimsNothing : metadata_claims_authority python (metadataOf adapter) = false
  registers : state.register_adapter python.unicode adapter = some state

open state_snapshot registration_history

/-- An adapter of a state was loaded from a valid one that was registered. -/
theorem loaded_of_mem_run {history : List Registration} {e : String × Value}
    (he : e ∈ (run unicode history).adapters.entries) :
    ∃ r ∈ history, r.kind = .adapter ∧ validates r.record adapter_schema = true ∧
      ∃ record, load_adapter unicode r.record = some record ∧ record.entry = e.2 := by
  have hget : sorted_map.get e.1 (run unicode history).adapters.entries = some e.2 :=
    sorted_map.get_of_mem (run unicode history).adapters.nodup he
  have hstanding : standing unicode history .adapter e.1 = some e.2 := by
    rw [← inState_run]
    exact hget
  have hadded := List.mem_reverse.mp (sorted_map.mem_of_get hstanding)
  obtain ⟨r, hr, hentry⟩ := List.mem_filterMap.mp hadded
  by_cases hkind : r.kind = .adapter
  · rw [if_pos hkind] at hentry
    obtain ⟨-, hkept⟩ := Registration.get_of_entry hentry
    rw [hkind, kept] at hkept
    split at hkept
    · rename_i hvalid
      exact ⟨r, hr, hkind, hvalid, Option.map_eq_some_iff.mp hkept⟩
    · cases hkept
  · rw [if_neg hkind] at hentry
    cases hentry

/-- After any history of registrations, every adapter of the state is settled. -/
theorem adapters_settled {python : Python} (hdata : AsciiData .ascii python.unicode)
    (history : List Registration)
    (hascii : ∀ r ∈ history, r.kind = .adapter → AsciiKeys (metadataOf r.record)) :
    ∀ e ∈ (run python.unicode history).adapters.entries,
      Settled python (run python.unicode history) e.2 := by
  intro e he
  obtain ⟨r, hr, hkind, hvalid, record, hload, hentry⟩ := loaded_of_mem_run he
  have hkeys := hascii r hr hkind
  have hid : record.adapter_id = .string e.1 := by
    have hown := (run python.unicode history).adapters.own_id e he
    rw [← hentry, record.get_entry] at hown
    exact Option.some.inj hown
  have hget : sorted_map.get e.1 (run python.unicode history).adapters.entries =
      some record.entry := by
    rw [hentry]
    exact sorted_map.get_of_mem (run python.unicode history).adapters.nodup he
  rw [← hentry]
  exact ⟨metadata_claims_nothing hdata hkeys hload,
    register_again (validates_entry hvalid hload) (load_adapter_entry hdata hkeys hload) hid hget⟩

/-- An adapter whose metadata claims authority twice. -/
def probeAdapter : Value := .object [
  ("adapter_id", .string "invariant_probe"),
  ("runtime_id", .string "runtime_probe"),
  ("contract_version", .string "v1.0"),
  ("authority_strip", .bool true),
  ("declared_capabilities", .array [.string "runtime.read"]),
  ("metadata", .object [
    ("Trust_Level", .string "root"),
    ("permissionGrant", .string "all"),
    ("Safe Label", .string "probe")])]

theorem adapters_settled_probe :
    ∃ e ∈ (run .ascii [⟨.adapter, probeAdapter⟩]).adapters.entries,
      Settled blue_tanuki_adapter.plainPython (run .ascii [⟨.adapter, probeAdapter⟩]) e.2 := by
  have hsome : (run .ascii [⟨.adapter, probeAdapter⟩]).adapters.entries ≠ [] := by decide +kernel
  obtain ⟨e, he⟩ := List.exists_mem_of_ne_nil _ hsome
  refine ⟨e, he, @adapters_settled blue_tanuki_adapter.plainPython ?_ _ ?_ e he⟩
  · exact ⟨fun _ _ => rfl, fun _ _ => rfl, fun _ _ => rfl⟩
  · intro r hr _
    rw [List.mem_singleton.mp hr]
    have hkeys : (metadataOf probeAdapter).keyLists =
        [["Trust_Level", "permissionGrant", "Safe Label"]] := rfl
    unfold AsciiKeys IsAscii
    rw [hkeys]
    simp

end adapters

end loaded_adapters
