-- The authority gate on the metadata of an envelope against the scan of the metadata object.
-- The gate reads the object flattened to pairs of strings, so it finds a nested claim only by
-- the words of a JSON text.
import GuiShell.Broker.AuthorityWords
import GuiShell.Broker.ResponseAudit

open json serde_json authority broker_audit files store

namespace protocol

variable {crates : Crates} {outside : Outside}

/-! ## The flattened metadata -/

/-- The metadata of an envelope whose JSON text has this object for it. -/
def flattened (object : List (String × Value)) : List BrokerMetadata :=
  object.map fun field => ⟨field.1, json_metadata_value field.2⟩

/-- An envelope that is read from a text holds its metadata object flattened. -/
theorem asOptionMetadata_object {f64 : List Char → Option FloatText}
    {fields object : List (String × Value)}
    (h : valueOf f64 (.object fields) = some (.object object)) :
    asOptionMetadata f64 (some (.object fields)) = some (some (flattened object)) := by
  simp only [valueOf, Option.map_eq_some_iff, Value.object.injEq] at h
  obtain ⟨fields', hfields, rfl⟩ := h
  simp [asOptionMetadata, hfields, flattened]

/-! ## What the gate finds -/

/-- The gate finds a claim in a field: in its key, in its value if that is a string, or in a
word of a text below it, with the text escaped. -/
inductive Shows (crates : Crates) (field : String × Value) : Prop
  | key (h : keyClaimsAuthority crates field.1 = true)
  | value (text : String) (hv : field.2 = .string text) (h : textClaimsAuthority crates text = true)
  | nested (text : String) (hv : ∀ s, field.2 ≠ .string s) (hmem : text ∈ texts field.2)
      (h : textClaimsAuthority crates (.ofList (escaped text)) = true)

theorem claimsByWord_metadata_value (h : NormalizesAscii crates) {v : Value}
    (hv : ∀ s, v ≠ .string s) :
    claimsByWord crates (json_metadata_value v).toList = anyEscaped crates (texts v) := by
  cases v with
  | string s => exact absurd rfl (hv s)
  | null =>
    rw [json_metadata_value, show "null".toList = ['n', 'u', 'l', 'l'] from rfl]
    exact wordsOfTexts h .null 0
  | bool b =>
    cases b with
    | true =>
      rw [json_metadata_value, show (toString true).toList = ['t', 'r', 'u', 'e'] from rfl]
      exact wordsOfTexts h (.bool true) 0
    | false =>
      rw [json_metadata_value, show (toString false).toList = ['f', 'a', 'l', 's', 'e'] from rfl]
      exact wordsOfTexts h (.bool false) 0
  | number n =>
    rw [json_metadata_value, String.toList_ofList]
    exact wordsOfTexts h (.number n) 0
  | array items =>
    have hvalue : json_metadata_value (.array items) = to_string (.array items) := rfl
    rw [hvalue, to_string, String.toList_ofList]
    exact wordsOfTexts h _ 0
  | object fields =>
    have hvalue : json_metadata_value (.object fields) = to_string (.object fields) := rfl
    rw [hvalue, to_string, String.toList_ofList]
    exact wordsOfTexts h _ 0

theorem shows_iff (h : NormalizesAscii crates) (field : String × Value) :
    Shows crates field ↔ (keyClaimsAuthority crates field.1 ||
      textClaimsAuthority crates (json_metadata_value field.2)) = true := by
  obtain ⟨key, v⟩ := field
  rw [Bool.or_eq_true]
  by_cases hv : ∃ s, v = .string s
  · obtain ⟨s, rfl⟩ := hv
    constructor
    · rintro (hkey | ⟨text, htext, hclaims⟩ | ⟨text, hne, _, _⟩)
      · exact .inl hkey
      · cases htext
        exact .inr hclaims
      · exact absurd rfl (hne s)
    · rintro (hkey | hclaims)
      · exact .key hkey
      · exact .value s rfl hclaims
  · have hv : ∀ s, v ≠ .string s := fun s hs => hv ⟨s, hs⟩
    rw [textClaimsAuthority_eq, claimsByWord_metadata_value h hv, anyEscaped, List.any_eq_true]
    constructor
    · rintro (hkey | ⟨text, htext, _⟩ | ⟨text, _, hmem, hclaims⟩)
      · exact .inl hkey
      · exact absurd htext (hv text)
      · rw [textClaimsAuthority_eq, String.toList_ofList] at hclaims
        exact .inr ⟨text, hmem, hclaims⟩
    · rintro (hkey | ⟨text, hmem, hclaims⟩)
      · exact .key hkey
      · refine .nested text hv hmem ?_
        rw [textClaimsAuthority_eq, String.toList_ofList]
        exact hclaims

/-- The gate finds a claim in a field of the object, or it finds none. -/
theorem metadata_attempts_authority_iff (h : NormalizesAscii crates)
    (object : List (String × Value)) :
    metadata_attempts_authority crates (flattened object) = true ↔
      ∃ field ∈ object, Shows crates field := by
  unfold metadata_attempts_authority flattened
  simp only [List.any_map, List.any_eq_true, Function.comp_apply, shows_iff h, keyClaimsAuthority,
    textClaimsAuthority, Bool.or_assoc]

/-! ## The gate and the scan -/

/-- When the scan finds a claim in the object, so does the gate, and `handle` rejects a request
that has come through the other gates. -/
def GateCovers (crates : Crates) (object : List (String × Value)) : Prop :=
  metadata_attempts_authority_value crates (.object object) = true →
    metadata_attempts_authority crates (flattened object) = true ∧
    ∀ (outside : Outside) (w : World crates) (envelope : BrokerRequestEnvelope),
      envelope.metadata = flattened object →
      w.broker.gate envelope outside.gate_clock = .pass →
      (w.record_nonce outside envelope.nonceText).1 = .ok () →
      w.handle outside envelope =
        (w.record_nonce outside envelope.nonceText).2.reject_with_payload_hash outside
          envelope.requestId envelope.operationName "broker_authority_metadata_rejected"
          "broker metadata attempted to carry authority" true envelope.payloadHash

theorem handle_of_claims {w : World crates} {envelope : BrokerRequestEnvelope}
    (hgate : w.broker.gate envelope outside.gate_clock = .pass)
    (hclaims : metadata_attempts_authority crates envelope.metadata = true)
    (hrecord : (w.record_nonce outside envelope.nonceText).1 = .ok ()) :
    w.handle outside envelope =
      (w.record_nonce outside envelope.nonceText).2.reject_with_payload_hash outside
        envelope.requestId envelope.operationName "broker_authority_metadata_rejected"
        "broker metadata attempted to carry authority" true envelope.payloadHash := by
  obtain ⟨course, hcourse, hhandled⟩ := World.handle_cases outside w envelope
  rw [hcourse]
  cases hhandled with
  | claimed => rfl
  | rejected h | suspended h =>
    rw [hgate] at h
    cases h
  | unavailable _ _ h =>
    rw [hrecord] at h
    cases h
  | unrecorded _ h | dispatched _ h =>
    rw [World.claimsAuthority, hclaims] at h
    cases h

theorem gateCovers_of_shows (h : NormalizesAscii crates) {object : List (String × Value)}
    {field : String × Value} (hmem : field ∈ object) (hshows : Shows crates field) :
    GateCovers crates object := by
  intro _
  have hgate := (metadata_attempts_authority_iff h object).mpr ⟨field, hmem, hshows⟩
  refine ⟨hgate, fun outside w envelope hmetadata hpass hrecord => ?_⟩
  exact handle_of_claims hpass (hmetadata ▸ hgate) hrecord

/-- The gate covers the scan of an object in which nothing claims authority, or of which a
field shows a claim. -/
theorem metadata_gate_covers_scan_iff (h : NormalizesAscii crates)
    (object : List (String × Value)) :
    GateCovers crates object ↔
      (metadata_attempts_authority_value crates (.object object) = false ∨
        ∃ field ∈ object, Shows crates field) := by
  constructor
  · intro hcovers
    by_cases hscan : metadata_attempts_authority_value crates (.object object) = true
    · exact .inr ((metadata_attempts_authority_iff h object).mp (hcovers hscan).1)
    · exact .inl (by simpa using hscan)
  · rintro (hscan | ⟨field, hmem, hshows⟩)
    · intro hclaims
      rw [hscan] at hclaims
      cases hclaims
    · exact gateCovers_of_shows h hmem hshows

theorem normalizesAscii_ascii : NormalizesAscii .ascii := by
  constructor
  · exact fun _ _ => rfl
  · intro c _ a b
    simp [Crates.ascii]

theorem metadata_gate_covers_role : GateCovers .ascii [("profile", .object [("role", .null)])] := by
  refine (metadata_gate_covers_scan_iff normalizesAscii_ascii _).mpr (.inr ⟨_, List.mem_cons_self, ?_⟩)
  refine .nested "role" nofun (by decide) ?_
  decide

/-- The scan finds the key, and the two words of the key say nothing to the gate. -/
theorem metadata_gate_misses_trust_level :
    ¬ GateCovers .ascii [("profile", .object [("trust_level", .number (.int 5))])] := by
  intro hcovers
  have hscan : metadata_attempts_authority_value .ascii
      (.object [("profile", .object [("trust_level", .number (.int 5))])]) = true := by decide
  have hgate : metadata_attempts_authority .ascii
      (flattened [("profile", .object [("trust_level", .number (.int 5))])]) = false := by decide
  rw [(hcovers hscan).1] at hgate
  cases hgate

/-! ## What hides from the gate -/

/-- A key that claims authority does so by one of its words, or it is one of these. -/
theorem textClaims_of_keyClaims {key : String} (h : keyClaimsAuthority crates key = true)
    (hkey : normalize_authority_token crates key ∉
      ["approval_state", "scope_escalation", "trust_level"]) :
    textClaimsAuthority crates key = true := by
  unfold keyClaimsAuthority canonical_authority_key at h
  unfold textClaimsAuthority
  dsimp only
  generalize normalize_authority_token crates key = normalized at h hkey
  rw [Bool.or_eq_true]
  right
  split at h
  all_goals first
    | exact absurd h (by decide)
    | exact absurd hkey (by decide)
    | decide

/-- What the scan finds in a value is a key or a string that claims authority. -/
theorem exists_text_of_scan {v : Value} (h : metadata_attempts_authority_value crates v = true) :
    ∃ text ∈ texts v, keyClaimsAuthority crates text = true ∨
      textClaimsAuthority crates text = true := by
  induction v using Value.induct with
  | null | bool _ | number _ => cases h
  | string text => exact ⟨text, List.mem_singleton_self _, .inr h⟩
  | array items ih =>
    rw [metadata_attempts_authority_value] at h
    rw [texts]
    induction items with
    | nil => cases h
    | cons v items hind =>
      rw [anyItem, Bool.or_eq_true] at h
      rcases h with h | h
      · obtain ⟨text, hmem, hclaims⟩ := ih v List.mem_cons_self h
        exact ⟨text, List.mem_append_left _ hmem, hclaims⟩
      · obtain ⟨text, hmem, hclaims⟩ := hind (fun w hw => ih w (List.mem_cons_of_mem _ hw)) h
        exact ⟨text, List.mem_append_right _ hmem, hclaims⟩
  | object fields ih =>
    rw [metadata_attempts_authority_value] at h
    rw [texts]
    induction fields with
    | nil => cases h
    | cons field fields hind =>
      obtain ⟨key, v⟩ := field
      rw [anyField, Bool.or_eq_true, Bool.or_eq_true] at h
      rcases h with (h | h) | h
      · exact ⟨key, List.mem_cons_self, .inl h⟩
      · obtain ⟨text, hmem, hclaims⟩ := ih key v List.mem_cons_self h
        exact ⟨text, List.mem_cons_of_mem _ (List.mem_append_left _ hmem), hclaims⟩
      · obtain ⟨text, hmem, hclaims⟩ := hind (fun k w hw => ih k w (List.mem_cons_of_mem _ hw)) h
        exact ⟨text, List.mem_cons_of_mem _ (List.mem_append_right _ hmem), hclaims⟩

theorem exists_field_of_scan {object : List (String × Value)}
    (h : metadata_attempts_authority_value crates (.object object) = true) :
    ∃ field ∈ object, keyClaimsAuthority crates field.1 = true ∨
      metadata_attempts_authority_value crates field.2 = true := by
  rw [metadata_attempts_authority_value] at h
  induction object with
  | nil => cases h
  | cons field object ih =>
    obtain ⟨key, v⟩ := field
    rw [anyField, Bool.or_eq_true, Bool.or_eq_true] at h
    rcases h with h | h
    · exact ⟨_, List.mem_cons_self, h⟩
    · obtain ⟨field, hmem, hclaims⟩ := ih h
      exact ⟨field, List.mem_cons_of_mem _ hmem, hclaims⟩

/-- The text has no character that JSON escapes, and it is no key whose words hide. -/
structure Plain (crates : Crates) (text : String) : Prop where
  unescaped : ∀ c ∈ text.toList, raw.escape c = [c]
  key : normalize_authority_token crates text ∉
    ["approval_state", "scope_escalation", "trust_level"]

theorem Plain.escaped {text : String} (h : Plain crates text) : escaped text = text.toList := by
  unfold authority.escaped
  rw [List.flatMap_congr h.unescaped, List.flatMap_singleton']

theorem mem_texts_of_field {object : List (String × Value)} {field : String × Value}
    (hfield : field ∈ object) {text : String} (hmem : text ∈ texts field.2) :
    text ∈ texts (.object object) := by
  rw [texts]
  induction object with
  | nil => cases hfield
  | cons head object ih =>
    rw [textsOfFields, List.cons_append]
    apply List.mem_cons_of_mem
    rcases List.mem_cons.mp hfield with rfl | hfield
    · exact List.mem_append_left _ hmem
    · exact List.mem_append_right _ (ih hfield)

/-- The gate covers the scan where all the keys and strings are plain. -/
theorem metadata_gate_covers_plain (h : NormalizesAscii crates) {object : List (String × Value)}
    (hplain : ∀ text ∈ texts (.object object), Plain crates text) : GateCovers crates object := by
  intro hscan
  obtain ⟨field, hmem, hkey | hvalue⟩ := exists_field_of_scan hscan
  · exact gateCovers_of_shows h hmem (.key hkey) hscan
  · refine gateCovers_of_shows h hmem ?_ hscan
    by_cases hv : ∃ s, field.2 = .string s
    · obtain ⟨s, hs⟩ := hv
      rw [hs] at hvalue
      exact .value s hs hvalue
    · obtain ⟨text, htext, hclaims⟩ := exists_text_of_scan hvalue
      have hp := hplain text (mem_texts_of_field hmem htext)
      refine .nested text (fun s hs => hv ⟨s, hs⟩) htext ?_
      rw [hp.escaped, String.ofList_toList]
      exact hclaims.elim (fun hkey => textClaims_of_keyClaims hkey hp.key) id

end protocol
