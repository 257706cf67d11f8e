-- The audit chain that the Python shell verifies (audit_chain.py) and the one that the broker
-- verifies (authority.rs) on the same events, as the parity run puts them to both
-- (run_authority_parity.py). The events may chain or not: both report the same errors.
import GuiShell.Broker.AuthorityChain
import GuiShell.Broker.ReadValues
import GuiShell.PortableValues
import GuiShell.ShellCore.DurableLog

open json serde_json files canonical_parity shell_core shell_core.audit_chain

namespace audit_chain_parity

/-! ## The events -/

/-- A text or None, as the parity run has it in the fields that chain the events. -/
def IsText (v : Value) : Prop := v = .null ∨ ∃ s, v = .string s

/-- The fields that chain an event are texts or None, and its id is not the empty text. -/
structure Simple (event : Dict) : Prop where
  event_id : IsText (item event "event_id")
  id_ne_empty : item event "event_id" ≠ .string ""
  event_hash : IsText (item event "event_hash")
  previous_event_hash : IsText (item event "previous_event_hash")

theorem IsText.leaf {v : Value} (h : IsText v) : IsLeaf v := by
  rcases h with rfl | ⟨s, rfl⟩ <;> trivial

theorem sortKeys_eq_leaf_iff {v x : Value} (hx : IsLeaf x) : v.sortKeys = x ↔ v = x := by
  cases v with
  | null | bool _ | number _ | string _ => rfl
  | array _ | object _ =>
    constructor
    · rintro rfl
      exact hx.elim
    · rintro rfl
      exact hx.elim

theorem IsText.sortKeys_eq {v : Value} (h : IsText v) : v.sortKeys = v :=
  (sortKeys_eq_leaf_iff h.leaf).mpr rfl

/-- What stands under a key of the event that was read. -/
theorem getD_sortedDict {event : Dict} (hd : (event.map Prod.fst).Nodup) {field : String}
    (h : IsText (item event field)) :
    (sorted_map.get field (sortedDict event)).getD .null = item event field := by
  have hitem := item_sortedDict hd field
  rw [h.sortKeys_eq] at hitem
  exact hitem

theorem as_str_sortedDict {event : Dict} (hd : (event.map Prod.fst).Nodup) {field : String}
    (h : IsText (item event field)) : (sorted_map.get field (sortedDict event)).bind Value.as_str =
      (item event field).as_str := by
  rw [← getD_sortedDict hd h]
  rcases sorted_map.get field (sortedDict event) with _ | v <;> rfl

/-! ## The hash of an event -/

theorem portableValue_item {event : Dict} (h : PortableValue (.object event)) (field : String) :
    PortableValue (item event field) := by
  unfold item
  cases hv : sorted_map.get field event with
  | none => exact portableValue_null
  | some v => exact (portableValue_object.mp h _ (sorted_map.mem_of_get hv)).2

theorem portableValue_hashed {event : Dict} {previous : Value} (h : PortableValue (.object event))
    (hprevious : PortableValue previous) : PortableValue (.object (hashed event previous)) := by
  rw [portableValue_object] at h ⊢
  intro e he
  rcases dict.mem_setItem ((sorted_map.erase_sublist _ _).subset he) with rfl | hmem
  · refine ⟨?_, hprevious⟩
    unfold AsciiText
    simp
  · exact h e hmem

theorem portableValue_erase {event : Dict} (h : PortableValue (.object event)) (field : String) :
    PortableValue (.object (sorted_map.erase field event)) := by
  rw [portableValue_object] at h ⊢
  intro e he
  exact h e ((sorted_map.erase_sublist _ _).subset he)

variable {sha256 : Bytes → Bytes}

/-- What the broker hashes of the event that it read is what Python hashes, with sorted keys. -/
theorem expected_object_eq {event : Dict} (hd : (event.map Prod.fst).Nodup) {previous : Value}
    (hprevious : IsText previous) :
    authority.expected_object (sortedDict event) previous =
      (Value.object (hashed (sorted_map.erase "event_hash" event) previous)).sortKeys := by
  rw [sortKeys_object, authority.expected_object, Value.object.injEq]
  have hsorted : sorted_map.Sorted (sortedDict event) := sorted_map.sorted_ofList _
  refine ((hsorted.erase _).insert _ _).ext (sorted_map.sorted_ofList _) fun field => ?_
  have hread := get_sortedDict (nodup_hashed (nodup_erase hd "event_hash") previous) field
  rw [hread, get_hashed, sorted_map.get_insert, sorted_map.get_erase, get_sortedDict hd,
    sorted_map.get_erase]
  by_cases hhash : field = "event_hash"
  · simp [hhash]
  · by_cases hprev : field = "previous_event_hash"
    · simp [hprev, hprevious.sortKeys_eq]
    · simp [hhash, hprev, Ne.symm hhash, Ne.symm hprev]

theorem hashes_agree {event : Dict} (hd : (event.map Prod.fst).Nodup) {previous : Value}
    (htext : IsText previous) (hprevious : PortableValue previous)
    (hportable : PortableValue (.object event)) :
    authority.canonical_hash sha256 (authority.expected_object (sortedDict event) previous) =
      canonical_hash sha256 (.object (hashed (sorted_map.erase "event_hash" event) previous)) := by
  have hhashed := portableValue_hashed (portableValue_erase hportable "event_hash") hprevious
  rw [expected_object_eq hd htext, hhashed.canonical_hash_eq]
  rfl

/-! ## One event -/

variable {floats : Floats} {str : Value → String}

/-- The two loops have found the same so far. -/
structure SameState (rust : authority.ChainState) (python : ChainState) : Prop where
  previous : rust.previous = python.previous
  latest : rust.latest = python.previous
  errors : rust.errors = python.errors
  seen : ∀ id, id ∈ rust.seen_event_ids ↔ .string id ∈ python.seen_event_ids

theorem checkId_agrees {rust : authority.ChainState} {python : ChainState}
    (hsame : SameState rust python) (hstr : ∀ s, str (.string s) = s) {event : Dict}
    (hd : (event.map Prod.fst).Nodup) (hsimple : Simple event) (index : Nat) :
    ∃ seen, checkId floats str index python.seen_event_ids (item event "event_id") =
        some (seen, authority.eventIdErrors rust index (sortedDict event)) ∧
      ∀ id, id ∈ ((sorted_map.get "event_id" (sortedDict event)).bind Value.as_str).toList ++
        rust.seen_event_ids ↔ .string id ∈ seen := by
  unfold authority.eventIdErrors checkId
  rw [as_str_sortedDict hd hsimple.event_id]
  rcases hsimple.event_id with hid | ⟨id, hid⟩
  · rw [hid]
    exact ⟨_, rfl, hsame.seen⟩
  · have hne : id ≠ "" := by
      rintro rfl
      exact hsimple.id_ne_empty hid
    have hmem : (python.seen_event_ids.any fun seen => eq floats seen (.string id)) = true ↔
        id ∈ rust.seen_event_ids := by
      rw [List.any_eq_true, hsame.seen]
      simp
    rw [hid]
    have htruthy : truthy (.string id) = true := decide_eq_true hne
    have hhashable : hashable (.string id) = true := rfl
    rw [htruthy, hhashable]
    simp only [Bool.not_true, Bool.false_eq_true, if_false, Value.as_str, Option.toList_some,
      List.singleton_append, List.mem_cons, hmem]
    by_cases hseen : id ∈ rust.seen_event_ids
    · rw [if_pos hseen, if_pos hseen, hstr]
      refine ⟨_, rfl, fun other => ?_⟩
      rw [← hsame.seen]
      constructor
      · rintro (rfl | hother)
        · exact hseen
        · exact hother
      · exact .inr
    · rw [if_neg hseen, if_neg hseen]
      refine ⟨_, rfl, fun other => ?_⟩
      rw [List.mem_append, List.mem_singleton, ← hsame.seen, Value.string.injEq, or_comm]

theorem eq_isText_iff {v x : Value} (hx : IsText x) : eq floats v x = true ↔ v = x := by
  rcases hx with rfl | ⟨s, rfl⟩
  · exact eq_null_iff floats
  · exact eq_string_iff floats

theorem previousHashErrors_eq {rust : authority.ChainState} {python : ChainState}
    (hsame : SameState rust python) (hprevious : IsText python.previous) {event : Dict}
    (hd : (event.map Prod.fst).Nodup) (hsimple : Simple event) (index : Nat) :
    authority.previousHashErrors rust index (sortedDict event) =
      if eq floats (item event "previous_event_hash") python.previous then []
      else ["event " ++ Nat.repr index ++ " の previous hash が一致しません"] := by
  unfold authority.previousHashErrors
  rw [getD_sortedDict hd hsimple.previous_event_hash, hsame.previous]
  simp only [eq_isText_iff hprevious]
  by_cases h : item event "previous_event_hash" = python.previous
  · rw [if_neg (not_not.mpr h), if_pos h]
  · rw [if_pos h, if_neg h]
    rfl

theorem eventHashErrors_eq {rust : authority.ChainState} {python : ChainState}
    (hsame : SameState rust python) (htext : IsText python.previous)
    (hprevious : PortableValue python.previous) {event : Dict}
    (hd : (event.map Prod.fst).Nodup) (hsimple : Simple event)
    (hportable : PortableValue (.object event)) (index : Nat) :
    authority.eventHashErrors sha256 rust index (sortedDict event) =
      if eq floats (item event "event_hash") (item (chain_event sha256
        (sorted_map.erase "event_hash" event) python.previous) "event_hash") then []
      else ["event " ++ Nat.repr index ++ " の hash が一致しません"] := by
  unfold authority.eventHashErrors
  dsimp only
  rw [as_str_sortedDict hd hsimple.event_hash, hsame.previous,
    hashes_agree hd htext hprevious hportable, item_chain_event_hash]
  simp only [eq_string_iff]
  generalize canonical_hash sha256 _ = hash
  have hown : (item event "event_hash").as_str = some hash ↔
      item event "event_hash" = .string hash := by
    rcases hsimple.event_hash with h | ⟨s, h⟩ <;> simp [h, Value.as_str]
  by_cases h : item event "event_hash" = .string hash
  · rw [if_neg (not_not.mpr (hown.mpr h)), if_pos h]
  · rw [if_pos (mt hown.mp h), if_neg h]
    rfl

/-- A step of the two loops on one event finds the same errors. -/
theorem checkEvent_agrees {rust : authority.ChainState} {python : ChainState}
    (hsame : SameState rust python) (hstr : ∀ s, str (.string s) = s)
    (htext : IsText python.previous) (hprevious : PortableValue python.previous) {event : Dict}
    (hd : (event.map Prod.fst).Nodup) (hsimple : Simple event)
    (hportable : PortableValue (.object event)) (index : Nat) :
    ∃ after, checkEvent sha256 floats str index python event = some after ∧
      SameState (authority.verifyEvent sha256 rust (.object (sortedDict event), index)) after ∧
      after.previous = item event "event_hash" := by
  obtain ⟨seen, hid, hseen⟩ := @checkId_agrees floats str _ _ hsame hstr _ hd hsimple index
  unfold checkEvent
  rw [hid]
  refine ⟨_, rfl, ?_, rfl⟩
  have hlatest := getD_sortedDict hd hsimple.event_hash
  constructor
  · exact hlatest
  · exact hlatest
  · show rust.errors ++ (_ ++ (_ ++ _)) = _
    rw [hsame.errors, @previousHashErrors_eq floats _ _ hsame htext _ hd hsimple,
      @eventHashErrors_eq sha256 floats _ _ hsame htext hprevious _ hd hsimple hportable,
      List.append_assoc, List.append_assoc]
  · exact hseen

/-! ## The events one after another -/

theorem checkFrom_agrees (hstr : ∀ s, str (.string s) = s) {events : List Dict}
    (hevents : ∀ event ∈ events, (event.map Prod.fst).Nodup ∧ Simple event ∧
      PortableValue (.object event)) {rust : authority.ChainState} {python : ChainState}
    (hsame : SameState rust python) (htext : IsText python.previous)
    (hprevious : PortableValue python.previous) (index : Nat) :
    ∃ after, checkFrom sha256 floats str index python events = some after ∧
      SameState (((events.map fun event => Value.object (sortedDict event)).zipIdx index).foldl
        (authority.verifyEvent sha256) rust) after := by
  induction events generalizing rust python index with
  | nil => exact ⟨python, rfl, hsame⟩
  | cons event events ih =>
    obtain ⟨hd, hsimple, hportable⟩ := hevents event List.mem_cons_self
    obtain ⟨next, hnext, hsame', hitem⟩ := @checkEvent_agrees sha256 floats str _ _ hsame hstr
      htext hprevious _ hd hsimple hportable index
    rw [checkFrom, hnext, Option.bind_some, List.map_cons, List.zipIdx_cons, List.foldl_cons]
    apply ih (fun e he => hevents e (List.mem_cons_of_mem _ he)) hsame'
    · rw [hitem]
      exact hsimple.event_hash
    · rw [hitem]
      exact portableValue_item hportable "event_hash"

/-- The report of Python in JSON. -/
def reportValue (report : ChainReport) : Value := .mkObject [
  ("ok", .bool report.ok),
  ("event_count", .number (.int report.event_count)),
  ("latest_event_hash", report.latest_event_hash),
  ("errors", .array (report.errors.map .string))]

section report

variable (report : ChainReport)

theorem get_ok : (reportValue report).get "ok" = some (.bool report.ok) := by
  simp [reportValue, Value.get_mkObject, sorted_map.get_cons]

theorem get_event_count : (reportValue report).get "event_count" =
    some (.number (.int report.event_count)) := by
  simp [reportValue, Value.get_mkObject, sorted_map.get_cons]

theorem get_latest_event_hash : (reportValue report).get "latest_event_hash" =
    some report.latest_event_hash := by
  simp [reportValue, Value.get_mkObject, sorted_map.get_cons]

end report

/-- The broker and Python report the same of the same events, whether these chain or not: the
verdict, the count, the latest hash and the errors, word by word. -/
theorem reports_agree (sha256 : Bytes → Bytes) (f64 : List Char → Option FloatText)
    (hstr : ∀ s, str (.string s) = s) {events : List Dict}
    (hd : (Value.array (events.map .object)).Distinct)
    (hportable : PortableValue (.array (events.map .object)))
    (hsimple : ∀ event ∈ events, Simple event) :
    ∃ received report, valueOf f64 (.array (events.map .object)) = some received ∧
      verify_audit_chain sha256 floats str events = some report ∧
      authority.verify_audit_chain sha256 received = reportValue report := by
  have hevents : ∀ event ∈ events, (event.map Prod.fst).Nodup ∧ Simple event ∧
      PortableValue (.object event) := by
    intro event he
    have hmem : Value.object event ∈ events.map .object := List.mem_map.mpr ⟨event, he, rfl⟩
    exact ⟨(Value.distinct_object.mp (Value.distinct_array.mp hd _ hmem)).1, hsimple event he,
      portableValue_array.mp hportable _ hmem⟩
  have hread : valueOf f64 (.array (events.map .object)) =
      some (.array (events.map fun event => .object (sortedDict event))) := by
    rw [hportable.valueOf_eq, Value.sortKeys, Value.sortItems_eq, List.map_map]
    rfl
  have hstart : SameState ⟨.null, .null, [], []⟩ ⟨.null, [], []⟩ := ⟨rfl, rfl, rfl, by simp⟩
  obtain ⟨after, hafter, hsame⟩ := @checkFrom_agrees sha256 floats str hstr events hevents _ _
    hstart (.inl rfl) portableValue_null 0
  refine ⟨_, _, hread, by rw [verify_audit_chain, hafter]; rfl, ?_⟩
  have hok : after.errors.isEmpty = decide (after.errors = []) := by
    rw [Bool.eq_iff_iff, List.isEmpty_iff, decide_eq_true_iff]
  unfold authority.verify_audit_chain authority.verifyEvents reportValue
  simp only [Value.as_array, hsame.errors, hsame.latest, hok, List.length_map]

/-- An event whose hash is made up, and another one with its id. -/
def forged : List Dict := [
  [("event_hash", .string "made up"), ("event_id", .string "audit-1")],
  [("event_id", .string "audit-1")]]

theorem reports_agree_forged : ∃ received report,
    valueOf (fun _ => none) (.array (forged.map .object)) = some received ∧
      verify_audit_chain fips.digest ⟨some, fun _ => none⟩ (fun v => v.as_str.getD "") forged =
        some report ∧
      authority.verify_audit_chain fips.digest received = reportValue report := by
  have hsimple : ∀ event ∈ forged, Simple event := by
    unfold forged
    simp only [List.forall_mem_cons]
    exact ⟨⟨.inr ⟨_, rfl⟩, by decide, .inr ⟨_, rfl⟩, .inl rfl⟩,
      ⟨.inr ⟨_, rfl⟩, by decide, .inl rfl, .inl rfl⟩, List.forall_mem_nil _⟩
  have htext (s : String) (h : s ∈ ["event_hash", "event_id", "made up", "audit-1"]) :
      AsciiText s := by
    unfold AsciiText
    simp only [List.mem_cons, List.not_mem_nil, or_false] at h
    rcases h with rfl | rfl | rfl | rfl <;> simp
  have hportable : PortableValue (.array (forged.map .object)) := by
    rw [portableValue_array]
    unfold forged
    simp only [List.map_cons, List.map_nil, List.forall_mem_cons, portableValue_object]
    refine ⟨⟨⟨htext _ (by simp), portableValue_string (htext _ (by simp))⟩,
      ⟨htext _ (by simp), portableValue_string (htext _ (by simp))⟩, List.forall_mem_nil _⟩,
      ⟨⟨htext _ (by simp), portableValue_string (htext _ (by simp))⟩, List.forall_mem_nil _⟩,
      List.forall_mem_nil _⟩
  exact reports_agree fips.digest (fun _ => none) (fun _ => rfl) (by decide) hportable hsimple

/-! ## The log of the Python store -/

section store

open shell_core.persistence

variable {host : Host} {disk : Disk StoreFile} {returned : List Dict}

/-- Nothing but the texts of errors depends on how Python prints values. -/
theorem verified_str {str' : Value → String} {events : List Dict}
    (h : Verified sha256 floats str events) : Verified sha256 floats str' events := by
  induction events using List.reverseRecOn with
  | nil => exact verified_nil
  | append_singleton events event ih =>
    obtain ⟨hverified, hlinks⟩ := verified_snoc.mp h
    exact verified_snoc.mpr ⟨ih hverified, hlinks⟩

/-- The report on a chain that verifies. -/
theorem verify_of_verified {events : List Dict} (h : Verified sha256 floats str events) :
    verify_audit_chain sha256 floats str events = some ⟨true, events.length, head events, []⟩ := by
  rw [audit_chain.verify_audit_chain, checkFrom_of_verified h]
  rfl

theorem simple_of_verified {events : List Dict} (h : Verified sha256 floats str events)
    (hids : ∀ event ∈ events, ∃ id, item event "event_id" = .string id) :
    ∀ event ∈ events, Simple event := by
  induction events using List.reverseRecOn with
  | nil => exact List.forall_mem_nil _
  | append_singleton events event ih =>
    obtain ⟨hverified, hlinks⟩ := verified_snoc.mp h
    intro e he
    rcases List.mem_append.mp he with he | he
    · exact ih hverified (fun e he => hids e (List.mem_append_left _ he)) e he
    · rw [List.mem_singleton.mp he]
      have hid := hids event (List.mem_append_right _ (List.mem_singleton_self _))
      refine ⟨.inr hid, ?_, ?_, ?_⟩
      · intro hempty
        have htruthy := hlinks.truthy_id
        rw [hempty] at htruthy
        cases htruthy
      · have hown := hlinks.own_hash
        rw [item_chain_event_hash, eq_string_iff] at hown
        exact .inr ⟨_, hown⟩
      · have hhead := head_of_verified hverified
        rw [(eq_isText_iff hhead).mp hlinks.previous_hash]
        exact hhead

/-- An event with a text as its id that both languages write alike. -/
structure Sendable (event : Dict) : Prop where
  text_id : ∃ id, item event "event_id" = .string id
  portable : PortableValue (.object event)

theorem Sendable.hashable {event : Dict} (h : Sendable event) : HashableId event := by
  obtain ⟨id, hid⟩ := h.text_id
  rw [HashableId, hid]
  rfl

theorem runs_mono {allowed allowed' : Dict → Prop}
    (hallowed : ∀ event, allowed event → allowed' event) (h : Runs host allowed disk returned) :
    Runs host allowed' disk returned := by
  induction h with
  | empty => exact .empty
  | accepted _ hheld hevent happend ih => exact .accepted ih hheld (hallowed _ hevent) happend
  | rejected _ hheld happend ih => exact .rejected ih hheld happend

theorem asciiText_canonical_hash (v : Value) : AsciiText (canonical_hash sha256 v) := by
  unfold AsciiText canonical_hash
  intro c hc
  rw [String.toList_append, List.mem_append] at hc
  rcases hc with hc | hc
  · revert c
    simp
  · rw [hex.encode, String.toList_ofList] at hc
    have hle (d : Char) (hcd : c ≤ d) : c.toNat ≤ d.toNat := hcd
    rcases hex.digits_chars _ c hc with ⟨-, hle9⟩ | ⟨-, hlef⟩
    · exact Nat.lt_of_le_of_lt (hle _ hle9) (by decide)
    · exact Nat.lt_of_le_of_lt (hle _ hlef) (by decide)

theorem portableValue_head {events : List Dict}
    (h : ∀ event ∈ events, PortableValue (.object event)) : PortableValue (head events) := by
  unfold head
  cases hlast : events.getLast? with
  | none => exact portableValue_null
  | some event => exact portableValue_item (h event (List.mem_of_getLast? hlast)) "event_hash"

theorem portableValue_chain_event {event : Dict} {previous : Value}
    (h : PortableValue (.object event)) (hprevious : PortableValue previous) :
    PortableValue (.object (chain_event sha256 event previous)) := by
  have hhashed := portableValue_hashed h hprevious
  rw [portableValue_object] at hhashed ⊢
  rw [chain_event_eq]
  intro e he
  rcases dict.mem_setItem he with rfl | hmem
  · refine ⟨?_, portableValue_string (asciiText_canonical_hash _)⟩
    unfold AsciiText
    simp
  · exact hhashed e hmem

/-- What the log holds after a run can be sent. -/
theorem sendable_of_runs (h : Runs host Sendable disk returned) :
    ∀ chained ∈ returned, Sendable (sortedDict chained) := by
  induction h with
  | empty => exact List.forall_mem_nil _
  | @accepted disk disk' returned event chained hruns hheld hevent happend ih =>
    have hgood := (runs_mono (fun _ h => Sendable.hashable h) hruns).good
    have hafter := hgood.append hheld hevent.hashable happend
    have hnodup := (hafter.held chained (by simp)).keys _ List.mem_cons_self
    rcases append_cases happend with ⟨e, he⟩ | ⟨l, key', hadmits, -, hok⟩ | ⟨l, e, -, -, he⟩
    · cases he
    · obtain ⟨rfl, -⟩ := (EStateM.Result.ok.injEq ..).mp hok
      obtain rfl := hadmits.sound.unique hgood.sound
      intro c hc
      rcases List.mem_append.mp hc with hc | hc
      · exact ih c hc
      · rw [List.mem_singleton.mp hc]
        obtain ⟨id, hid⟩ := hevent.text_id
        constructor
        · refine ⟨id, ?_⟩
          rw [item_sortedDict hnodup, chainedOn, item_chain_event_id, hid]
          rfl
        · have hhead : PortableValue (head (returned.map sortedDict)) := by
            apply portableValue_head
            intro e he
            obtain ⟨c, hc, rfl⟩ := List.mem_map.mp he
            exact (ih c hc).portable
          exact (portableValue_chain_event hevent.portable hhead).sortKeys
    · cases he
  | rejected _ _ _ ih => exact ih

/-- The broker accepts the log of the Python store after any calls of append from an empty
directory that take in events with texts as their ids that both languages write alike. Its report
counts the events that the calls returned and names the hash of the last one. -/
theorem broker_accepts_log (host : Host) (f64 : List Char → Option FloatText)
    (h : Runs host Sendable disk returned) : ∃ events received,
      audit_events host disk = .ok events disk ∧
      valueOf f64 (.array (events.map .object)) = some received ∧
      (authority.verify_audit_chain host.sha256 received).get "ok" = some (.bool true) ∧
      (authority.verify_audit_chain host.sha256 received).get "event_count" =
        some (.number (.int returned.length)) ∧
      (authority.verify_audit_chain host.sha256 received).get "latest_event_hash" =
        some (head events) := by
  have hgood := (runs_mono (fun _ h => Sendable.hashable h) h).good
  have hsendable : ∀ event ∈ returned.map sortedDict, Sendable event := by
    intro e he
    obtain ⟨c, hc, rfl⟩ := List.mem_map.mp he
    exact sendable_of_runs h c hc
  have hread : audit_events host disk = .ok (returned.map sortedDict) disk := by
    have hwp : wp (audit_events host) (fun l d => l = returned.map sortedDict ∧ d = disk)
        (fun _ => False) disk := by
      rw [wp_audit_events, hgood.sound.events]
      exact ⟨rfl, rfl⟩
    obtain ⟨l, d, hrun, rfl, rfl⟩ := wp.total hwp
    exact hrun
  have hverified : Verified host.sha256 host.floats (fun v => v.as_str.getD "")
      (returned.map sortedDict) := verified_str hgood.sound.verified
  have hd : (Value.array ((returned.map sortedDict).map .object)).Distinct := by
    rw [Value.distinct_array]
    intro v hv
    obtain ⟨e, he, rfl⟩ := List.mem_map.mp hv
    obtain ⟨c, hc, rfl⟩ := List.mem_map.mp he
    exact (hgood.held c hc).sortKeys.keys
  have hportable : PortableValue (.array ((returned.map sortedDict).map .object)) := by
    rw [portableValue_array]
    intro v hv
    obtain ⟨e, he, rfl⟩ := List.mem_map.mp hv
    exact (hsendable e he).portable
  have hsimple := simple_of_verified hverified fun e he => (hsendable e he).text_id
  obtain ⟨received, report, hreceived, hreport, hsame⟩ :=
    @reports_agree host.floats (fun v => v.as_str.getD "") host.sha256 f64 (fun _ => rfl) _ hd
      hportable hsimple
  rw [verify_of_verified hverified, Option.some.injEq] at hreport
  refine ⟨_, received, hread, hreceived, ?_⟩
  rw [hsame, ← hreport, get_ok, get_event_count, get_latest_event_hash, List.length_map]
  exact ⟨rfl, rfl, rfl⟩

theorem sendable_idEvent {s : String} (h : AsciiText s) : Sendable (idEvent s) := by
  have hkey : AsciiText "event_id" := by
    unfold AsciiText
    simp
  refine ⟨⟨_, rfl⟩, portableValue_object.mpr ?_⟩
  unfold idEvent
  simp only [List.forall_mem_cons]
  exact ⟨⟨hkey, portableValue_string h⟩, List.forall_mem_nil _⟩

theorem broker_accepts_second_log : ∃ second disk' events received,
    append_audit_event digestHost (idEvent "audit-2") (firstLog digestHost) = .ok second disk' ∧
      audit_events digestHost disk' = .ok events disk' ∧
      valueOf (fun _ => none) (.array (events.map .object)) = some received ∧
      (authority.verify_audit_chain digestHost.sha256 received).get "ok" = some (.bool true) ∧
      (authority.verify_audit_chain digestHost.sha256 received).get "event_count" =
        some (.number (.int 2)) := by
  have hfirst : AsciiText "audit-1" := by
    unfold AsciiText
    simp
  have hsecond : AsciiText "audit-2" := by
    unfold AsciiText
    simp
  obtain ⟨second, disk', happend, hruns⟩ :=
    @runs_two digestHost Sendable (sendable_idEvent hfirst) (sendable_idEvent hsecond)
  obtain ⟨events, received, hread, hvalue, hok, hcount, -⟩ :=
    broker_accepts_log digestHost (fun _ => none) hruns
  exact ⟨second, disk', events, received, happend, hread, hvalue, hok, hcount⟩

end store

end audit_chain_parity
