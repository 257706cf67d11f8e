-- The audit chain of the Python shell (audit_chain.py): each event holds the hash of the event
-- before it and its own hash. The check goes on after an error and collects them all.
import GuiShell.CheckedRun
import GuiShell.ShellCore.CanonicalHash
import GuiShell.ShellCore.PythonValues
import Mathlib.Data.List.Induction

open json

namespace shell_core

/-- The items of a dict with string keys. -/
abbrev Dict := List (String × Value)

/-- `get` of an event, with the default None. -/
def item (event : Dict) (field : String) : Value := (sorted_map.get field event).getD .null

namespace audit_chain

/-! ## The chain -/

def chain_event (sha256 : Bytes → Bytes) (event : Dict) (previous_event_hash : Value) : Dict :=
  let chained := dict.setItem "previous_event_hash" previous_event_hash event
  let chained := sorted_map.erase "event_hash" chained
  dict.setItem "event_hash" (.string (canonical_hash sha256 (.object chained))) chained

/-- What the loop over the events has found so far. -/
structure ChainState where
  previous : Value
  seen_event_ids : List Value
  errors : List String

/-- The result of a check. -/
structure ChainReport where
  ok : Bool
  event_count : Nat
  latest_event_hash : Value
  errors : List String

section check

variable (sha256 : Bytes → Bytes) (floats : Floats) (str : Value → String)

/-- The errors about the id of an event, and the ids seen then. An id that cannot stand in a set
raises. -/
def checkId (index : Nat) (seen_event_ids : List Value) (event_id : Value) :
    Option (List Value × List String) :=
  if !truthy event_id then
    some (seen_event_ids, ["event " ++ Nat.repr index ++ " に event_id がありません"])
  else if !hashable event_id then none
  else if seen_event_ids.any fun seen => eq floats seen event_id then
    some (seen_event_ids, ["event " ++ Nat.repr index ++ " の event_id " ++ str event_id ++
      " が重複しています"])
  else some (seen_event_ids ++ [event_id], [])

def checkEvent (index : Nat) (state : ChainState) (event : Dict) : Option ChainState := do
  let (seen_event_ids, idErrors) ←
    checkId floats str index state.seen_event_ids (item event "event_id")
  let expected := chain_event sha256 (sorted_map.erase "event_hash" event) state.previous
  let previousErrors :=
    if eq floats (item event "previous_event_hash") state.previous then []
    else ["event " ++ Nat.repr index ++ " の previous hash が一致しません"]
  let hashErrors :=
    if eq floats (item event "event_hash") (item expected "event_hash") then []
    else ["event " ++ Nat.repr index ++ " の hash が一致しません"]
  some {
    previous := item event "event_hash"
    seen_event_ids
    errors := state.errors ++ idErrors ++ previousErrors ++ hashErrors }

def checkFrom (index : Nat) (state : ChainState) : List Dict → Option ChainState
  | [] => some state
  | event :: events =>
    (checkEvent sha256 floats str index state event).bind fun state =>
      checkFrom (index + 1) state events

/-- The report on the events, or none when the check raises. -/
def verify_audit_chain (events : List Dict) : Option ChainReport :=
  (checkFrom sha256 floats str 0 ⟨.null, [], []⟩ events).map fun state => {
    ok := state.errors = []
    event_count := events.length
    latest_event_hash := state.previous
    errors := state.errors }

end check

/-! ## What the check accepts -/

variable {sha256 : Bytes → Bytes} {floats : Floats} {str : Value → String}

/-- The hash that the next event holds. -/
def head (events : List Dict) : Value :=
  (events.getLast?.map fun event => item event "event_hash").getD .null

def ids (events : List Dict) : List Value := events.map fun event => item event "event_id"

@[simp] theorem head_snoc (events : List Dict) (event : Dict) :
    head (events ++ [event]) = item event "event_hash" := by
  simp [head]

@[simp] theorem ids_snoc (events : List Dict) (event : Dict) :
    ids (events ++ [event]) = ids events ++ [item event "event_id"] := by
  simp [ids]

/-- The event has a new id and the two hashes that it must have. -/
structure Links (sha256 : Bytes → Bytes) (floats : Floats) (previous : Value) (seen : List Value)
    (event : Dict) : Prop where
  truthy_id : truthy (item event "event_id") = true
  hashable_id : hashable (item event "event_id") = true
  new_id : seen.any (fun seen => eq floats seen (item event "event_id")) = false
  previous_hash : eq floats (item event "previous_event_hash") previous = true
  own_hash : eq floats (item event "event_hash")
    (item (chain_event sha256 (sorted_map.erase "event_hash" event) previous) "event_hash") = true

def Verified (sha256 : Bytes → Bytes) (floats : Floats) (str : Value → String)
    (events : List Dict) : Prop :=
  ∃ report, verify_audit_chain sha256 floats str events = some report ∧ report.ok = true

theorem checkId_eq_nil_iff {index : Nat} {seen seen' : List Value} {event_id : Value} :
    checkId floats str index seen event_id = some (seen', []) ↔
      truthy event_id = true ∧ hashable event_id = true ∧
        seen.any (fun seen => eq floats seen event_id) = false ∧ seen' = seen ++ [event_id] := by
  unfold checkId
  by_cases hid : truthy event_id = true
  · by_cases hhash : hashable event_id = true
    · by_cases hseen : seen.any (fun seen => eq floats seen event_id) = true
      · simp [hid, hhash, hseen]
      · simp [hid, hhash, hseen, eq_comm]
    · simp [hid, hhash]
  · simp [hid]

/-- The check of an event finds no error when there was none before and the event links. -/
theorem checkEvent_eq_nil_iff {index : Nat} {state state' : ChainState} {event : Dict} :
    (checkEvent sha256 floats str index state event = some state' ∧ state'.errors = []) ↔
      state.errors = [] ∧ Links sha256 floats state.previous state.seen_event_ids event ∧
        state' = ⟨item event "event_hash", state.seen_event_ids ++ [item event "event_id"], []⟩ := by
  unfold checkEvent
  simp only [Option.bind_eq_bind, Option.bind_eq_some_iff, Option.some.injEq]
  constructor
  · rintro ⟨⟨⟨seen, idErrors⟩, hid, rfl⟩, herrors⟩
    simp only [List.append_eq_nil_iff, ite_eq_left_iff, List.cons_ne_nil, imp_false,
      Decidable.not_not] at herrors
    obtain ⟨⟨⟨hstate, hidErrors⟩, hprevious⟩, hhash⟩ := herrors
    subst hidErrors
    obtain ⟨htruthy, hhashable, hfresh, hseen⟩ := checkId_eq_nil_iff.mp hid
    refine ⟨hstate, ⟨htruthy, hhashable, hfresh, hprevious, hhash⟩, ?_⟩
    simp [hstate, hprevious, hhash, hseen]
  · rintro ⟨hstate, ⟨htruthy, hhashable, hfresh, hprevious, hhash⟩, rfl⟩
    refine ⟨⟨(_, []), checkId_eq_nil_iff.mpr ⟨htruthy, hhashable, hfresh, rfl⟩, ?_⟩, rfl⟩
    simp [hstate, hprevious, hhash]

theorem checkFrom_eq_run (index : Nat) (state : ChainState) (events : List Dict) :
    checkFrom sha256 floats str index state events =
      checked_run.run (checkEvent sha256 floats str) index state events := by
  induction events generalizing index state with
  | nil => rfl
  | cons event events ih =>
    rw [checkFrom, checked_run.run]
    congr
    funext state'
    exact ih _ _

/-- Without an error the loop knows the last hash and the ids of the events. -/
theorem tracks : checked_run.Tracks (checkEvent sha256 floats str)
    (fun state => state.errors = []) (fun events => ⟨head events, ids events, []⟩)
    (fun events event => Links sha256 floats (head events) (ids events) event) where
  before _ _ _ _ hstep hgood := (checkEvent_eq_nil_iff.mp ⟨hstep, hgood⟩).1
  fits _ events event _ := by
    rw [checkEvent_eq_nil_iff, head_snoc, ids_snoc]
    simp

theorem verified_iff {events : List Dict} :
    Verified sha256 floats str events ↔
      ∃ state, checked_run.run (checkEvent sha256 floats str) 0 ⟨head [], ids [], []⟩ events =
        some state ∧ state.errors = [] := by
  unfold Verified verify_audit_chain
  rw [checkFrom_eq_run]
  simp [head, ids]

theorem verified_nil : Verified sha256 floats str [] := verified_iff.mpr ⟨_, rfl, rfl⟩

/-- The state of the loop after events without an error. -/
theorem checkFrom_of_verified {events : List Dict} (h : Verified sha256 floats str events) :
    checkFrom sha256 floats str 0 ⟨.null, [], []⟩ events =
      some ⟨head events, ids events, []⟩ := by
  rw [checkFrom_eq_run]
  exact (tracks.good_iff.mp (verified_iff.mp h)).1

/-- One more event verifies exactly when it links to a chain that verifies. -/
theorem verified_snoc {events : List Dict} {event : Dict} :
    Verified sha256 floats str (events ++ [event]) ↔
      Verified sha256 floats str events ∧
        Links sha256 floats (head events) (ids events) event := by
  rw [verified_iff, verified_iff]
  exact tracks.good_snoc_iff

/-! ## Events that are chained and read back -/

/-- The dict as it is read back from its text with sorted keys. -/
def sortedDict (event : Dict) : Dict := sorted_map.ofList (Value.sortFields event)

theorem sortKeys_object (event : Dict) :
    (Value.object event).sortKeys = .object (sortedDict event) := rfl

theorem get_sortedDict {event : Dict} (h : (event.map Prod.fst).Nodup) (field : String) :
    sorted_map.get field (sortedDict event) = (sorted_map.get field event).map Value.sortKeys := by
  have hnodup : ((Value.sortFields event).map Prod.fst).Nodup := by
    rw [Value.sortFields_eq, List.map_map]
    exact h
  unfold sortedDict
  rw [sorted_map.get_ofList_of_nodup hnodup, Value.sortFields_eq, sorted_map.get_map]

theorem nodup_sortedDict (event : Dict) : ((sortedDict event).map Prod.fst).Nodup :=
  (sorted_map.sorted_ofList _).nodup

theorem sortKeys_sortKeys (v : Value) : v.sortKeys.sortKeys = v.sortKeys :=
  (sorted_sortKeys v).sortKeys_eq

/-- Dicts with the same items up to sorting are written with one text. -/
theorem sortKeys_object_congr {d e : Dict} (hd : (d.map Prod.fst).Nodup)
    (he : (e.map Prod.fst).Nodup)
    (h : ∀ field, (sorted_map.get field d).map Value.sortKeys =
      (sorted_map.get field e).map Value.sortKeys) :
    (Value.object d).sortKeys = (Value.object e).sortKeys := by
  rw [sortKeys_object, sortKeys_object, Value.object.injEq]
  refine (sorted_map.sorted_ofList _).ext (sorted_map.sorted_ofList _) fun field => ?_
  exact (get_sortedDict hd field).trans ((h field).trans (get_sortedDict he field).symm)

theorem nodup_erase {event : Dict} (h : (event.map Prod.fst).Nodup) (field : String) :
    ((sorted_map.erase field event).map Prod.fst).Nodup :=
  h.sublist ((sorted_map.erase_sublist field event).map _)

/-- The dict that is hashed. -/
def hashed (event : Dict) (previous : Value) : Dict :=
  sorted_map.erase "event_hash" (dict.setItem "previous_event_hash" previous event)

theorem nodup_hashed {event : Dict} (h : (event.map Prod.fst).Nodup) (previous : Value) :
    ((hashed event previous).map Prod.fst).Nodup :=
  nodup_erase (dict.nodup_setItem h _ _) _

theorem get_hashed (event : Dict) (previous : Value) (field : String) :
    sorted_map.get field (hashed event previous) =
      if field = "event_hash" then none
      else if field = "previous_event_hash" then some previous else sorted_map.get field event := by
  unfold hashed
  rw [sorted_map.get_erase, dict.get_setItem]
  by_cases h : field = "event_hash"
  · simp [h]
  · by_cases hp : field = "previous_event_hash"
    · simp [hp]
    · simp [h, hp, Ne.symm h, Ne.symm hp]

theorem chain_event_eq (event : Dict) (previous : Value) :
    chain_event sha256 event previous = dict.setItem "event_hash"
      (.string (canonical_hash sha256 (.object (hashed event previous)))) (hashed event previous) :=
  rfl

theorem nodup_chain_event {event : Dict} (h : (event.map Prod.fst).Nodup) (previous : Value) :
    ((chain_event sha256 event previous).map Prod.fst).Nodup :=
  dict.nodup_setItem (nodup_hashed h previous) _ _

theorem get_chain_event (event : Dict) (previous : Value) (field : String) :
    sorted_map.get field (chain_event sha256 event previous) =
      if field = "event_hash" then
        some (.string (canonical_hash sha256 (.object (hashed event previous))))
      else if field = "previous_event_hash" then some previous else sorted_map.get field event := by
  rw [chain_event_eq, dict.get_setItem, get_hashed]
  by_cases h : field = "event_hash"
  · simp [h]
  · simp [h, Ne.symm h]

theorem item_chain_event_hash (event : Dict) (previous : Value) :
    item (chain_event sha256 event previous) "event_hash" =
      .string (canonical_hash sha256 (.object (hashed event previous))) := by
  unfold item
  rw [get_chain_event, if_pos rfl, Option.getD_some]

theorem item_chain_event_id (event : Dict) (previous : Value) :
    item (chain_event sha256 event previous) "event_id" = item event "event_id" := by
  unfold item
  rw [get_chain_event, if_neg (by simp), if_neg (by simp)]

/-- The hash of a chained event does not change when the event is read back and chained again. -/
theorem canonical_hash_hashed_sortedDict {event : Dict} (h : (event.map Prod.fst).Nodup)
    (previous : Value) :
    canonical_hash sha256 (.object (hashed (sorted_map.erase "event_hash"
        (sortedDict (chain_event sha256 event previous))) previous)) =
      canonical_hash sha256 (.object (hashed event previous)) := by
  unfold canonical_hash dumps
  rw [sortKeys_object_congr (nodup_hashed (nodup_erase (nodup_sortedDict _) _) _)
    (nodup_hashed h previous)]
  intro field
  rw [get_hashed, get_hashed, sorted_map.get_erase, get_sortedDict (nodup_chain_event h previous),
    get_chain_event]
  by_cases hfield : field = "event_hash"
  · simp [hfield]
  · by_cases hp : field = "previous_event_hash"
    · simp [hp]
    · simp [hfield, hp, Ne.symm hfield, Function.comp_def, sortKeys_sortKeys]

theorem item_sortedDict {event : Dict} (h : (event.map Prod.fst).Nodup) (field : String) :
    item (sortedDict event) field = (item event field).sortKeys := by
  unfold item
  rw [get_sortedDict h]
  rcases sorted_map.get field event with _ | v
  · rfl
  · rfl

theorem sortKeys_eq_of_hashable {v : Value} (h : hashable v = true) : v.sortKeys = v := by
  cases v
  all_goals first | rfl | cases h

/-- An event with a new id links when it is chained, written and read back. -/
theorem links_sortedDict_chain_event {event : Dict} (h : (event.map Prod.fst).Nodup)
    {previous : Value} (hprevious : previous.sortKeys = previous)
    (hrefl : eq floats previous previous = true) {seen : List Value}
    (htruthy : truthy (item event "event_id") = true)
    (hhashable : hashable (item event "event_id") = true)
    (hnew : seen.any (fun seen => eq floats seen (item event "event_id")) = false) :
    Links sha256 floats previous seen (sortedDict (chain_event sha256 event previous)) := by
  have hnodup : ((chain_event sha256 event previous).map Prod.fst).Nodup :=
    nodup_chain_event h previous
  have hid : item (sortedDict (chain_event sha256 event previous)) "event_id" =
      item event "event_id" := by
    rw [item_sortedDict hnodup]
    rw [item_chain_event_id, sortKeys_eq_of_hashable hhashable]
  refine ⟨?_, ?_, ?_, ?_, ?_⟩
  · rw [hid]
    exact htruthy
  · rw [hid]
    exact hhashable
  · rw [hid]
    exact hnew
  · have hitem : item (chain_event sha256 event previous) "previous_event_hash" = previous := by
      unfold item
      rw [get_chain_event, if_neg (by simp), if_pos rfl, Option.getD_some]
    rw [item_sortedDict hnodup, hitem, hprevious]
    exact hrefl
  · rw [item_chain_event_hash, canonical_hash_hashed_sortedDict h previous,
      item_sortedDict hnodup, item_chain_event_hash]
    simp [Value.sortKeys]

/-- The head of a chain that verifies is None or a string. -/
theorem head_of_verified {events : List Dict} (h : Verified sha256 floats str events) :
    head events = .null ∨ ∃ hash, head events = .string hash := by
  induction events using List.reverseRecOn with
  | nil => exact .inl rfl
  | append_singleton events event _ =>
    obtain ⟨-, hlinks⟩ := verified_snoc.mp h
    have hown := hlinks.own_hash
    rw [item_chain_event_hash, eq_string_iff] at hown
    exact .inr ⟨_, by rw [head_snoc, hown]⟩

end audit_chain

end shell_core
