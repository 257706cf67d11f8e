-- The audit chain of JSON events that authority.rs verifies. Each event holds the hash of
-- its own canonical text, which names the hash of the event before it. So the latest hash
-- of a chain that verifies gives back every field of every event.
import GuiShell.Broker.Canonical
import GuiShell.HashChain
import Mathlib.Data.List.Induction

open json serde_json

namespace authority

variable (sha256 : Bytes → Bytes)

/-! ## The verifier -/

/-- What the loop of `verify_audit_chain` keeps. -/
structure ChainState where
  previous : Value
  latest : Value
  errors : List String
  seen_event_ids : List String

/-- The event that is hashed: the event itself without its hash, and with the hash of the
event before it. -/
def expected_object (object : List (String × Value)) (previous : Value) : Value :=
  .object (sorted_map.insert "previous_event_hash" previous (sorted_map.erase "event_hash" object))

/-- The error for the id of the event at `index`, if there is one. -/
def eventIdErrors (state : ChainState) (index : Nat) (object : List (String × Value)) :
    List String :=
  match (sorted_map.get "event_id" object).bind Value.as_str with
  | some event_id =>
    if event_id ∈ state.seen_event_ids then
      [s!"event {index} の event_id {event_id} が重複しています"]
    else []
  | none => [s!"event {index} に event_id がありません"]

def previousHashErrors (state : ChainState) (index : Nat) (object : List (String × Value)) :
    List String :=
  if (sorted_map.get "previous_event_hash" object).getD .null ≠ state.previous then
    [s!"event {index} の previous hash が一致しません"]
  else []

def eventHashErrors (state : ChainState) (index : Nat) (object : List (String × Value)) :
    List String :=
  let expected_hash := canonical_hash sha256 (expected_object object state.previous)
  if (sorted_map.get "event_hash" object).bind Value.as_str ≠ some expected_hash then
    [s!"event {index} の hash が一致しません"]
  else []

/-- The step of the loop for the event at `index`. -/
def verifyEvent (state : ChainState) (event : Value × Nat) : ChainState :=
  match event.1.as_object with
  | none =>
    { state with errors := state.errors ++ [s!"event {event.2}がobjectではない"] }
  | some object =>
    let latest := (sorted_map.get "event_hash" object).getD .null
    { previous := latest
      latest := latest
      errors := state.errors ++ (eventIdErrors state event.2 object ++
        (previousHashErrors state event.2 object ++ eventHashErrors sha256 state event.2 object))
      seen_event_ids :=
        ((sorted_map.get "event_id" object).bind Value.as_str).toList ++ state.seen_event_ids }

def verifyEvents (events : List Value) : ChainState :=
  events.zipIdx.foldl (verifyEvent sha256) ⟨.null, .null, [], []⟩

def verify_audit_chain (events : Value) : Value :=
  match events.as_array with
  | none => .mkObject [("ok", .bool false), ("event_count", .number (.int 0)),
      ("latest_event_hash", .null), ("errors", .array [.string "audit events must be an array"])]
  | some events =>
    let state := verifyEvents sha256 events
    .mkObject [("ok", .bool state.errors.isEmpty), ("event_count", .number (.int events.length)),
      ("latest_event_hash", state.latest), ("errors", .array (state.errors.map .string))]

/-! ## A chain that verifies -/

/-- The hash that an event holds. -/
def eventHash (event : Value) : Value := (event.get "event_hash").getD .null

/-- The hash of the event before it, as the event tells it. -/
def previousHash (event : Value) : Value := (event.get "previous_event_hash").getD .null

/-- A field of an event. A previous hash that is missing counts as `null`. -/
def eventField (event : Value) (k : String) : Option Value :=
  if k = "previous_event_hash" then some (previousHash event) else event.get k

/-- An object that holds the hash of its own canonical text. -/
def SelfHashed (event : Value) : Prop :=
  ∃ object, event = .object object ∧
    eventHash event = .string (canonical_hash sha256 (expected_object object (previousHash event)))

variable {sha256}

theorem verifyEvents_snoc (events : List Value) (event : Value) :
    verifyEvents sha256 (events ++ [event]) =
      verifyEvent sha256 (verifyEvents sha256 events) (event, events.length) := by
  simp [verifyEvents, List.zipIdx_append]

/-- A step with no new error saw an object that names the previous hash and holds its own. -/
theorem verifyEvent.spec {state : ChainState} {event : Value} {index : Nat}
    (h : (verifyEvent sha256 state (event, index)).errors = []) :
    state.errors = [] ∧ SelfHashed sha256 event ∧ previousHash event = state.previous ∧
      (verifyEvent sha256 state (event, index)).previous = eventHash event ∧
      (verifyEvent sha256 state (event, index)).latest = eventHash event := by
  unfold verifyEvent at h ⊢
  dsimp only at h ⊢
  rcases hobj : event.as_object with _ | object
  · rw [hobj] at h
    simp at h
  · obtain rfl := Value.as_object_eq_some hobj
    rw [hobj] at h
    simp only [List.append_eq_nil_iff] at h
    obtain ⟨hstate, _, hprev, hhash⟩ := h
    have hprev : previousHash (.object object) = state.previous := by
      unfold previousHashErrors at hprev
      split at hprev
      · cases hprev
      · exact not_not.mp ‹_›
    have hhash : (sorted_map.get "event_hash" object).bind Value.as_str =
        some (canonical_hash sha256 (expected_object object state.previous)) := by
      unfold eventHashErrors at hhash
      dsimp only at hhash
      split at hhash
      · cases hhash
      · exact not_not.mp ‹_›
    refine ⟨hstate, ⟨object, rfl, ?_⟩, hprev, rfl, rfl⟩
    obtain ⟨v, hv, hs⟩ := Option.bind_eq_some_iff.mp hhash
    rw [eventHash, Value.get, hv, hprev, Option.getD_some]
    exact Value.as_str_eq_some hs

theorem verifyEvents.spec {events : List Value} (h : (verifyEvents sha256 events).errors = []) :
    hash_chain.Chained previousHash eventHash .null events ∧
      (∀ event ∈ events, SelfHashed sha256 event) ∧
      (verifyEvents sha256 events).previous = hash_chain.head eventHash .null events ∧
      (verifyEvents sha256 events).latest = hash_chain.head eventHash .null events := by
  induction events using List.reverseRecOn with
  | nil => exact ⟨.nil, by simp, rfl, rfl⟩
  | append_singleton events event ih =>
    rw [verifyEvents_snoc] at h ⊢
    obtain ⟨hstate, hself, hprev, hprevious, hlatest⟩ := verifyEvent.spec h
    obtain ⟨hchain, hall, hhead, _⟩ := ih hstate
    rw [hash_chain.head_snoc]
    refine ⟨hchain.snoc (hprev.trans hhead), fun e he => ?_, hprevious, hlatest⟩
    rcases List.mem_append.mp he with he | he
    · exact hall e he
    · rwa [List.mem_singleton.mp he]

/-- What the verifier reports of an array. -/
theorem verify_audit_chain.spec (events : List Value) :
    ((verify_audit_chain sha256 (.array events)).get "ok" = some (.bool true) ↔
      (verifyEvents sha256 events).errors = []) ∧
      (verify_audit_chain sha256 (.array events)).get "latest_event_hash" =
        some (verifyEvents sha256 events).latest := by
  constructor
  · rw [verify_audit_chain]
    dsimp only [Value.as_array]
    rw [Value.get_mkObject]
    simp [sorted_map.get]
  · rw [verify_audit_chain]
    dsimp only [Value.as_array]
    rw [Value.get_mkObject]
    simp [sorted_map.get]

/-! ## What a hash binds -/

theorem sorted_expected_object {object : List (String × Value)} {previous : Value}
    (h : Value.Sorted (.object object)) (hp : previous.Sorted) :
    (expected_object object previous).Sorted := by
  obtain ⟨hs, hf⟩ := h
  rw [Value.sortedFields_iff] at hf
  refine ⟨(hs.erase _).insert _ _, (Value.sortedFields_iff _).mpr fun k v hkv => ?_⟩
  rcases sorted_map.mem_insert hkv with he | he
  · cases he
    exact hp
  · exact hf k v ((sorted_map.erase_sublist _ _).subset he)

theorem sorted_previousHash {event : Value} (h : event.Sorted) : (previousHash event).Sorted := by
  rw [previousHash]
  rcases hg : event.get "previous_event_hash" with _ | v
  · trivial
  · cases event with
    | object fields =>
      obtain ⟨_, hf⟩ := h
      exact (Value.sortedFields_iff _).mp hf _ _ (sorted_map.mem_of_get hg)
    | _ => simp [Value.get] at hg

/-- Events with one hash agree on every field. -/
theorem SelfHashed.binding (hsha : Function.Injective sha256) {a b : Value} (ha : a.Sorted)
    (hb : b.Sorted) (hsa : SelfHashed sha256 a) (hsb : SelfHashed sha256 b)
    (h : eventHash a = eventHash b) :
    eventField a = eventField b ∧ previousHash a = previousHash b := by
  obtain ⟨fa, rfl, hha⟩ := hsa
  obtain ⟨fb, rfl, hhb⟩ := hsb
  have hsame := h
  rw [hha, hhb, Value.string.injEq] at hsame
  have hobj := canonical_hash_inj hsha (sorted_expected_object ha (sorted_previousHash ha))
    (sorted_expected_object hb (sorted_previousHash hb)) hsame
  rw [expected_object, expected_object, Value.object.injEq] at hobj
  have hget : ∀ k, (if "previous_event_hash" = k then some (previousHash (.object fa)) else
      if "event_hash" = k then none else sorted_map.get k fa) =
      if "previous_event_hash" = k then some (previousHash (.object fb)) else
        if "event_hash" = k then none else sorted_map.get k fb := by
    intro k
    have := congrArg (sorted_map.get k) hobj
    rwa [sorted_map.get_insert, sorted_map.get_insert, sorted_map.get_erase,
      sorted_map.get_erase] at this
  have hprev : previousHash (.object fa) = previousHash (.object fb) := by
    simpa using hget "previous_event_hash"
  refine ⟨funext fun k => ?_, hprev⟩
  unfold eventField
  split
  · rw [hprev]
  · rename_i hk
    by_cases hk' : "event_hash" = k
    · subst hk'
      rcases hga : Value.get (.object fa) "event_hash" with _ | va
      · rw [eventHash, hga] at hha
        cases hha
      · rcases hgb : Value.get (.object fb) "event_hash" with _ | vb
        · rw [eventHash, hgb] at hhb
          cases hhb
        · rw [eventHash, eventHash, hga, hgb] at h
          exact congrArg some h
    · simpa [Ne.symm hk, hk', Value.get] using hget k

/-- The latest hash of a chain that verifies binds the chain: another chain that verifies
with it has as many events, and each event has the same fields. -/
theorem one_latest_hash_one_chain (hsha : Function.Injective sha256) {l m : List SerdeValue}
    (hl : (verify_audit_chain sha256 (.array (l.map Subtype.val))).get "ok" = some (.bool true))
    (hm : (verify_audit_chain sha256 (.array (m.map Subtype.val))).get "ok" = some (.bool true))
    (h : (verify_audit_chain sha256 (.array (l.map Subtype.val))).get "latest_event_hash" =
      (verify_audit_chain sha256 (.array (m.map Subtype.val))).get "latest_event_hash") :
    l.length = m.length ∧ ∀ (i : Nat) (hi : i < l.length) (hj : i < m.length) (k : String),
      eventField l[i].val k = eventField m[i].val k := by
  obtain ⟨hcl, hsl, _, hll⟩ := verifyEvents.spec ((verify_audit_chain.spec _).1.mp hl)
  obtain ⟨hcm, hsm, _, hlm⟩ := verifyEvents.spec ((verify_audit_chain.spec _).1.mp hm)
  have hsorted : ∀ (n : List SerdeValue), ∀ v ∈ n.map Subtype.val, v.Sorted := by
    intro n v hv
    obtain ⟨⟨w, hw⟩, _, rfl⟩ := List.mem_map.mp hv
    exact hw
  -- A hash is a string, so it is not the `null` that the first event names.
  have hnull : ∀ v, SelfHashed sha256 v → eventHash v ≠ .null := by
    rintro v ⟨_, _, hv⟩ hn
    rw [hv] at hn
    cases hn
  have hmap : (l.map Subtype.val).map eventField = (m.map Subtype.val).map eventField := by
    refine hcl.binding hcm (fun a ha b hb hab => ?_) (fun _ c hc => ?_) ?_
    · exact SelfHashed.binding hsha (hsorted l a ha) (hsorted m b hb) (hsl a ha) (hsm b hb) hab
    · rcases List.mem_append.mp hc with hc | hc
      · exact hnull c (hsl c hc)
      · exact hnull c (hsm c hc)
    · rw [(verify_audit_chain.spec _).2, (verify_audit_chain.spec _).2, Option.some.injEq] at h
      rw [← hll, ← hlm, h]
  refine ⟨by simpa using congrArg List.length hmap, fun i hi hj k => ?_⟩
  have := congrArg (·[i]?) hmap
  simp only [List.map_map, List.getElem?_map, List.getElem?_eq_getElem hi,
    List.getElem?_eq_getElem hj, Option.map_some, Function.comp_apply, Option.some.injEq] at this
  exact congrFun this k

/-- The fields of an event that are hashed. -/
def coreOf (event_id : String) (previous : Value) : List (String × Value) :=
  [("event_id", .string event_id), ("previous_event_hash", previous)]

/-- The fields of a first event, and of an event that follows it. -/
def firstCore : List (String × Value) := coreOf "event-1" .null

def secondCore (sha256 : Bytes → Bytes) : List (String × Value) :=
  coreOf "event-2" (.string (canonical_hash sha256 (.object firstCore)))

def textOfCore (core : List (String × Value)) : Bytes :=
  utf8.encode (.ofList (canonical_json (.object core)))

/-- A digest that is the real one on the texts of the two events, and injective. -/
def chainDigest : Bytes → Bytes :=
  fips.pinned [textOfCore firstCore, textOfCore (secondCore fips.digest)]

theorem chainDigest_injective : Function.Injective chainDigest := by
  have hne : fips.digest (textOfCore firstCore) ≠
      fips.digest (textOfCore (secondCore fips.digest)) := by decide +kernel
  refine fips.pinned_injective fun a ha b hb hab => ?_
  simp only [List.mem_cons, List.not_mem_nil, or_false] at ha hb
  rcases ha with ha | ha
  · rcases hb with hb | hb
    · rw [ha, hb]
    · rw [ha, hb] at hab
      exact absurd hab hne
  · rcases hb with hb | hb
    · rw [ha, hb] at hab
      exact absurd hab.symm hne
    · rw [ha, hb]

def hashedFields (sha256 : Bytes → Bytes) (core : List (String × Value)) : List (String × Value) :=
  ("event_hash", .string (canonical_hash sha256 (.object core))) :: core

theorem sorted_hashedFields {sha256 : Bytes → Bytes} {event_id : String} {previous : Value}
    (h : previous.Sorted) :
    (Value.object (hashedFields sha256 (coreOf event_id previous))).Sorted := by
  have hkeys : (["event_hash", "event_id", "previous_event_hash"] : List String).Pairwise
      (· < ·) := by decide
  exact ⟨List.pairwise_map.mp hkeys, trivial, trivial, h, trivial⟩

theorem expected_object_hashed (sha256 : Bytes → Bytes) (event_id : String) (previous : Value) :
    expected_object (hashedFields sha256 (coreOf event_id previous)) previous =
      .object (coreOf event_id previous) := by
  have herase : sorted_map.erase "event_hash" (hashedFields sha256 (coreOf event_id previous)) =
      coreOf event_id previous := by
    simp [hashedFields, coreOf, sorted_map.erase]
  have hlt : ¬ "previous_event_hash" < "event_id" := by decide
  have hne : ¬ "previous_event_hash" = "event_id" := by decide
  rw [expected_object, herase, coreOf, sorted_map.insert, if_neg hlt, if_neg hne,
    sorted_map.insert, if_neg (lt_irrefl _), if_pos rfl]

/-- An event with its own hash, after the event whose hash it names. -/
theorem verifyEvent_hashed {sha256 : Bytes → Bytes} {previous latest : Value} {seen : List String}
    {event_id : String} (hnew : event_id ∉ seen) (index : Nat) :
    (verifyEvent sha256 ⟨previous, latest, [], seen⟩
        (.object (hashedFields sha256 (coreOf event_id previous)), index)) =
      ⟨.string (canonical_hash sha256 (.object (coreOf event_id previous))),
        .string (canonical_hash sha256 (.object (coreOf event_id previous))), [],
        event_id :: seen⟩ := by
  have hexpected := expected_object_hashed sha256 event_id previous
  unfold verifyEvent eventIdErrors previousHashErrors eventHashErrors
  simp [Value.as_object, hexpected]
  simp [hashedFields, coreOf, sorted_map.get, Value.as_str, hnew]

/-- Two events of which each has its own hash, and the second the hash of the first. -/
def twoEvents (sha256 : Bytes → Bytes) : List SerdeValue := [
  ⟨.object (hashedFields sha256 firstCore), sorted_hashedFields trivial⟩,
  ⟨.object (hashedFields sha256 (secondCore sha256)), sorted_hashedFields trivial⟩]

/-- Such events verify, for every digest. -/
theorem twoEvents_ok (sha256 : Bytes → Bytes) :
    (verify_audit_chain sha256 (.array ((twoEvents sha256).map Subtype.val))).get "ok" =
      some (.bool true) := by
  refine (verify_audit_chain.spec _).1.mpr ?_
  have hsecond : "event-2" ∉ ["event-1"] := by decide
  unfold verifyEvents twoEvents firstCore secondCore firstCore
  simp only [List.map_cons, List.map_nil, List.zipIdx_cons, List.zipIdx_nil, List.foldl_cons,
    List.foldl_nil]
  rw [verifyEvent_hashed List.not_mem_nil, verifyEvent_hashed hsecond]

theorem one_latest_hash_two_events : (twoEvents chainDigest).length =
      (twoEvents chainDigest).length ∧
    ∀ (i : Nat) (hi : i < (twoEvents chainDigest).length)
      (hj : i < (twoEvents chainDigest).length) (k : String),
      eventField ((twoEvents chainDigest).get ⟨i, hi⟩).val k =
        eventField ((twoEvents chainDigest).get ⟨i, hj⟩).val k :=
  one_latest_hash_one_chain chainDigest_injective (twoEvents_ok chainDigest)
    (twoEvents_ok chainDigest) rfl

end authority
