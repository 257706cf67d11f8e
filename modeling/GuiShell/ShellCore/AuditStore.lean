-- The audit store in memory (AuditStore in audit_store.py). It chains its events itself: the hash
-- is taken over all that an event brought, while the check of a chain leaves out the field
-- event_hash. So the two agree on the events that bring no such field.
import GuiShell.Sha256
import GuiShell.ShellCore.AuditChain

open json shell_core.audit_chain

namespace shell_core.audit_store

variable (sha256 : Bytes → Bytes) (floats : Floats) (str : Value → String)

/-! ## The store -/

/-- The event with the hash of the event before it, as it is hashed. -/
def toHash (event : Dict) (previous_hash : Value) : Dict :=
  dict.setItem "previous_event_hash" previous_hash event

/-- The event as it is stored. -/
def storedEvent (event : Dict) (previous_hash : Value) : Dict :=
  let stored := toHash event previous_hash
  dict.setItem "event_hash" (.string (canonical_hash sha256 (.object stored))) stored

/-- The event that is returned and the events of the store then, or the text of a ValueError. -/
def append (events : List Dict) (event : Dict) : Except String (Dict × List Dict) :=
  let event_id := item event "event_id"
  if truthy event_id = false then .error "audit event_id は必須です"
  else if events.any fun stored => eq floats (item stored "event_id") event_id then
    .error ("重複した audit event_id です: " ++ str event_id)
  else
    let stored := storedEvent sha256 event (head events)
    .ok (stored, events ++ [stored])

/-- A store in the course of its calls: the events that it took in, as they were given, and the
events that it holds. -/
structure Course where
  given : List Dict
  events : List Dict

/-- One more call. What the caller sees of a refused one is the exception only. -/
def Course.append (course : Course) (event : Dict) : Course :=
  match audit_store.append sha256 floats str course.events event with
  | .ok (_, events) => ⟨course.given ++ [event], events⟩
  | .error _ => course

/-- The store after a sequence of calls. -/
def appendAll (calls : List Dict) : Course :=
  calls.foldl (Course.append sha256 floats str) ⟨[], []⟩

variable {sha256 floats str} {events : List Dict} {event : Dict} {previous : Value}

/-! ## What is stored -/

theorem nodup_toHash (h : (event.map Prod.fst).Nodup) (previous : Value) :
    ((toHash event previous).map Prod.fst).Nodup := dict.nodup_setItem h _ _

theorem nodup_storedEvent (h : (event.map Prod.fst).Nodup) (previous : Value) :
    ((storedEvent sha256 event previous).map Prod.fst).Nodup :=
  dict.nodup_setItem (nodup_toHash h previous) _ _

theorem get_toHash (field : String) :
    sorted_map.get field (toHash event previous) =
      if field = "previous_event_hash" then some previous else sorted_map.get field event := by
  unfold toHash
  rw [dict.get_setItem]
  by_cases h : field = "previous_event_hash"
  · simp [h]
  · simp [h, Ne.symm h]

theorem get_storedEvent (field : String) :
    sorted_map.get field (storedEvent sha256 event previous) =
      if field = "event_hash" then
        some (.string (canonical_hash sha256 (.object (toHash event previous))))
      else sorted_map.get field (toHash event previous) := by
  unfold storedEvent
  rw [dict.get_setItem]
  by_cases h : field = "event_hash"
  · simp [h]
  · simp [h, Ne.symm h]

theorem item_storedEvent_id :
    item (storedEvent sha256 event previous) "event_id" = item event "event_id" := by
  unfold item
  rw [get_storedEvent, if_neg (by simp), get_toHash, if_neg (by simp)]

theorem item_storedEvent_previous :
    item (storedEvent sha256 event previous) "previous_event_hash" = previous := by
  unfold item
  rw [get_storedEvent, if_neg (by simp), get_toHash, if_pos rfl, Option.getD_some]

theorem item_storedEvent_hash :
    item (storedEvent sha256 event previous) "event_hash" =
      .string (canonical_hash sha256 (.object (toHash event previous))) := by
  unfold item
  rw [get_storedEvent, if_pos rfl, Option.getD_some]

/-- What a caller gives is kept, but for the two fields of the chain. -/
def KeepsFields (event stored : Dict) : Prop :=
  ∀ field, field ≠ "previous_event_hash" → field ≠ "event_hash" →
    sorted_map.get field stored = sorted_map.get field event

theorem keepsFields_storedEvent : KeepsFields event (storedEvent sha256 event previous) := by
  intro field hprevious hhash
  rw [get_storedEvent, if_neg hhash, get_toHash, if_neg hprevious]

/-! ## The check of the chain -/

/-- The hash that the check expects of a stored event. -/
def expectedHash (sha256 : Bytes → Bytes) (event : Dict) (previous : Value) : String :=
  canonical_hash sha256
    (.object (hashed (sorted_map.erase "event_hash" (storedEvent sha256 event previous)) previous))

/-- What the check hashes is what was hashed without the field event_hash. -/
theorem get_hashed_storedEvent (field : String) :
    sorted_map.get field
        (hashed (sorted_map.erase "event_hash" (storedEvent sha256 event previous)) previous) =
      if field = "event_hash" then none else sorted_map.get field (toHash event previous) := by
  rw [get_hashed, sorted_map.get_erase, get_storedEvent, get_toHash]
  by_cases hhash : field = "event_hash"
  · simp [hhash]
  · by_cases hprevious : field = "previous_event_hash"
    · simp [hprevious]
    · simp [hhash, hprevious, Ne.symm hhash]

/-- The event brings no hash of its own. -/
def NoHash (event : Dict) : Prop := sorted_map.get "event_hash" event = none

theorem expectedHash_of_noHash (hdict : (event.map Prod.fst).Nodup) (h : NoHash event) :
    expectedHash sha256 event previous =
      canonical_hash sha256 (.object (toHash event previous)) := by
  unfold expectedHash canonical_hash dumps
  rw [sortKeys_object_congr (nodup_hashed (nodup_erase (nodup_storedEvent hdict _) _) _)
    (nodup_toHash hdict previous)]
  intro field
  rw [get_hashed_storedEvent]
  by_cases hhash : field = "event_hash"
  · subst hhash
    rw [if_pos rfl, get_toHash, if_neg (by simp), h]
  · rw [if_neg hhash]

/-- Without collisions of the digest the check finds out an event that brought a hash. -/
theorem noHash_of_expectedHash (hsha : Function.Injective sha256)
    (hdict : (event.map Prod.fst).Nodup)
    (h : expectedHash sha256 event previous =
      canonical_hash sha256 (.object (toHash event previous))) : NoHash event := by
  have hsorted := approval_queue.sortKeys_of_canonical_hash hsha h
  rw [sortKeys_object, sortKeys_object, Value.object.injEq] at hsorted
  have hget := congrArg (sorted_map.get "event_hash") hsorted
  rw [get_sortedDict (nodup_hashed (nodup_erase (nodup_storedEvent hdict _) _) _),
    get_sortedDict (nodup_toHash hdict previous), get_hashed_storedEvent, if_pos rfl, get_toHash,
    if_neg (by simp)] at hget
  exact Option.map_eq_none_iff.mp hget.symm

/-- A stored event links when its id can stand in a set and its hash is the expected one. -/
theorem links_storedEvent_iff (hprevious : previous = .null ∨ ∃ hash, previous = .string hash)
    {seen : List Value} (htruthy : truthy (item event "event_id") = true)
    (hnew : seen.any (fun seen => eq floats seen (item event "event_id")) = false) :
    Links sha256 floats previous seen (storedEvent sha256 event previous) ↔
      hashable (item event "event_id") = true ∧ expectedHash sha256 event previous =
        canonical_hash sha256 (.object (toHash event previous)) := by
  constructor
  · intro h
    have hown := h.own_hash
    rw [item_chain_event_hash, eq_string_iff, item_storedEvent_hash, Value.string.injEq] at hown
    have hhashable := h.hashable_id
    rw [item_storedEvent_id] at hhashable
    exact ⟨hhashable, hown.symm⟩
  · rintro ⟨hhashable, hexpected⟩
    refine ⟨?_, ?_, ?_, ?_, ?_⟩
    · rw [item_storedEvent_id]
      exact htruthy
    · rw [item_storedEvent_id]
      exact hhashable
    · rw [item_storedEvent_id]
      exact hnew
    · rw [item_storedEvent_previous]
      rcases hprevious with rfl | ⟨hash, rfl⟩
      · simp
      · simp
    · rw [item_chain_event_hash, eq_string_iff, item_storedEvent_hash, Value.string.injEq]
      exact hexpected.symm

/-! ## One call -/

/-- What an admitted event is stored as. -/
theorem append_ok_iff {stored : Dict} {events' : List Dict} :
    append sha256 floats str events event = .ok (stored, events') ↔
      truthy (item event "event_id") = true ∧
        (ids events).any (fun seen => eq floats seen (item event "event_id")) = false ∧
        stored = storedEvent sha256 event (head events) ∧ events' = events ++ [stored] := by
  have hids : (ids events).any (fun seen => eq floats seen (item event "event_id")) =
      events.any fun stored => eq floats (item stored "event_id") (item event "event_id") := by
    unfold ids
    rw [List.any_map]
    rfl
  rw [hids]
  unfold append
  by_cases hid : truthy (item event "event_id") = false
  · simp [hid]
  · rw [if_neg hid]
    by_cases hseen :
        events.any (fun stored => eq floats (item stored "event_id") (item event "event_id")) = true
    · simp [hseen]
    · rw [if_neg hseen, Except.ok.injEq, Prod.mk.injEq]
      rw [Bool.not_eq_false] at hid
      rw [Bool.not_eq_true] at hseen
      constructor
      · rintro ⟨rfl, rfl⟩
        exact ⟨hid, hseen, rfl, rfl⟩
      · rintro ⟨-, -, rfl, rfl⟩
        exact ⟨rfl, rfl⟩

/-- The chain of a store stays good with an admitted event exactly when its id can stand in a set
and the check expects the hash that it was stored with. -/
theorem verified_append_iff {stored : Dict} {events' : List Dict}
    (h : Verified sha256 floats str events)
    (happend : append sha256 floats str events event = .ok (stored, events')) :
    Verified sha256 floats str events' ↔
      hashable (item event "event_id") = true ∧ expectedHash sha256 event (head events) =
        canonical_hash sha256 (.object (toHash event (head events))) := by
  obtain ⟨htruthy, hnew, rfl, rfl⟩ := append_ok_iff.mp happend
  rw [verified_snoc, links_storedEvent_iff (head_of_verified h) htruthy hnew]
  exact and_iff_right h

/-! ## Sequences of calls -/

/-- An event that the check of the chain agrees on: its id can stand in a set, and it brings no
hash. -/
structure Chainable (event : Dict) : Prop where
  hashable_id : hashable (item event "event_id") = true
  no_hash : NoHash event

instance (event : Dict) : Decidable (Chainable event) :=
  decidable_of_iff
    (hashable (item event "event_id") = true ∧ sorted_map.get "event_hash" event = none)
    ⟨fun h => ⟨h.1, h.2⟩, fun h => ⟨h.hashable_id, h.no_hash⟩⟩

theorem appendAll_snoc (calls : List Dict) (event : Dict) :
    appendAll sha256 floats str (calls ++ [event]) =
      (appendAll sha256 floats str calls).append sha256 floats str event := by
  unfold appendAll
  rw [List.foldl_append]
  rfl

/-- The stored events keep the fields of those that were taken in, whatever these are. -/
theorem keepsFields_appendAll (calls : List Dict) :
    List.Forall₂ KeepsFields (appendAll sha256 floats str calls).given
      (appendAll sha256 floats str calls).events := by
  induction calls using List.reverseRecOn with
  | nil => exact .nil
  | append_singleton calls event ih =>
    rw [appendAll_snoc]
    unfold Course.append
    rcases happend : append sha256 floats str (appendAll sha256 floats str calls).events event with
      text | ⟨stored, events'⟩
    · exact ih
    · obtain ⟨-, -, rfl, rfl⟩ := append_ok_iff.mp happend
      exact List.rel_append ih (.cons keepsFields_storedEvent .nil)

theorem verified_appendAll {calls : List Dict}
    (hdict : ∀ event ∈ calls, (event.map Prod.fst).Nodup)
    (h : ∀ event ∈ (appendAll sha256 floats str calls).given, Chainable event) :
    Verified sha256 floats str (appendAll sha256 floats str calls).events := by
  induction calls using List.reverseRecOn with
  | nil => exact verified_nil
  | append_singleton calls event ih =>
    have hcalls : ∀ event ∈ calls, (event.map Prod.fst).Nodup := fun e he =>
      hdict e (List.mem_append_left _ he)
    have hevent : (event.map Prod.fst).Nodup := hdict event (by simp)
    rw [appendAll_snoc] at h ⊢
    unfold Course.append at h ⊢
    rcases happend : append sha256 floats str (appendAll sha256 floats str calls).events event with
      text | ⟨stored, events'⟩
    · rw [happend] at h
      exact ih hcalls h
    · rw [happend] at h
      have hbefore := ih hcalls fun e he => h e (List.mem_append_left _ he)
      obtain ⟨hhashable, hnohash⟩ := h event (by simp)
      exact (verified_append_iff hbefore happend).mpr
        ⟨hhashable, expectedHash_of_noHash hevent hnohash⟩

/-- Without collisions of the digest, an event that is not chainable breaks the chain for good. -/
theorem chainable_of_verified_appendAll (hsha : Function.Injective sha256) {calls : List Dict}
    (hdict : ∀ event ∈ calls, (event.map Prod.fst).Nodup)
    (h : Verified sha256 floats str (appendAll sha256 floats str calls).events) :
    ∀ event ∈ (appendAll sha256 floats str calls).given, Chainable event := by
  induction calls using List.reverseRecOn with
  | nil => simp [appendAll]
  | append_singleton calls event ih =>
    have hcalls : ∀ event ∈ calls, (event.map Prod.fst).Nodup := fun e he =>
      hdict e (List.mem_append_left _ he)
    have hevent : (event.map Prod.fst).Nodup := hdict event (by simp)
    rw [appendAll_snoc] at h ⊢
    unfold Course.append at h ⊢
    rcases happend : append sha256 floats str (appendAll sha256 floats str calls).events event with
      text | ⟨stored, events'⟩
    · rw [happend] at h
      exact ih hcalls h
    · rw [happend] at h
      have hbefore : Verified sha256 floats str (appendAll sha256 floats str calls).events := by
        obtain ⟨-, -, -, rfl⟩ := append_ok_iff.mp happend
        exact (verified_snoc.mp h).1
      obtain ⟨hhashable, hexpected⟩ := (verified_append_iff hbefore happend).mp h
      intro e he
      rcases List.mem_append.mp he with he | he
      · exact ih hcalls hbefore e he
      · obtain rfl := List.mem_singleton.mp he
        exact ⟨hhashable, noHash_of_expectedHash hsha hevent hexpected⟩

/-- In every sequence of calls, the chain verifies when the admitted events are chainable (and,
without collisions of the digest, only then), and the stored events keep the fields that were
given. -/
theorem stays_verified (sha256 : Bytes → Bytes) (floats : Floats) (str : Value → String)
    (calls : List Dict) (hdict : ∀ event ∈ calls, (event.map Prod.fst).Nodup) :
    ((∀ event ∈ (appendAll sha256 floats str calls).given, Chainable event) →
      Verified sha256 floats str (appendAll sha256 floats str calls).events) ∧
    (Function.Injective sha256 →
      Verified sha256 floats str (appendAll sha256 floats str calls).events →
        ∀ event ∈ (appendAll sha256 floats str calls).given, Chainable event) ∧
    List.Forall₂ KeepsFields (appendAll sha256 floats str calls).given
      (appendAll sha256 floats str calls).events :=
  ⟨verified_appendAll hdict, fun hsha => chainable_of_verified_appendAll hsha hdict,
    keepsFields_appendAll calls⟩

def firstEvent : Dict := [("event_id", .string "audit-1"), ("kind", .string "start")]

def plainFloats : Floats := ⟨some, fun _ => none⟩

def secondEvent : Dict := [("event_id", .string "audit-2"), ("kind", .string "stop")]

theorem Course.append_of_new {course : Course} (htruthy : truthy (item event "event_id") = true)
    (hnew : (ids course.events).any (fun seen => eq floats seen (item event "event_id")) = false) :
    course.append sha256 floats str event = ⟨course.given ++ [event],
      course.events ++ [storedEvent sha256 event (head course.events)]⟩ := by
  unfold Course.append
  rw [append_ok_iff.mpr ⟨htruthy, hnew, rfl, rfl⟩]

theorem appendAll_one (event : Dict) (h : truthy (item event "event_id") = true) :
    appendAll sha256 floats str [event] = ⟨[event], [storedEvent sha256 event .null]⟩ :=
  Course.append_of_new h rfl

theorem item_storedEvent_first :
    item (storedEvent sha256 firstEvent .null) "event_id" = .string "audit-1" :=
  item_storedEvent_id

/-- The second event is chained to the first one. -/
theorem appendAll_two : appendAll sha256 floats str ([firstEvent] ++ [secondEvent]) =
    ⟨[firstEvent, secondEvent], [storedEvent sha256 firstEvent .null,
      storedEvent sha256 secondEvent (head [storedEvent sha256 firstEvent .null])]⟩ := by
  have hnew : (ids [storedEvent sha256 firstEvent .null]).any
      (fun seen => eq floats seen (item secondEvent "event_id")) = false := by
    unfold ids
    rw [List.map_singleton, item_storedEvent_first]
    rfl
  rw [appendAll_snoc, appendAll_one firstEvent rfl]
  exact Course.append_of_new rfl hnew

/-- The first event is not taken in again. -/
theorem given_two :
    (appendAll sha256 floats str [firstEvent, secondEvent, firstEvent]).given =
      [firstEvent, secondEvent] := by
  have hseen : ([storedEvent sha256 firstEvent .null, storedEvent sha256 secondEvent
      (head [storedEvent sha256 firstEvent .null])]).any
        (fun stored => eq floats (item stored "event_id") (item firstEvent "event_id")) = true := by
    rw [List.any_cons, item_storedEvent_first]
    rfl
  have hsplit : [firstEvent, secondEvent, firstEvent] =
      ([firstEvent] ++ [secondEvent]) ++ [firstEvent] := rfl
  rw [hsplit, appendAll_snoc, appendAll_two]
  unfold Course.append append
  dsimp only
  rw [if_neg (by decide), if_pos hseen]

theorem stays_verified_second :
    Verified fips.digest plainFloats (fun _ => "")
        (appendAll fips.digest plainFloats (fun _ => "")
          [firstEvent, secondEvent, firstEvent]).events ∧
      List.Forall₂ KeepsFields [firstEvent, secondEvent]
        (appendAll fips.digest plainFloats (fun _ => "")
          [firstEvent, secondEvent, firstEvent]).events := by
  obtain ⟨hverified, -, hkeeps⟩ := stays_verified fips.digest plainFloats (fun _ => "")
    [firstEvent, secondEvent, firstEvent] (by simp [firstEvent, secondEvent])
  rw [given_two] at hverified hkeeps
  exact ⟨hverified (by decide), hkeeps⟩

/-- An event that brings a hash. -/
def hashEvent : Dict := [("event_id", .string "audit-1"), ("event_hash", .string "x")]

/-- The store takes in an event that brings a hash, and the check of its chain fails then. -/
theorem carried_hash_breaks_chain :
    (appendAll fips.digest plainFloats (fun _ => "") [hashEvent]).given = [hashEvent] ∧
      ¬ Verified fips.digest plainFloats (fun _ => "")
        (appendAll fips.digest plainFloats (fun _ => "") [hashEvent]).events := by
  rw [appendAll_one hashEvent rfl]
  refine ⟨rfl, fun h => ?_⟩
  have hlinks := (@verified_snoc fips.digest plainFloats (fun _ => "") [] _).mp h
  obtain ⟨-, hexpected⟩ := (links_storedEvent_iff (.inl rfl) rfl rfl).mp hlinks.2
  have hbytes : expectedHash fips.digest hashEvent .null ≠
      canonical_hash fips.digest (.object (toHash hashEvent .null)) := by decide +kernel
  exact hbytes hexpected

end shell_core.audit_store
