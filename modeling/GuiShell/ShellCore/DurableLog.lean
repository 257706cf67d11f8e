-- The durable audit log over whole runs of appends from an empty directory. An append makes the
-- anchor from what it finds in the log, so it keeps a good log good.
import GuiShell.ShellCore.Persistence

open json files shell_core.audit_chain

namespace shell_core.persistence

variable {host : Host} {disk disk' : Disk StoreFile} {l : List Dict} {event : Dict}

/-! ## The anchor is read back -/

theorem held_scalars {fields : Dict} (hnodup : (fields.map Prod.fst).Nodup)
    (h : ∀ e ∈ fields, e.2 = .null ∨ (∃ i, e.2 = .number (.int i)) ∨ ∃ s, e.2 = .string s) :
    Held host.floats (.object fields) where
  keys keys hkeys := by
    rw [Value.keyLists, List.mem_cons, Value.mem_keyListsOfFields] at hkeys
    rcases hkeys with rfl | ⟨e, he, hkeys⟩
    · exact hnodup
    · rcases h e he with hv | ⟨i, hv⟩ | ⟨s, hv⟩ <;> simp [hv, Value.keyLists] at hkeys
  numbers n hn := by
    rw [Value.numbers, Value.mem_numbersOfFields] at hn
    obtain ⟨e, he, hn⟩ := hn
    rcases h e he with hv | ⟨i, hv⟩ | ⟨s, hv⟩
    · simp [hv, Value.numbers] at hn
    · rw [hv, Value.numbers, List.mem_singleton] at hn
      rw [hn]
      rfl
    · simp [hv, Value.numbers] at hn

/-- The head of a chain, and so every field of its anchor, is None or a string. -/
def PlainHead (l : List Dict) : Prop := head l = .null ∨ ∃ hash, head l = .string hash

theorem held_anchorRecord (h : PlainHead l) (key' : Bytes) :
    Held host.floats (.object (anchorRecord host key' l)) := by
  refine held_scalars (by simp [anchorRecord]) fun e he => ?_
  simp only [anchorRecord, List.cons_append, List.nil_append, List.mem_cons, List.not_mem_nil,
    or_false] at he
  rcases he with rfl | rfl | rfl | rfl
  · exact .inr (.inl ⟨_, rfl⟩)
  · exact .inr (.inl ⟨_, rfl⟩)
  · rcases h with h | ⟨hash, h⟩
    · exact .inl h
    · exact .inr (.inr ⟨hash, h⟩)
  · exact .inr (.inr ⟨_, rfl⟩)

theorem return_not_mem_anchorText (record : Dict) : '\r' ∉ anchorText record := by
  intro hmem
  rcases List.mem_append.mp hmem with hmem | hmem
  · have hchars := print_chars ascii (fun c => c ≠ '\r')
      (fun c x hx hreturn => by
        have hrange := asciiEscape_range c x hx
        rw [hreturn] at hrange
        exact absurd hrange (by decide))
      (fun x hx hreturn => by
        rw [hreturn] at hx
        exact absurd hx (by decide))
      pretty
      (fun d x hx hreturn => by
        rw [hreturn] at hx
        simp [pretty, newLine] at hx)
      0 (Value.object record).sortKeys '\r' hmem
    exact hchars rfl
  · simp at hmem

/-- An anchor is read back as its record with sorted keys. -/
theorem loads_anchorText (h : PlainHead l) (key' : Bytes) :
    loads host.floats (universal_newlines (anchorText (anchorRecord host key' l))) =
      some (Value.object (anchorRecord host key' l)).sortKeys := by
  rw [universal_newlines_of_no_return (return_not_mem_anchorText _)]
  exact (held_anchorRecord h key').loads_print List.all_nil rfl pretty ascii 0

theorem anchored_anchor (key' : Bytes) :
    anchored host key' l disk .audit_anchor =
      some (.text (anchorText (anchorRecord host key' l))) := by
  unfold anchored
  rw [Function.update_of_ne (by simp), Function.update_self]

/-- An anchor that was written is that of its events. -/
theorem anchorOk_anchored {key' : Bytes} (hkey : key host disk = some key') (h : PlainHead l)
    {l' : List Dict} (hrecord : anchorRecord host key' l = anchorRecord host key' l') :
    AnchorOk host (anchored host key' l disk) l' := by
  have hheld : Held host.floats (.object (anchorRecord host key' l)) := held_anchorRecord h key'
  unfold AnchorOk
  rw [anchored_anchor]
  refine ⟨rfl, _, key', key_anchored hkey l, loads_anchorText h key', ?_⟩
  rw [← hrecord]
  exact eq_sortKeys hheld.keys

/-! ## Events that are appended -/

theorem Sound.plainHead (h : Sound host disk l) : PlainHead l := head_of_verified h.verified

theorem held_chainedOn (hheld : Held host.floats (.object event)) (h : PlainHead l) :
    Held host.floats (.object (chainedOn host event l)) := by
  have hnodup : (event.map Prod.fst).Nodup := hheld.keys _ List.mem_cons_self
  have hmem : ∀ e ∈ chainedOn host event l, e ∈ event ∨ e.2 = .null ∨ ∃ s, e.2 = .string s := by
    intro e he
    unfold chainedOn at he
    rw [chain_event_eq] at he
    rcases dict.mem_setItem he with rfl | he
    · exact .inr (.inr ⟨_, rfl⟩)
    · rcases dict.mem_setItem ((sorted_map.erase_sublist _ _).subset he) with rfl | he
      · exact .inr h
      · exact .inl he
  constructor
  · intro keys hkeys
    rw [Value.keyLists, List.mem_cons, Value.mem_keyListsOfFields] at hkeys
    rcases hkeys with rfl | ⟨e, he, hkeys⟩
    · exact nodup_chain_event hnodup _
    · rcases hmem e he with he | hv | ⟨s, hv⟩
      · exact hheld.keys keys
          (List.mem_cons_of_mem _ (Value.mem_keyListsOfFields.mpr ⟨e, he, hkeys⟩))
      · simp [hv, Value.keyLists] at hkeys
      · simp [hv, Value.keyLists] at hkeys
  · intro n hn
    rw [Value.numbers, Value.mem_numbersOfFields] at hn
    obtain ⟨e, he, hn⟩ := hn
    rcases hmem e he with he | hv | ⟨s, hv⟩
    · exact hheld.numbers n (Value.mem_numbersOfFields.mpr ⟨e, he, hn⟩)
    · simp [hv, Value.numbers] at hn
    · simp [hv, Value.numbers] at hn

/-- The files after an append that went through. -/
def appended (host : Host) (disk : Disk StoreFile) (key' : Bytes) (event : Dict) (l : List Dict) :
    Disk StoreFile :=
  anchored host key' (l ++ [chainedOn host event l]) (logged disk (chainedOn host event l))

theorem key_logged (chained : Dict) : key host (logged disk chained) = key host disk := by
  apply key_congr
  unfold logged
  rw [Function.update_of_ne (by simp)]

theorem events_appended (key' : Bytes) :
    events host (appended host disk key' event l) =
      events host (logged disk (chainedOn host event l)) :=
  events_congr (anchored_audit key' _)

/-- The events of the log as they are read back after the append. -/
def readBack (host : Host) (event : Dict) (l : List Dict) : List Dict :=
  l ++ [sortedDict (chainedOn host event l)]

/-- A log with one more event of a new id that can stand in a set is a good log with its anchor. -/
theorem sound_appended (h : Admits host disk event l)
    (hhash : hashable (item event "event_id") = true) (htail : BlankTail disk)
    (hheld : Held host.floats (.object event)) {key' : Bytes} (hkey : key host disk = some key') :
    Sound host (appended host disk key' event l) (readBack host event l) ∧
      AnchorOk host (appended host disk key' event l) (readBack host event l) := by
  have hplain := h.sound.plainHead
  have hchained : Held host.floats (.object (chainedOn host event l)) :=
    held_chainedOn hheld hplain
  have hnodup : (event.map Prod.fst).Nodup := hheld.keys _ List.mem_cons_self
  have hhash' : item (sortedDict (chainedOn host event l)) "event_hash" =
      item (chainedOn host event l) "event_hash" := by
    unfold chainedOn
    rw [item_sortedDict (nodup_chain_event hnodup _), item_chain_event_hash]
    rfl
  refine ⟨⟨?_, ?_⟩, ?_⟩
  · rw [events_appended, events_logged_of_blank h.sound.events htail hchained]
    rfl
  · refine verified_snoc.mpr ⟨h.sound.verified, ?_⟩
    refine links_sortedDict_chain_event hnodup ?_ ?_ h.truthy_id hhash ?_
    · rcases hplain with hhead | ⟨hash, hhead⟩ <;> rw [hhead] <;> rfl
    · rcases hplain with hhead | ⟨hash, hhead⟩ <;> simp [hhead]
    · unfold ids
      rw [List.any_map]
      exact h.new_id
  · refine anchorOk_anchored ((key_logged _).trans hkey) ?_ ?_
    · refine .inr ⟨canonical_hash host.sha256 (.object (hashed event (head l))), ?_⟩
      rw [head_snoc]
      exact item_chain_event_hash _ _
    · unfold anchorRecord readBack
      rw [head_snoc, head_snoc, hhash']
      simp

/-! ## What an append does to the files -/

/-- An append stops before it writes, or it writes the line and the anchor, or it writes the line
only, because the key cannot be read. -/
theorem append_cases {result : EStateM.Result Raised (Disk StoreFile) Dict}
    (h : append_audit_event host event disk = result) :
    (∃ e, result = .error e disk) ∨
      (∃ l key', Admits host disk event l ∧ key host disk = some key' ∧
        result = .ok (chainedOn host event l) (appended host disk key' event l)) ∨
      ∃ l e, Admits host disk event l ∧ key host disk = none ∧
        result = .error e (logged disk (chainedOn host event l)) := by
  by_cases hadmits : ∃ l, Admits host disk event l
  · obtain ⟨l, hl⟩ := hadmits
    have hwp := @wp_append_of_admits host disk
    rcases hkey : key host disk with _ | key'
    · have hrun : wp (append_audit_event host event) (fun _ _ => False)
          (fun d => d = logged disk (chainedOn host event l)) disk := by
        rw [wp_append_of_admits hl, hkey]
      unfold wp at hrun
      rw [h] at hrun
      rcases result with ⟨chained, d⟩ | ⟨e, d⟩
      · exact hrun.elim
      · exact .inr (.inr ⟨l, e, hl, rfl, by rw [hrun]⟩)
    · have hrun : wp (append_audit_event host event)
          (fun chained d => chained = chainedOn host event l ∧ d = appended host disk key' event l)
          (fun _ => False) disk := by
        rw [wp_append_of_admits hl, hkey]
        exact ⟨rfl, rfl⟩
      unfold wp at hrun
      rw [h] at hrun
      rcases result with ⟨chained, d⟩ | ⟨e, d⟩
      · obtain ⟨rfl, rfl⟩ := hrun
        exact .inr (.inl ⟨l, key', hl, rfl, rfl⟩)
      · exact hrun.elim
  · have hrun : wp (append_audit_event host event) (fun _ _ => False) (fun d => d = disk) disk :=
      wp_append_of_not_admits (fun l hl => hadmits ⟨l, hl⟩) rfl
    unfold wp at hrun
    rw [h] at hrun
    rcases result with ⟨chained, d⟩ | ⟨e, d⟩
    · exact hrun.elim
    · exact .inl ⟨e, by rw [hrun]⟩

/-- An append of a new event goes through when the key can be read. -/
theorem append_ok (h : Admits host disk event l) {key' : Bytes} (hkey : key host disk = some key') :
    append_audit_event host event disk =
      .ok (chainedOn host event l) (appended host disk key' event l) := by
  rcases append_cases (rfl : append_audit_event host event disk = _) with
    ⟨e, he⟩ | ⟨l', key'', hl', hkey', hok⟩ | ⟨l', e, -, hnone, -⟩
  · have hrun : wp (append_audit_event host event) (fun _ _ => True) (fun _ => False) disk := by
      rw [wp_append_of_admits h, hkey]
      trivial
    unfold wp at hrun
    rw [he] at hrun
    exact hrun.elim
  · obtain rfl := Option.some.inj (h.sound.events.symm.trans hl'.sound.events)
    obtain rfl := Option.some.inj (hkey.symm.trans hkey')
    exact hok
  · rw [hkey] at hnone
    cases hnone

theorem Sound.unique {l l' : List Dict} (h : Sound host disk l) (h' : Sound host disk l') :
    l = l' := Option.some.inj (h.events.symm.trans h'.events)

/-- An event with nothing but its id. -/
def idEvent (s : String) : Dict := [("event_id", .string s)]

theorem held_idEvent (s : String) : Held host.floats (.object (idEvent s)) :=
  held_scalars (by simp [idEvent]) (by simp [idEvent])

theorem admits_of_new_string_id (hsound : Sound host disk l) {s : String} (hs : s ≠ "")
    (hid : item event "event_id" = .string s)
    (hnew : ∀ stored ∈ l, item stored "event_id" ≠ .string s) : Admits host disk event l := by
  refine ⟨hsound, ?_, ?_⟩
  · rw [hid]
    simpa [truthy] using hs
  · rw [hid, List.any_eq_false]
    intro stored hstored
    rw [eq_string_iff]
    exact hnew stored hstored

/-- A host with nothing special about it. -/
def plainHost : Host where
  floats := ⟨some, fun _ => none⟩
  sha256 _ := []
  str _ := ""
  json_msg _ := ""
  json_error _ := ""
  fromhex_error _ := ""
  token := []

theorem sound_empty : Sound host (fun _ => none) [] := ⟨rfl, verified_nil⟩

theorem blankTail_empty : BlankTail (fun _ => none) := rfl

theorem admits_first (s : String) (hs : s ≠ "") : Admits host (fun _ => none) (idEvent s) [] :=
  admits_of_new_string_id sound_empty hs rfl (by simp)

/-! ## Runs from an empty directory -/

/-- The files and the events returned so far, after calls of append from an empty directory.
Every event that was taken in keeps `allowed`. -/
inductive Runs (host : Host) (allowed : Dict → Prop) : Disk StoreFile → List Dict → Prop
  | empty : Runs host allowed (fun _ => none) []
  | accepted {disk disk' : Disk StoreFile} {returned : List Dict} {event chained : Dict} :
      Runs host allowed disk returned → Held host.floats (.object event) → allowed event →
      append_audit_event host event disk = .ok chained disk' →
      Runs host allowed disk' (returned ++ [chained])
  | rejected {disk disk' : Disk StoreFile} {returned : List Dict} {event : Dict} {e : Raised} :
      Runs host allowed disk returned → Held host.floats (.object event) →
      append_audit_event host event disk = .error e disk' → Runs host allowed disk' returned

/-- The id can be looked up in a set. -/
def HashableId (event : Dict) : Prop := hashable (item event "event_id") = true

instance (event : Dict) : Decidable (HashableId event) := inferInstanceAs (Decidable (_ = true))

/-- What a usable log is, with the events that were returned for it. -/
structure Usable (host : Host) (disk : Disk StoreFile) (returned : List Dict) : Prop where
  reads_back : ∃ l, audit_events host disk = .ok l disk ∧ List.Forall₂
    (fun stored chained => eq host.floats (.object stored) (.object chained) = true) l returned
  verifies : ∃ verification disk', verify_audit_chain host disk = .ok verification disk' ∧
    verification.ok = true
  accepts : ∀ event s, item event "event_id" = .string s → s ≠ "" →
    (∀ chained ∈ returned, item chained "event_id" ≠ .string s) →
    ∃ chained disk', append_audit_event host event disk = .ok chained disk'
  rejected_unchanged : ∀ event e disk', append_audit_event host event disk = .error e disk' →
    disk' = disk

/-- The state of a run: the log holds the returned events as they are read back, its chain and
its anchor are good, and a line can be appended. -/
structure Good (host : Host) (disk : Disk StoreFile) (returned : List Dict) : Prop where
  sound : Sound host disk (returned.map sortedDict)
  anchor : AnchorOk host disk (returned.map sortedDict)
  tail : BlankTail disk
  key : ∃ key', key host disk = some key'
  held : ∀ chained ∈ returned, Held host.floats (.object chained)

theorem good_empty : Good host (fun _ => none) [] where
  sound := sound_empty
  anchor := rfl
  tail := rfl
  key := ⟨host.token, rfl⟩
  held := by simp

theorem tail_appended {key' : Bytes} (h : Sound host disk l) :
    BlankTail (appended host disk key' event l) := by
  have htail := tail_logged h.events (chainedOn host event l)
  unfold BlankTail logText at htail ⊢
  unfold appended
  rw [anchored_audit]
  exact htail

theorem Good.append {returned : List Dict} {chained : Dict} (h : Good host disk returned)
    (hheld : Held host.floats (.object event)) (hhash : HashableId event)
    (happend : append_audit_event host event disk = .ok chained disk') :
    Good host disk' (returned ++ [chained]) := by
  obtain ⟨key', hkey⟩ := h.key
  rcases append_cases happend with ⟨e, he⟩ | ⟨l, key'', hadmits, hkey', hok⟩ | ⟨l, e, -, -, he⟩
  · cases he
  · obtain ⟨rfl, rfl⟩ := (EStateM.Result.ok.injEq ..).mp hok
    obtain rfl := hadmits.sound.unique h.sound
    obtain ⟨hsound, hanchor⟩ := sound_appended hadmits hhash h.tail hheld hkey'
    have hlist : readBack host event (returned.map sortedDict) =
        (returned ++ [chainedOn host event (returned.map sortedDict)]).map sortedDict := by
      unfold readBack
      rw [List.map_append]
      rfl
    rw [hlist] at hsound hanchor
    refine ⟨hsound, hanchor, tail_appended hadmits.sound,
      ⟨key'', key_anchored ((key_logged _).trans hkey') _⟩, fun c hc => ?_⟩
    rcases List.mem_append.mp hc with hc | hc
    · exact h.held c hc
    · rw [List.mem_singleton.mp hc]
      exact held_chainedOn hheld hadmits.sound.plainHead
  · cases he

theorem Good.rejected {returned : List Dict} {e : Raised} (h : Good host disk returned)
    (happend : append_audit_event host event disk = .error e disk') : disk' = disk := by
  obtain ⟨key', hkey⟩ := h.key
  rcases append_cases happend with ⟨e, he⟩ | ⟨l, key'', hadmits, hkey', hok⟩ | ⟨l, e, -, hnone, -⟩
  · exact ((EStateM.Result.error.injEq ..).mp he).2
  · cases hok
  · rw [hkey] at hnone
    cases hnone

theorem Runs.good {returned : List Dict} (h : Runs host HashableId disk returned) :
    Good host disk returned := by
  induction h with
  | empty => exact good_empty
  | accepted _ hheld hhash happend ih => exact ih.append hheld hhash happend
  | rejected _ _ happend ih =>
    rw [ih.rejected happend]
    exact ih

theorem Good.usable {returned : List Dict} (h : Good host disk returned) :
    Usable host disk returned where
  reads_back := by
    refine ⟨returned.map sortedDict, ?_, ?_⟩
    · have hwp : wp (audit_events host) (fun l d => l = returned.map sortedDict ∧ d = disk)
          (fun _ => False) disk := by
        rw [wp_audit_events, h.sound.events]
        exact ⟨rfl, rfl⟩
      obtain ⟨l, d, hrun, rfl, rfl⟩ := wp.total hwp
      exact hrun
    · rw [List.forall₂_map_left_iff, List.forall₂_same]
      intro chained hchained
      exact eq_sortKeys (h.held chained hchained).keys
  verifies := wp.total (ok_iff.mpr ⟨_, h.sound, h.anchor⟩)
  accepts := by
    intro event s hid hs hnew
    obtain ⟨key', hkey⟩ := h.key
    refine ⟨_, _, append_ok (admits_of_new_string_id h.sound hs hid ?_) hkey⟩
    intro stored hstored
    obtain ⟨chained, hchained, rfl⟩ := List.mem_map.mp hstored
    rw [item_sortedDict ((h.held chained hchained).keys _ List.mem_cons_self)]
    intro hsort
    apply hnew chained hchained
    cases hitem : item chained "event_id" with
    | string t =>
      rw [hitem] at hsort
      exact hsort
    | _ =>
      rw [hitem] at hsort
      simp [Value.sortKeys] at hsort
  rejected_unchanged _ _ _ happend := h.rejected happend

/-- From an empty directory, and while every event that is taken in has an id that is no list and
no object, the log stays usable. -/
theorem stays_usable (host : Host) {returned : List Dict}
    (h : Runs host HashableId disk returned) : Usable host disk returned := h.good.usable

/-- The files with one event. -/
def firstLog (host : Host) : Disk StoreFile :=
  appended host (fun _ => none) host.token (idEvent "audit-1") []

theorem first_append_ok : append_audit_event host (idEvent "audit-1") (fun _ => none) =
    .ok (chainedOn host (idEvent "audit-1") []) (firstLog host) :=
  append_ok (admits_first "audit-1" (by simp)) rfl

/-- A second event is chained to the first one. -/
theorem runs_two {allowed : Dict → Prop} (hfirst : allowed (idEvent "audit-1"))
    (hsecond : allowed (idEvent "audit-2")) : ∃ second disk',
      append_audit_event host (idEvent "audit-2") (firstLog host) = .ok second disk' ∧
      Runs host allowed disk' [chainedOn host (idEvent "audit-1") [], second] := by
  have hgood : Good host (firstLog host) [chainedOn host (idEvent "audit-1") []] :=
    good_empty.append (held_idEvent "audit-1") rfl first_append_ok
  have hid : item (chainedOn host (idEvent "audit-1") []) "event_id" = .string "audit-1" :=
    item_chain_event_id _ _
  obtain ⟨second, disk', happend⟩ := hgood.usable.accepts (idEvent "audit-2") "audit-2" rfl
    (by simp) (by simp [hid])
  exact ⟨second, disk', happend, .accepted (.accepted .empty (held_idEvent _) hfirst
    first_append_ok) (held_idEvent _) hsecond happend⟩

/-- A host with the real digest and a key of zeros. -/
def digestHost : Host := { plainHost with sha256 := fips.digest, token := List.replicate 32 0 }

theorem stays_usable_after_second : ∃ second disk',
    append_audit_event digestHost (idEvent "audit-2") (firstLog digestHost) = .ok second disk' ∧
      Usable digestHost disk' [chainedOn digestHost (idEvent "audit-1") [], second] := by
  obtain ⟨second, disk', happend, hruns⟩ := @runs_two digestHost HashableId rfl rfl
  exact ⟨second, disk', happend, stays_usable digestHost hruns⟩

/-! ### An id that cannot stand in a set -/

/-- An event that is taken in with another id is on the log, and the check of the chain raises. -/
theorem Good.not_ok_of_unhashable {returned : List Dict} {chained : Dict}
    (h : Good host disk returned) (hheld : Held host.floats (.object event))
    (hhash : ¬ HashableId event)
    (happend : append_audit_event host event disk = .ok chained disk') :
    ¬ Ok host disk' := by
  rcases append_cases happend with ⟨e, he⟩ | ⟨l, key', hadmits, -, hok⟩ | ⟨l, e, -, -, he⟩
  · cases he
  · obtain ⟨rfl, rfl⟩ := (EStateM.Result.ok.injEq ..).mp hok
    have hnodup : (event.map Prod.fst).Nodup := hheld.keys _ List.mem_cons_self
    have hevents :
        events host (appended host disk key' event l) = some (readBack host event l) := by
      rw [events_appended, events_logged_of_blank hadmits.sound.events h.tail
        (held_chainedOn hheld hadmits.sound.plainHead)]
      rfl
    rw [ok_iff]
    rintro ⟨l', hsound, -⟩
    obtain rfl := Option.some.inj (hevents.symm.trans hsound.events)
    obtain ⟨-, hlinks⟩ := verified_snoc.mp hsound.verified
    have hid := hlinks.hashable_id
    unfold chainedOn at hid
    rw [item_sortedDict (nodup_chain_event hnodup _), item_chain_event_id] at hid
    apply hhash
    unfold HashableId
    cases hitem : item event "event_id" with
    | array items =>
      rw [hitem] at hid
      simp [Value.sortKeys, hashable] at hid
    | object fields =>
      rw [hitem] at hid
      simp [Value.sortKeys, hashable] at hid
    | _ => rfl
  · cases he

/-- An event whose id is a list. -/
def listEvent : Dict := [("event_id", .array [.string "audit-1"])]

theorem held_listEvent : Held host.floats (.object listEvent) where
  keys keys hkeys := by
    simp [listEvent, Value.keyLists, Value.keyListsOfFields, Value.keyListsOfItems] at hkeys
    rw [hkeys]
    simp
  numbers n hn := by
    simp [listEvent, Value.numbers, Value.numbersOfFields, Value.numbersOfItems] at hn

theorem list_event_is_taken_in :
    append_audit_event plainHost listEvent (fun _ => none) =
      .ok (chainedOn plainHost listEvent [])
        (appended plainHost (fun _ => none) [] listEvent []) :=
  append_ok ⟨sound_empty, rfl, rfl⟩ rfl

/-- The first event is taken in, and the log does not verify then. -/
theorem unusable_after_list_id :
    ∃ disk returned, Runs plainHost (fun _ => True) disk returned ∧
      ¬ Usable plainHost disk returned := by
  refine ⟨_, _, .accepted .empty held_listEvent trivial list_event_is_taken_in, fun husable => ?_⟩
  obtain ⟨verification, disk', hverify, hok⟩ := husable.verifies
  have hnot := good_empty.not_ok_of_unhashable held_listEvent (by decide) list_event_is_taken_in
  apply hnot
  unfold Ok wp
  rw [hverify]
  exact hok

end shell_core.persistence
