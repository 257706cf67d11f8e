-- The durable audit log when file operations fail. A call that stops halfway leaves a log with
-- its event or without it, and the next call makes the anchor good again.
import GuiShell.ShellCore.DurableLog

open json files shell_core.audit_chain

namespace shell_core.persistence

variable {host : Host} {disk disk' : Disk StoreFile} {l : List Dict} {event : Dict}

/-! ## Logs that a call makes good -/

/-- The log holds the events, a line can be appended to it, and the key can be read. The anchor
may say anything. -/
structure Recoverable (host : Host) (disk : Disk StoreFile) (l : List Dict) : Prop where
  sound : Sound host disk l
  tail : BlankTail disk
  key : (key host disk).isSome = true

/-- The events and the tail of a log depend on its text only. -/
theorem Recoverable.congr (h : Recoverable host disk l)
    (haudit : (disk' .audit).getD (.text []) = (disk .audit).getD (.text []))
    (hkey : (persistence.key host disk').isSome = true) : Recoverable host disk' l := by
  have htext : logText disk' = logText disk := by
    unfold logText
    rw [haudit]
  have hevents : events host disk' = events host disk := by
    unfold events
    rw [haudit, htext]
  refine ⟨⟨hevents.trans h.sound.events, h.sound.verified⟩, ?_, hkey⟩
  have htail := h.tail
  unfold BlankTail at htail ⊢
  rw [htext]
  exact htail

/-- A log with the line of an event that the shell admits. -/
theorem Recoverable.logged (h : Recoverable host disk l) (hadmits : Admits host disk event l)
    (hhash : HashableId event) (hheld : Held host.floats (.object event)) :
    Recoverable host (logged disk (chainedOn host event l)) (readBack host event l) := by
  obtain ⟨key', hkey⟩ := Option.isSome_iff_exists.mp h.key
  obtain ⟨hsound, -⟩ := sound_appended hadmits hhash h.tail hheld hkey
  refine ⟨⟨?_, hsound.verified⟩, tail_logged h.sound.events _, ?_⟩
  · rw [← hsound.events, events_appended]
  · rw [key_logged]
    exact h.key

/-- An anchor with the right record is good under any other files. -/
theorem AnchorOk.congr (h : AnchorOk host disk l)
    (hanchor : disk' .audit_anchor = disk .audit_anchor)
    (hkey : persistence.key host disk' = persistence.key host disk) : AnchorOk host disk' l := by
  unfold AnchorOk at h ⊢
  rw [hanchor, hkey]
  exact h

/-- The anchor of the events that are written is the anchor of the events that are read back. -/
theorem anchorRecord_readBack (hheld : Held host.floats (.object event)) (key' : Bytes) :
    anchorRecord host key' (l ++ [chainedOn host event l]) =
      anchorRecord host key' (readBack host event l) := by
  have hnodup : (event.map Prod.fst).Nodup := hheld.keys _ List.mem_cons_self
  have hhash : item (sortedDict (chainedOn host event l)) "event_hash" =
      item (chainedOn host event l) "event_hash" := by
    unfold chainedOn
    rw [item_sortedDict (nodup_chain_event hnodup _), item_chain_event_hash]
    rfl
  unfold anchorRecord readBack
  rw [head_snoc, head_snoc, hhash]
  simp

namespace failing

variable {faults : Faults StoreFile} {Q : Unit → Disk StoreFile → Prop}
  {E : Disk StoreFile → Prop}

theorem write_text.spec {path : StoreFile} {text : List Char}
    (hok : Q () (Function.update disk path (some (.text text)))) (hsame : E disk)
    (hempty : E (Function.update disk path (some (.text [])))) :
    wp (write_text faults path text) Q E disk := by
  unfold write_text
  rw [wp_bind, wp_mapError]
  refine wp_create (fun _ => ?_) fun _ => hsame
  rw [wp_mapError]
  refine wp_write (fun _ => ?_) fun _ => hempty
  rw [Function.update_idem]
  exact hok

/-- The log stays, and the key can be read afterwards. -/
theorem audit_anchor_key.spec (hkey : (persistence.key host disk).isSome = true) :
    wp (audit_anchor_key host faults)
      (fun key' d => persistence.key host d = some key' ∧ d .audit = disk .audit)
      (fun d => (persistence.key host d).isSome = true ∧ d .audit = disk .audit) disk := by
  unfold audit_anchor_key
  rw [wp_bind, wp_fileExists]
  rcases hfile : disk .audit_anchor_key with _ | content
  · have hmade := @key_withKey host disk host.token (by unfold persistence.key; rw [hfile])
    unfold withKey at hmade
    rw [hfile] at hmade
    rw [if_neg (by simp), wp_bind]
    refine write_text.spec ⟨hmade, Function.update_of_ne (by simp) ..⟩ ⟨hkey, rfl⟩ ?_
    refine ⟨?_, Function.update_of_ne (by simp) ..⟩
    unfold persistence.key
    rw [Function.update_self]
    rfl
  · rw [if_pos (by simp), wp_bind, read_text, wp_bind, wp_mapError]
    refine wp_readToString_content hfile (fun _ hbroken => ?_) fun _ => ⟨hkey, rfl⟩
    rw [wp_pure]
    have hread : persistence.key host disk =
        fromhex (normalization.strip (universal_newlines content.chars)) := by
      unfold persistence.key
      simp [hfile, hbroken]
    rw [← hread]
    obtain ⟨key', hkey'⟩ := Option.isSome_iff_exists.mp hkey
    rw [hkey']
    exact ⟨hkey', rfl⟩

/-- The new anchor is that of the events, or the call stopped before it was there. -/
theorem write_audit_anchor.spec {events l' : List Dict} (hplain : PlainHead events)
    (hrecord : ∀ key', anchorRecord host key' events = anchorRecord host key' l')
    (hkey : (persistence.key host disk).isSome = true) :
    wp (write_audit_anchor host faults events)
      (fun _ d => (persistence.key host d).isSome = true ∧ d .audit = disk .audit ∧
        AnchorOk host d l')
      (fun d => (persistence.key host d).isSome = true ∧ d .audit = disk .audit) disk := by
  unfold write_audit_anchor anchor_record
  rw [wp_bind, wp_bind]
  refine (audit_anchor_key.spec hkey).mono (fun key' d hd => ?_) fun _ hd => hd
  obtain ⟨hkey', haudit⟩ := hd
  have hother : ∀ (path : StoreFile) (content : Option Content), path ≠ .audit_anchor_key →
      persistence.key host (Function.update d path content) = some key' := by
    intro path content hpath
    rw [← hkey']
    exact key_congr (Function.update_of_ne hpath.symm ..)
  rw [wp_pure, wp_bind]
  refine write_text.spec ?_ ⟨by rw [hkey']; rfl, haudit⟩ ⟨?_, ?_⟩
  · rw [wp_mapError]
    refine wp_rename (Function.update_self ..) (fun _ => ?_) fun _ => ⟨?_, ?_⟩
    · have hgood : AnchorOk host (anchored host key' events d) l' :=
        anchorOk_anchored hkey' hplain (hrecord key')
      have hlast : persistence.key host (Function.update (Function.update (Function.update d
          .audit_anchor_tmp (some (.text (anchorText (anchorRecord host key' events)))))
          .audit_anchor (some (.text (anchorText (anchorRecord host key' events)))))
          .audit_anchor_tmp none) = some key' := by
        rw [← hkey']
        apply key_congr
        simp
      refine ⟨by rw [hlast]; rfl, ?_, hgood.congr ?_ ?_⟩
      · simpa using haudit
      · rw [anchored_anchor]
        simp
      · rw [hlast, key_anchored hkey']
    · rw [hother _ _ (by simp)]
      rfl
    · simpa using haudit
  · rw [hother _ _ (by simp)]
    rfl
  · simpa using haudit

theorem audit_events.spec (h : Sound host disk l) :
    wp (audit_events host faults) (fun l' d => l' = l ∧ d = disk) (fun d => d = disk) disk := by
  have hevents := h.events
  unfold persistence.events logText at hevents
  unfold audit_events audit_events_report
  rw [wp_bind, wp_bind, wp_fileExists]
  rcases hfile : disk .audit with _ | content
  · rw [hfile] at hevents
    obtain rfl := Option.some.inj hevents
    exact ⟨rfl, rfl⟩
  · rw [hfile, Option.getD_some] at hevents
    rw [if_pos (by simp), wp_bind, wp_mapError]
    refine wp_readToString_content hfile (fun _ hbroken => ?_) fun _ => rfl
    rw [hbroken, if_neg (by simp)] at hevents
    rw [wp_pure, reportOf_eq_iff.mpr hevents]
    exact ⟨rfl, rfl⟩

theorem append_line.spec {chained : Dict} (hok : Q () (persistence.logged disk chained))
    (hsame : E disk)
    (hmade : E (Function.update disk .audit (some ((disk .audit).getD (.text []))))) :
    wp (append_line faults chained) Q E disk := by
  unfold append_line
  rw [wp_bind, wp_mapError]
  refine wp_ensure (fun _ => ?_) fun _ => hsame
  rw [wp_mapError]
  refine wp_appendLine (fun _ => ?_) fun _ => hmade
  rw [Function.update_self, Function.update_idem, Option.getD_some]
  exact hok

/-- A call that returns leaves a good log with its event. A call that raises leaves the log as it
was, or with the line of the event. -/
theorem append_audit_event.spec (h : Recoverable host disk l)
    (hheld : Held host.floats (.object event)) (hhash : HashableId event) :
    wp (append_audit_event host faults event)
      (fun chained d => chained = chainedOn host event l ∧
        Recoverable host d (readBack host event l) ∧ AnchorOk host d (readBack host event l))
      (fun d => Recoverable host d l ∨ Recoverable host d (readBack host event l)) disk := by
  unfold append_audit_event
  dsimp only
  by_cases hid : truthy (item event "event_id") = false
  · rw [if_pos hid, wp_bind, wp_throw]
    exact .inl h
  · rw [if_neg hid, wp_bind]
    refine (audit_events.spec h.sound).mono ?_ fun d hd => .inl (hd ▸ h)
    rintro l' d ⟨hl, hd⟩
    rw [hl, hd]
    obtain ⟨report, hreport, hok⟩ := h.sound.verified
    rw [wp_bind, wp_checkChain, hreport]
    dsimp only
    rw [if_neg (by simp [hok])]
    by_cases hnew : (l.any fun stored =>
        eq host.floats (item stored "event_id") (item event "event_id")) = true
    · rw [if_pos hnew, wp_bind, wp_throw]
      exact .inl h
    · rw [if_neg hnew, wp_bind]
      have hadmits : Admits host disk event l := ⟨h.sound, by simpa using hid, by simpa using hnew⟩
      have hlogged := h.logged hadmits hhash hheld
      refine append_line.spec ?_ (.inl h) (.inl (h.congr ?_ ?_))
      · rw [wp_bind]
        have hplain : PlainHead (l ++ [chainedOn host event l]) := by
          refine .inr ⟨canonical_hash host.sha256 (.object (hashed event (head l))), ?_⟩
          rw [head_snoc]
          exact item_chain_event_hash _ _
        refine (write_audit_anchor.spec hplain (anchorRecord_readBack hheld) hlogged.key).mono
          (fun _ d' hd' => ?_) fun d' hd' => .inr (hlogged.congr (by rw [hd'.2]) hd'.1)
        exact ⟨rfl, hlogged.congr (by rw [hd'.2.1]) hd'.1, hd'.2.2⟩
      · rw [Function.update_self]
        rfl
      · rw [← h.key]
        exact congrArg _ (key_congr (Function.update_of_ne (by simp) ..))

end failing

/-! ## Runs in which calls fail -/

/-- The files and the events returned so far, after calls from an empty directory. In every call
any file operations can fail. -/
inductive FailingRuns (host : Host) : Disk StoreFile → List Dict → Prop
  | empty : FailingRuns host (fun _ => none) []
  | returned {disk disk' : Disk StoreFile} {returned : List Dict} {faults : Faults StoreFile}
      {event chained : Dict} : FailingRuns host disk returned → Held host.floats (.object event) →
      HashableId event → failing.append_audit_event host faults event disk = .ok chained disk' →
      FailingRuns host disk' (returned ++ [chained])
  | raised {disk disk' : Disk StoreFile} {returned : List Dict} {faults : Faults StoreFile}
      {event : Dict} {e : Raised} : FailingRuns host disk returned →
      Held host.floats (.object event) → HashableId event →
      failing.append_audit_event host faults event disk = .error e disk' →
      FailingRuns host disk' returned

/-- What stands of a log after failures, with the events that were returned for it. -/
structure Survives (host : Host) (disk : Disk StoreFile) (returned l : List Dict) : Prop where
  reads_back : audit_events host disk = .ok l disk
  chains : Verified host.sha256 host.floats host.str l
  keeps : ∃ kept, kept.Sublist l ∧ List.Forall₂
    (fun stored chained => eq host.floats (.object stored) (.object chained) = true) kept returned
  returns_verified : ∀ faults event chained disk', Held host.floats (.object event) →
    HashableId event → failing.append_audit_event host faults event disk = .ok chained disk' →
    Ok host disk'
  recovers : ∀ event s, Held host.floats (.object event) → item event "event_id" = .string s →
    s ≠ "" → (∀ stored ∈ l, item stored "event_id" ≠ .string s) →
    ∃ chained disk', append_audit_event host event disk = .ok chained disk' ∧ Ok host disk'

/-- The state of a run: the log can be recovered, and holds the returned events in their order. -/
structure Kept (host : Host) (disk : Disk StoreFile) (returned l : List Dict) : Prop where
  recoverable : Recoverable host disk l
  sublist : (returned.map sortedDict).Sublist l
  held : ∀ chained ∈ returned, Held host.floats (.object chained)

theorem kept_of_failingRuns {returned : List Dict} (h : FailingRuns host disk returned) :
    ∃ l, Kept host disk returned l := by
  induction h with
  | empty =>
    exact ⟨[], ⟨sound_empty, blankTail_empty, rfl⟩, List.nil_sublist _, by simp⟩
  | @returned disk disk' returned faults event chained _ hheld hhash hrun ih =>
    obtain ⟨l, hkept⟩ := ih
    obtain ⟨rfl, hrecoverable, -⟩ :=
      (failing.append_audit_event.spec hkept.recoverable hheld hhash).of_ok hrun
    refine ⟨_, hrecoverable, ?_, ?_⟩
    · rw [List.map_append]
      exact hkept.sublist.append (.refl _)
    · intro chained hchained
      rcases List.mem_append.mp hchained with hchained | hchained
      · exact hkept.held chained hchained
      · rw [List.mem_singleton.mp hchained]
        exact held_chainedOn hheld hkept.recoverable.sound.plainHead
  | @raised disk disk' returned faults event e _ hheld hhash hrun ih =>
    obtain ⟨l, hkept⟩ := ih
    rcases (failing.append_audit_event.spec hkept.recoverable hheld hhash).of_error hrun with
      hsame | hlogged
    · exact ⟨l, hsame, hkept.sublist, hkept.held⟩
    · exact ⟨_, hlogged, hkept.sublist.trans (List.sublist_append_left ..), hkept.held⟩

theorem Kept.survives {returned : List Dict} (h : Kept host disk returned l) :
    Survives host disk returned l where
  reads_back := by
    have hwp : wp (audit_events host) (fun l' d => l' = l ∧ d = disk) (fun _ => False) disk := by
      rw [wp_audit_events, h.recoverable.sound.events]
      exact ⟨rfl, rfl⟩
    obtain ⟨_, _, hrun, rfl, rfl⟩ := wp.total hwp
    exact hrun
  chains := h.recoverable.sound.verified
  keeps := by
    refine ⟨_, h.sublist, ?_⟩
    rw [List.forall₂_map_left_iff, List.forall₂_same]
    intro chained hchained
    exact eq_sortKeys (h.held chained hchained).keys
  returns_verified := by
    intro faults event chained disk' hheld hhash hrun
    obtain ⟨-, hrecoverable, hanchor⟩ :=
      (failing.append_audit_event.spec h.recoverable hheld hhash).of_ok hrun
    exact ok_iff.mpr ⟨_, hrecoverable.sound, hanchor⟩
  recovers := by
    intro event s hheld hid hs hnew
    obtain ⟨key', hkey⟩ := Option.isSome_iff_exists.mp h.recoverable.key
    have hadmits := admits_of_new_string_id h.recoverable.sound hs hid hnew
    have hhash : HashableId event := by
      unfold HashableId
      rw [hid]
      rfl
    have hgood := sound_appended hadmits hhash h.recoverable.tail hheld hkey
    exact ⟨_, _, append_ok hadmits hkey, ok_iff.mpr ⟨_, hgood⟩⟩

/-- In every run of appends from an empty directory, each of which can stop at any of its file
operations, the log stays a good chain with all the events that were returned, a call that returns
leaves the anchor good, and the next call that does not fail makes it good again. -/
theorem survives_failures (host : Host) {returned : List Dict}
    (h : FailingRuns host disk returned) : ∃ l, Survives host disk returned l := by
  obtain ⟨l, hkept⟩ := kept_of_failingRuns h
  exact ⟨l, hkept.survives⟩

/-- The rename of the anchor fails. -/
def renameFails : Faults StoreFile := fun op _ => if op = .rename then some "EACCES" else none

theorem first_append_stops : ∃ e disk',
    failing.append_audit_event plainHost renameFails (idEvent "audit-1") (fun _ => none) =
      .error e disk' := ⟨_, _, rfl⟩

theorem survives_failures_at_rename : ∃ disk l, Survives plainHost disk [] l := by
  obtain ⟨e, disk', hrun⟩ := first_append_stops
  obtain ⟨l, hl⟩ :=
    survives_failures plainHost (.raised .empty (held_idEvent "audit-1") rfl hrun)
  exact ⟨disk', l, hl⟩

end shell_core.persistence
