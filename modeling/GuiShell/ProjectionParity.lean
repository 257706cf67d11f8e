-- What an approval shows of its content, in the Python shell and in the broker, side by side: the
-- same but for the approvals that neither shows anything of.
import GuiShell.ContentProjection
import GuiShell.EditParity

open json serde_json approval_edits shell_core shell_core.approval_queue

namespace projection_parity

variable {f64 : List Char → Option FloatText} {python : Python} {v w : Value}

/-- The visibilities that both know. -/
def visibilities : List String := ["none", "hash_only", "summary", "redacted", "full"]

/-- The visibility is a known one, and there is a hash where only a hash is shown. -/
def Shown (approval : Value) : Prop :=
  ∃ visibility ∈ visibilities, approval.get "content_visibility" = some (.string visibility) ∧
    (visibility = "hash_only" → (approval.get "payload_hash").isSome = true)

/-- Both projections show the same, as the broker reads what the Python shell shows. -/
def Agree (f64 : List Char → Option FloatText) (python : Python) (v w : Value) : Prop :=
  ∃ shown, content_exposure.project_approval_content python v = some shown ∧
    valueOf f64 shown = some (authority.project_approval_content w)

/-! ## One field of the approval -/

/-- A field that is shown under its name, or a default that is shown where it is missing. -/
theorem valueOf_shown (hd : v.Distinct) (h : valueOf f64 v = some w) (key : String)
    {default : Value} (hdefault : valueOf f64 default = some default) :
    valueOf f64 (.object [(key, (v.get key).getD default)]) =
      some (.mkObject [(key, (w.get key).getD default)]) := by
  have hvalue : valueOf f64 ((v.get key).getD default) = some ((w.get key).getD default) := by
    cases hget : v.get key with
    | none =>
      rw [(get_eq_none_iff hd h).mpr hget]
      exact hdefault
    | some x =>
      obtain ⟨y, hy, hread⟩ := get_some_of_valueOf hd h hget
      rw [hy]
      exact hread
  simp only [valueOf, fieldsOf, hvalue, Option.bind_eq_bind, Option.bind_some, Option.map_some]
  rfl

theorem get_of_getD {o : Option Value} {s : String} (h : o.getD .null = .string s) :
    o = some (.string s) := by
  cases o with
  | none => cases h
  | some x => exact congrArg some h

theorem get_of_strField {key s : String} (hs : s ≠ "")
    (h : (authority.strField w key).getD "" = s) : w.get key = some (.string s) := by
  unfold authority.strField at h
  cases hget : w.get key with
  | none =>
    rw [hget] at h
    exact absurd h.symm hs
  | some x =>
    rw [hget] at h
    cases x with
    | string t => exact congrArg (some ∘ Value.string) h
    | _ => exact absurd h.symm hs

/-! ## Approvals of an unknown visibility -/

section unknown

variable (hunknown : ∀ visibility ∈ visibilities,
  v.get "content_visibility" ≠ some (.string visibility))

include hunknown

theorem python_unknown : ∃ error, content_exposure.project_approval_content python v =
    some (.object [("error", .object error)]) := by
  unfold content_exposure.project_approval_content getOrNone
  split
  all_goals first
    | exact ⟨_, rfl⟩
    | exact absurd (get_of_getD (by assumption)) (hunknown _ (by simp [visibilities]))

theorem rust_unknown (hd : v.Distinct) (h : valueOf f64 v = some w) : ∃ error,
    authority.project_approval_content w = .mkObject [("error", .string error)] := by
  have hget : ∀ visibility ∈ visibilities, visibility ≠ "" →
      (authority.strField w "content_visibility").getD "" ≠ visibility := by
    intro visibility hvisibility hne hfield
    refine hunknown visibility hvisibility ?_
    exact (get_eq_leaf_iff hd h (x := .string _) trivial).mp (get_of_strField hne hfield)
  unfold authority.project_approval_content
  dsimp only
  split
  all_goals first
    | exact ⟨_, rfl⟩
    | exact absurd (by assumption) (hget _ (by simp [visibilities]) (by simp))

end unknown

/-! ## What is shown -/

theorem agree_of_shown (hd : v.Distinct) (h : valueOf f64 v = some w) (hshown : Shown v) :
    Agree f64 python v w := by
  obtain ⟨visibility, hmem, hget, hhash⟩ := hshown
  have hpython : getOrNone v "content_visibility" = .string visibility := by
    rw [getOrNone, hget]
    rfl
  have hrust : (authority.strField w "content_visibility").getD "" = visibility := by
    rw [authority.strField, (get_eq_leaf_iff hd h (x := .string visibility) trivial).mpr hget]
    rfl
  have hempty : valueOf f64 (.object []) = some (.object []) := rfl
  have htext : valueOf f64 (.string "") = some (.string "") := rfl
  unfold Agree content_exposure.project_approval_content authority.project_approval_content
  dsimp only
  rw [hpython, hrust]
  unfold visibilities at hmem
  simp only [List.mem_cons, List.not_mem_nil, or_false] at hmem
  rcases hmem with rfl | rfl | rfl | rfl | rfl
  · exact ⟨_, rfl, hempty⟩
  · obtain ⟨hash, hx⟩ := Option.isSome_iff_exists.mp (hhash rfl)
    have hread := @valueOf_shown _ _ _ hd h "payload_hash" .null rfl
    rw [hx, Option.getD_some] at hread
    exact ⟨_, by rw [hx]; rfl, hread⟩
  · exact ⟨_, rfl, valueOf_shown hd h "summary" htext⟩
  · exact ⟨_, rfl, valueOf_shown hd h "redacted_payload" hempty⟩
  · exact ⟨_, rfl, valueOf_shown hd h "full_payload" hempty⟩

/-- What both show when they do not agree: of a hash that is missing the Python shell raises and
the broker shows null; of an unknown visibility each shows an error of its own. -/
def Apart (python : Python) (v w : Value) : Prop :=
  (content_exposure.project_approval_content python v = none ∧
    authority.project_approval_content w = .mkObject [("payload_hash", .null)]) ∨
  ∃ error message,
    content_exposure.project_approval_content python v =
      some (.object [("error", .object error)]) ∧
    authority.project_approval_content w = .mkObject [("error", .string message)]

theorem apart_of_not_shown (hd : v.Distinct) (h : valueOf f64 v = some w) (hshown : ¬ Shown v) :
    Apart python v w := by
  by_cases hknown : ∃ visibility ∈ visibilities,
      v.get "content_visibility" = some (.string visibility)
  · obtain ⟨visibility, hmem, hget⟩ := hknown
    have hmissing : visibility = "hash_only" ∧ v.get "payload_hash" = none := by
      by_contra hnot
      refine hshown ⟨visibility, hmem, hget, fun hhash => ?_⟩
      rw [Option.isSome_iff_ne_none]
      exact fun hnone => hnot ⟨hhash, hnone⟩
    obtain ⟨rfl, hnone⟩ := hmissing
    refine .inl ⟨?_, ?_⟩
    · rw [content_exposure.project_approval_content, getOrNone, hget, hnone]
      rfl
    · have hrust := (get_eq_leaf_iff hd h (x := .string "hash_only") trivial).mpr hget
      rw [authority.project_approval_content, authority.strField, hrust,
        (get_eq_none_iff hd h).mpr hnone]
      rfl
  · have hunknown : ∀ visibility ∈ visibilities,
        v.get "content_visibility" ≠ some (.string visibility) :=
      fun visibility hmem hget => hknown ⟨visibility, hmem, hget⟩
    obtain ⟨error, hpython⟩ := @python_unknown python _ hunknown
    obtain ⟨message, hrust⟩ := rust_unknown hunknown hd h
    exact .inr ⟨error, message, hpython, hrust⟩

theorem Apart.not_agree (h : Apart python v w) : ¬ Agree f64 python v w := by
  rintro ⟨shown, hshown, hread⟩
  rcases h with ⟨hnone, -⟩ | ⟨error, message, hpython, hrust⟩
  · rw [hnone] at hshown
    cases hshown
  · rw [hpython, Option.some.injEq] at hshown
    rw [← hshown, hrust] at hread
    have hfield := ((valueOf_object_iff (by simp)).mp hread).2 "error"
    have hvalue : valueOf f64 (.object error) = some (.string message) :=
      (Option.some.inj hfield).symm
    cases (valueOf_eq_leaf_iff (x := .string message) trivial).mp hvalue

/-- Both show the same exactly when the visibility is a known one and has what it shows. -/
theorem agree_iff (python : Python) (hd : v.Distinct) (h : valueOf f64 v = some w) :
    Agree f64 python v w ↔ Shown v := by
  constructor
  · intro hagree
    by_contra hshown
    exact (apart_of_not_shown hd h hshown).not_agree hagree
  · exact agree_of_shown hd h

/-! ## After edits -/

/-- The queue and the broker show the same of an approval after any edits of it, exactly when the
approval as it stands then has a visibility that both know and what it shows. -/
theorem projections_agree {crates : Crates} {queue : ApprovalQueue} {id : String}
    {approval read : Fields} (python : Python) (hplain : edit_parity.PlainApproval approval)
    (hd : (Value.object approval).Distinct)
    (hread : valueOf crates.f64 (.object approval) = some (.object read))
    (hget : queue.get id = some approval) {edits : List Edit}
    (hedits : ∀ e ∈ edits, e.approval_id = id ∧ edit_parity.PlainEdit e) :
    let queue' := edits.foldl (fun queue e => (edit crates.sha256 queue e).2) queue
    let reached := edits.foldl (fun approval e => answered crates approval (edit_parity.patchOf e))
      read
    ∃ current, queue'.get id = some current ∧
      (Agree crates.f64 python (.object current) (.object reached) ↔ Shown (.object current)) ∧
      (¬ Shown (.object current) → Apart python (.object current) (.object reached)) := by
  intro queue' reached
  obtain ⟨current, hcurrent, hsame⟩ := edit_parity.same_run ⟨hplain, hd, hread⟩ hget hedits
  exact ⟨current, hcurrent, agree_iff python hsame.distinct hsame.reads,
    apart_of_not_shown hsame.distinct hsame.reads⟩

/-- The note is shown in full, so both show its new path. -/
theorem projections_agree_note : ∃ current,
    (edit fips.digest ⟨[("approval-1", edit_parity.noteApproval)]⟩ edit_parity.pathEdit).2.get
        "approval-1" = some current ∧
      Agree (fun _ => none) content_projection.plain (.object current) (.object
        (answered .ascii edit_parity.noteApproval (edit_parity.patchOf edit_parity.pathEdit))) := by
  have hedits : ∀ e ∈ [edit_parity.pathEdit], e.approval_id = "approval-1" ∧
      edit_parity.PlainEdit e :=
    fun e he => edit_parity.plain_noteEdits e (List.mem_cons.mpr (.inl (List.mem_singleton.mp he)))
  obtain ⟨current, hcurrent, hagree, -⟩ := @projections_agree .ascii
    ⟨[("approval-1", edit_parity.noteApproval)]⟩ "approval-1" edit_parity.noteApproval
    edit_parity.noteApproval content_projection.plain edit_parity.plain_noteApproval (by decide) rfl
    rfl _ hedits
  have hvisibility : ((edit fips.digest ⟨[("approval-1", edit_parity.noteApproval)]⟩
      edit_parity.pathEdit).2.get "approval-1").bind (sorted_map.get "content_visibility") =
        some (.string "full") := by
    rfl
  have hshown : Shown (.object current) := by
    refine ⟨"full", by decide, ?_, fun h => absurd h (by decide)⟩
    rwa [show (edit fips.digest ⟨[("approval-1", edit_parity.noteApproval)]⟩
      edit_parity.pathEdit).2.get "approval-1" = some current from hcurrent] at hvisibility
  exact ⟨current, hcurrent, hagree.mpr hshown⟩

end projection_parity
