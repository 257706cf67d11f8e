-- What an approval shows of its content: the projections of the broker and of the Python shell
-- (content_exposure.py), and that of the shell snapshot (shell_snapshot.py), which is written
-- apart. Only the one of the snapshot looks into the full payload.
import GuiShell.Broker.Authority
import GuiShell.ShellCore.PolicyEvaluator

open json serde_json shell_core

namespace shell_core.content_exposure

/-- The content that the Python shell shows of an approval, or none when a hash is asked for and
there is none (the KeyError). -/
def project_approval_content (python : Python) (approval : Value) : Option Value :=
  match getOrNone approval "content_visibility" with
  | .string "none" => some (.object [])
  | .string "hash_only" =>
    (approval.get "payload_hash").map fun hash => .object [("payload_hash", hash)]
  | .string "summary" =>
    some (.object [("summary", (approval.get "summary").getD (.string ""))])
  | .string "redacted" =>
    some (.object [("redacted_payload", (approval.get "redacted_payload").getD (.object []))])
  | .string "full" =>
    some (.object [("full_payload", (approval.get "full_payload").getD (.object []))])
  | visibility => some (.object [("error", shell_error "content_visibility_violation"
      ("未知または欠落した content_visibility です: " ++ python.str visibility)
      (.string "content_projection"))])

end shell_core.content_exposure

namespace shell_snapshot

/-- The content that the snapshot shows of an approval, or none when it raises. `dict` of a value
that is no dict reads it as a list of pairs; that is `pairs`. -/
def projected_content (pairs : Value → Option Value) (approval : Value) : Option Value :=
  let payload := (approval.get "full_payload").getD (.object [])
  if getOrNone approval "content_visibility" = .string "full" then
    match payload with
    | .object fields => some (.object fields)
    | value => pairs value
  else
    match payload.get "path" with
    | some path => some (.object [("path", path), ("content", .string "[redacted]")])
    | none => some (.object [("summary", .string "[redacted]")])

/-- The names in a list of an approval. The contract lets it hold strings only. -/
def fieldNames (approval : Value) (field : String) : List String :=
  (((approval.get field).bind Value.as_array).getD []).filterMap Value.as_str

/-- `sorted` of the set of the names. -/
def protected_fields (approval : Value) : List String :=
  let names := ["authority_fields", "sealed_fields", "hidden_fields", "sacred_fields"].flatMap
    (fieldNames approval) ++ ["payload_hash"]
  (sorted_map.ofList (names.map fun name => (name, ()))).map Prod.fst

/-- The row of the snapshot for an approval. -/
def pendingApproval (pairs : Value → Option Value) (approval_id : String) (approval : Value) :
    Option Value :=
  (projected_content pairs approval).map fun content => .object [
    ("approval_id", .string approval_id),
    ("operation", (approval.get "operation").getD (.string "")),
    ("status", (approval.get "status").getD (.string "unknown")),
    ("content_visibility", (approval.get "content_visibility").getD (.string "redacted")),
    ("projected_content", content),
    ("editable_fields", (approval.get "editable_fields").getD (.array [])),
    ("protected_fields", .array ((protected_fields approval).map .string))]

/-- The approvals of the snapshot, by their ids. -/
def pending_approvals (pairs : Value → Option Value) (state : RuntimeState) :
    Option (List Value) :=
  (sorted_map.ofList state.approvals.entries).mapM fun e => pendingApproval pairs e.1 e.2

end shell_snapshot

namespace content_projection

variable {python : Python} {pairs : Value → Option Value} {a b : Value}

/-! ## Approvals with another full payload -/

/-- The approvals differ in their full payload only, and they are not to be shown in full. -/
structure SameBesideFullPayload (a b : Value) : Prop where
  same : ∀ key, key ≠ "full_payload" → a.get key = b.get key
  not_full : a.get "content_visibility" ≠ some (.string "full")

theorem SameBesideFullPayload.symm (h : SameBesideFullPayload a b) :
    SameBesideFullPayload b a where
  same key hkey := (h.same key hkey).symm
  not_full := by
    rw [← h.same _ (by decide)]
    exact h.not_full

theorem SameBesideFullPayload.getOrNone (h : SameBesideFullPayload a b) {key : String}
    (hkey : key ≠ "full_payload") : getOrNone a key = getOrNone b key := by
  unfold shell_core.getOrNone
  rw [h.same key hkey]

theorem SameBesideFullPayload.getOrNone_ne_full (h : SameBesideFullPayload a b) :
    shell_core.getOrNone a "content_visibility" ≠ .string "full" := by
  intro hfull
  unfold shell_core.getOrNone at hfull
  apply h.not_full
  rcases hv : a.get "content_visibility" with _ | v
  · simp [hv] at hfull
  · simpa [hv] using hfull

/-! ## The projections of the broker and of the Python shell -/

theorem rust_projection_eq (h : SameBesideFullPayload a b) :
    authority.project_approval_content a = authority.project_approval_content b := by
  have hvisibility : authority.strField a "content_visibility" =
      authority.strField b "content_visibility" := by
    unfold authority.strField
    rw [h.same _ (by simp)]
  have hfull : (authority.strField b "content_visibility").getD "" ≠ "full" := by
    intro hfull
    apply h.symm.not_full
    unfold authority.strField at hfull
    rcases hv : b.get "content_visibility" with _ | v
    · simp [hv] at hfull
    · cases v <;> simp_all [Value.as_str]
  unfold authority.project_approval_content
  rw [hvisibility, h.same "payload_hash" (by simp), h.same "summary" (by simp),
    h.same "redacted_payload" (by simp)]
  dsimp only
  split
  all_goals first | rfl | exact absurd ‹_› hfull

theorem python_projection_eq (h : SameBesideFullPayload a b) :
    content_exposure.project_approval_content python a =
      content_exposure.project_approval_content python b := by
  have hfull := h.symm.getOrNone_ne_full
  unfold content_exposure.project_approval_content
  have hvisibility : getOrNone a "content_visibility" = getOrNone b "content_visibility" :=
    h.getOrNone (by simp)
  rw [hvisibility, h.same "payload_hash" (by simp), h.same "summary" (by simp),
    h.same "redacted_payload" (by simp)]
  split
  all_goals first | rfl | exact absurd ‹_› hfull

/-! ## The projection of the snapshot -/

/-- The `path` of the full payload. -/
def fullPath (approval : Value) : Option Value :=
  (approval.get "full_payload").bind fun payload => payload.get "path"

/-- What the snapshot shows in the place of the content. -/
def redactedContent : Option Value → Value
  | some path => .object [("path", path), ("content", .string "[redacted]")]
  | none => .object [("summary", .string "[redacted]")]

theorem redactedContent_injective : Function.Injective redactedContent := by
  intro p q h
  rcases p with _ | p <;> rcases q with _ | q
  · rfl
  · simp [redactedContent] at h
  · simp [redactedContent] at h
  · simpa [redactedContent] using h

/-- An approval that is not to be shown in full shows the path of its full payload. -/
theorem projected_content_eq
    (h : getOrNone a "content_visibility" ≠ .string "full") :
    shell_snapshot.projected_content pairs a = some (redactedContent (fullPath a)) := by
  have hpath : ((a.get "full_payload").getD (.object [])).get "path" = fullPath a := by
    unfold fullPath
    rcases a.get "full_payload" with _ | payload
    · rfl
    · rfl
  unfold shell_snapshot.projected_content
  rw [if_neg h, hpath]
  rcases fullPath a with _ | path
  · rfl
  · rfl

theorem snapshot_projection_eq_iff (h : SameBesideFullPayload a b) :
    shell_snapshot.projected_content pairs a = shell_snapshot.projected_content pairs b ↔
      fullPath a = fullPath b := by
  rw [projected_content_eq h.getOrNone_ne_full, projected_content_eq h.symm.getOrNone_ne_full,
    Option.some.injEq, redactedContent_injective.eq_iff]

/-- All three projections hide the rest of the full payload, and they hide all of it exactly
when the paths in the full payloads are the same. -/
theorem projections_noninterfering_iff (python : Python) (pairs : Value → Option Value)
    (h : SameBesideFullPayload a b) :
    (authority.project_approval_content a = authority.project_approval_content b ∧
      content_exposure.project_approval_content python a =
        content_exposure.project_approval_content python b ∧
      shell_snapshot.projected_content pairs a = shell_snapshot.projected_content pairs b) ↔
      fullPath a = fullPath b := by
  rw [snapshot_projection_eq_iff h]
  constructor
  · rintro ⟨-, -, hpath⟩
    exact hpath
  · intro hpath
    exact ⟨rust_projection_eq h, python_projection_eq h, hpath⟩

/-! ## The listing of the snapshot -/

theorem pendingApproval_eq_iff (h : SameBesideFullPayload a b) (id : String) :
    shell_snapshot.pendingApproval pairs id a = shell_snapshot.pendingApproval pairs id b ↔
      fullPath a = fullPath b := by
  have hnames : ∀ field, field ≠ "full_payload" →
      shell_snapshot.fieldNames a field = shell_snapshot.fieldNames b field := by
    intro field hfield
    unfold shell_snapshot.fieldNames
    rw [h.same field hfield]
  have hprotected : shell_snapshot.protected_fields a = shell_snapshot.protected_fields b := by
    unfold shell_snapshot.protected_fields
    simp [hnames]
  unfold shell_snapshot.pendingApproval
  rw [projected_content_eq h.getOrNone_ne_full, projected_content_eq h.symm.getOrNone_ne_full,
    hprotected, h.same "operation" (by simp), h.same "status" (by simp),
    h.same "content_visibility" (by simp), h.same "editable_fields" (by simp)]
  simp [redactedContent_injective.eq_iff]

/-- Under the id, the states have the same approval, or two that differ in what is beside the
path of a full payload that is not to be shown. -/
def SameShown (s t : RuntimeState) (id : String) : Prop :=
  s.approvals.get id = t.approvals.get id ∨
    ∃ a b, s.approvals.get id = some a ∧ t.approvals.get id = some b ∧
      SameBesideFullPayload a b ∧ fullPath a = fullPath b

/-- What the snapshot lists does not depend on the rest of the full payloads. -/
theorem pending_approvals_eq {s t : RuntimeState} (h : ∀ id, SameShown s t id) :
    shell_snapshot.pending_approvals pairs s = shell_snapshot.pending_approvals pairs t := by
  have hrows : ∀ state : RuntimeState, shell_snapshot.pending_approvals pairs state =
      (((sorted_map.ofList state.approvals.entries).map fun e =>
        (e.1, shell_snapshot.pendingApproval pairs e.1 e.2)).mapM Prod.snd) := by
    intro state
    unfold shell_snapshot.pending_approvals
    rw [List.mapM_map]
    rfl
  have hsorted : ∀ state : RuntimeState, sorted_map.Sorted
      ((sorted_map.ofList state.approvals.entries).map fun e =>
        (e.1, shell_snapshot.pendingApproval pairs e.1 e.2)) := by
    intro state
    unfold sorted_map.Sorted
    rw [List.pairwise_map]
    exact sorted_map.sorted_ofList state.approvals.entries
  rw [hrows s, hrows t]
  refine congrArg _ ((hsorted s).ext (hsorted t) fun id => ?_)
  rw [sorted_map.get_mapWithKey, sorted_map.get_mapWithKey,
    sorted_map.get_ofList_of_nodup s.approvals.nodup,
    sorted_map.get_ofList_of_nodup t.approvals.nodup]
  rcases h id with hsame | ⟨a, b, ha, hb, hbeside, hpath⟩
  · unfold Records.get at hsame
    rw [hsame]
  · unfold Records.get at ha hb
    rw [ha, hb]
    simp only [Option.map_some, (pendingApproval_eq_iff hbeside id).mpr hpath]

/-! ## A path that shows -/

section example_approvals

def plain : Python where
  unicode := .ascii
  sha256 _ := []
  str _ := ""
  subscript_error _ := ""

/-- What stands beside the full payload. -/
def beside : List (String × Value) := [
  ("approval_id", .string "approval-1"),
  ("runtime_id", .string "runtime-1"),
  ("operation", .string "filesystem.write"),
  ("target_scope", .string "workspace"),
  ("status", .string "pending"),
  ("content_visibility", .string "redacted"),
  ("payload_hash", .string
    "sha256:74234e98afe7498fb5daf1f36ac2d78acc339464f950703b8c019892f982b90b"),
  ("redacted_payload", .object [("path", .string "[redacted]")]),
  ("editable_fields", .array [])]

/-- A redacted approval of a write to the path. -/
def approvalOf (path : String) : Value :=
  .object (beside ++ [("full_payload", .object [("path", .string path)])])

theorem get_approvalOf (path key : String) (h : key ≠ "full_payload") :
    (approvalOf path).get key = sorted_map.get key beside := by
  unfold approvalOf Value.get
  simp [sorted_map.get_append, sorted_map.get_cons, Ne.symm h]

theorem sameBeside_approvalOf (p q : String) :
    SameBesideFullPayload (approvalOf p) (approvalOf q) where
  same key hkey := by rw [get_approvalOf p key hkey, get_approvalOf q key hkey]
  not_full := by
    rw [get_approvalOf p _ (by simp)]
    decide

theorem fullPath_approvalOf (path : String) :
    fullPath (approvalOf path) = some (.string path) := by
  have hpayload : (approvalOf path).get "full_payload" =
      some (.object [("path", .string path)]) := rfl
  unfold fullPath
  rw [hpayload]
  rfl

theorem projections_noninterfering_instance :
    (authority.project_approval_content (approvalOf "a.md") =
        authority.project_approval_content (approvalOf "b.md") ∧
      content_exposure.project_approval_content plain (approvalOf "a.md") =
        content_exposure.project_approval_content plain (approvalOf "b.md") ∧
      shell_snapshot.projected_content some (approvalOf "a.md") =
        shell_snapshot.projected_content some (approvalOf "b.md")) ↔
      fullPath (approvalOf "a.md") = fullPath (approvalOf "b.md") :=
  projections_noninterfering_iff plain some (sameBeside_approvalOf "a.md" "b.md")

/-- Two valid approvals that differ in their full payloads only, and the snapshot shows it. -/
theorem snapshot_shows_path :
    schema_validation.validates (approvalOf "a.md") approval_schema = true ∧
      schema_validation.validates (approvalOf "b.md") approval_schema = true ∧
      SameBesideFullPayload (approvalOf "a.md") (approvalOf "b.md") ∧
      ∀ pairs, shell_snapshot.projected_content pairs (approvalOf "a.md") ≠
        shell_snapshot.projected_content pairs (approvalOf "b.md") := by
  refine ⟨by decide +kernel, by decide +kernel, sameBeside_approvalOf _ _, fun pairs => ?_⟩
  unfold Ne
  rw [snapshot_projection_eq_iff (sameBeside_approvalOf _ _), fullPath_approvalOf,
    fullPath_approvalOf]
  simp

end example_approvals

end content_projection
