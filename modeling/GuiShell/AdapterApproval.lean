-- The approvals of the reference adapter (blue_tanuki_adapter/approvals.py), and what the policy
-- evaluator makes of them once they stand in a state.
import GuiShell.Sha256
import GuiShell.ShellCore.PolicyEvaluator

open json shell_core shell_core.schema_validation shell_core.policy_evaluator

namespace blue_tanuki_adapter

/-! ## The approval that the adapter makes -/

section approval

variable (source : List (String × Value))

/-- `source.get(key, default)`. -/
def sourceGet (key : String) (default : Value) : Value := (sorted_map.get key source).getD default

def normalize_approval : Value :=
  let status :=
    if sorted_map.get "adapter_approved" source = some (.bool true) then .string "pending"
    else sourceGet source "status" (.string "pending")
  let approval := [
    ("approval_id", sourceGet source "approval_id" (.string "blue-tanuki-approval-1")),
    ("runtime_id", .string "blue_tanuki"),
    ("operation", sourceGet source "operation" (.string "runtime.read")),
    ("target_scope", sourceGet source "target_scope" (.string "runtime_status")),
    ("status", status),
    ("content_visibility", sourceGet source "content_visibility" (.string "redacted")),
    ("payload_hash", sourceGet source "payload_hash" (.string
      "sha256:3333333333333333333333333333333333333333333333333333333333333333")),
    ("summary", sourceGet source "summary"
      (.string "BLUE-TANUKI runtime 操作を確認してください。")),
    ("redacted_payload", sourceGet source "redacted_payload"
      (.object [("target", .string "runtime"), ("details", .string "[redacted]")])),
    ("full_payload", sourceGet source "full_payload"
      (.object [("target", .string "runtime"), ("details", .string "mock")])),
    ("editable_fields", sourceGet source "editable_fields" (.array [.string "target"])),
    ("sealed_fields", sourceGet source "sealed_fields" (.array [.string "runtime_id"])),
    ("hidden_fields", sourceGet source "hidden_fields" (.array [])),
    ("sacred_fields", sourceGet source "sacred_fields" (.array [.string "authority_context"])),
    ("authority_fields", sourceGet source "authority_fields" (.array [.string "permission_id"]))]
  if status = .string "approved" ∧
      sorted_map.get "approved_by" source = some (.string "adapter") then
    .object (dict.setItem "status" (.string "pending") approval)
  else .object approval

/-- The source says that it is approved, and not that the adapter did it. -/
structure Grants : Prop where
  status : sorted_map.get "status" source = some (.string "approved")
  adapter_approved : sorted_map.get "adapter_approved" source ≠ some (.bool true)
  approved_by : sorted_map.get "approved_by" source ≠ some (.string "adapter")

theorem runtime_id_normalize_approval :
    getOrNone (normalize_approval source) "runtime_id" = .string "blue_tanuki" := by
  unfold normalize_approval
  dsimp only
  split <;> split <;> rfl

variable {source}

theorem status_approved_iff :
    getOrNone (normalize_approval source) "status" = .string "approved" ↔ Grants source := by
  have hstatus : getOrNone (normalize_approval source) "status" =
      if sorted_map.get "adapter_approved" source = some (.bool true) then .string "pending"
      else if sourceGet source "status" (.string "pending") = .string "approved" ∧
        sorted_map.get "approved_by" source = some (.string "adapter") then .string "pending"
      else sourceGet source "status" (.string "pending") := by
    unfold normalize_approval
    by_cases hadapter : sorted_map.get "adapter_approved" source = some (.bool true)
    · simp only [if_pos hadapter]
      rw [if_neg (by simp)]
      rfl
    · simp only [if_neg hadapter]
      split <;> rfl
  rw [hstatus]
  constructor
  · intro h
    split at h
    · simp at h
    · rename_i hadapter
      split at h
      · simp at h
      · rename_i hby
        refine ⟨?_, hadapter, fun hsome => hby ⟨h, hsome⟩⟩
        cases hget : sorted_map.get "status" source with
        | none => simp [sourceGet, hget] at h
        | some v => rw [← h, sourceGet, hget, Option.getD_some]
  · rintro ⟨hget, hadapter, hby⟩
    rw [if_neg hadapter, if_neg (fun h => hby h.2), sourceGet, hget, Option.getD_some]

end approval

/-! ## The evaluation with one more approval -/

section evaluation

variable {python : Python} {state state' : RuntimeState} {action : Value}

/-- An action that is allowed with the new approval and was not allowed before names an approval
that is approved. -/
theorem approved_of_allowed {approval : Value} (hstate : state.Enqueued approval state')
    (hallowed : Decides python state' action true)
    (hbefore : ¬Decides python state action true) :
    getOrNone approval "status" = .string "approved" := by
  rw [decides_true_iff, gateErrors_eq_nil_iff] at hallowed hbefore
  obtain ⟨⟨happroval, hothers⟩, henvelope⟩ := hallowed
  obtain ⟨⟨id, hid, hget⟩, hframe⟩ := hstate
  have hdenied : approvalErrors python state action (operationOf action) ≠ some [] := by
    intro hold
    apply hbefore
    rw [hframe] at hothers
    exact ⟨⟨hold, hothers⟩, henvelope⟩
  unfold approvalErrors at happroval hdenied
  cases hkey : getOrNone action "approval_id" with
  | string k =>
    rw [hkey, if_neg (by simp)] at happroval hdenied
    simp only [Records.lookup, hget] at happroval hdenied
    by_cases hk : id = k
    · rw [if_pos hk] at happroval
      dsimp only [Option.map_some] at happroval
      by_contra hstatus
      rw [if_pos hstatus] at happroval
      simp at happroval
    · rw [if_neg hk] at happroval
      exact absurd happroval hdenied
  | null | bool _ | number _ | array _ | object _ =>
    simp [hkey, Records.lookup, hashable] at happroval

end evaluation

/-! ## A state that only waits for the approval -/

section granting

def runtimeRecord : Value := .object [
  ("runtime_id", .string "blue_tanuki"),
  ("name", .string "BLUE-TANUKI"),
  ("kind", .string "reference_runtime"),
  ("status", .string "ready"),
  ("adapter_id", .string "blue_tanuki_adapter")]

def capabilityRecord (operation : String) : Value := .object [
  ("capability_id", .string "capability-1"),
  ("runtime_id", .string "blue_tanuki"),
  ("name", .string "Runtime operation"),
  ("risk_level", .string "high"),
  ("default_permission", .string "ask"),
  ("operations", .array [.string operation])]

def permissionRecord (operation target_scope : String) : Value := .object [
  ("permission_id", .string "permission-1"),
  ("runtime_id", .string "blue_tanuki"),
  ("capability_id", .string "capability-1"),
  ("operation", .string operation),
  ("target_scope", .string target_scope),
  ("scope", .string "target"),
  ("decision", .string "allow"),
  ("source", .string "policy")]

def auditHash : Value :=
  .string "sha256:3333333333333333333333333333333333333333333333333333333333333333"

def auditRecord (operation : String) : Value := .object [
  ("event_id", .string "audit-1"),
  ("timestamp", .string "2026-06-05T00:00:00Z"),
  ("actor", .string "shell"),
  ("action", .string operation),
  ("target", .string "blue_tanuki"),
  ("result", .string "success"),
  ("payload_hash", auditHash)]

def recoveryRecord (operation : String) : Value := .object [
  ("recovery_id", .string "recovery-1"),
  ("runtime_id", .string "blue_tanuki"),
  ("operation", .string operation),
  ("class", .string "permission_denied"),
  ("severity", .string "warning"),
  ("user_visible_message", .string "Approval required."),
  ("safe_to_retry", .bool true)]

variable {operation target_scope approval_id : String}

theorem validates_capabilityRecord (hop : operation ≠ "") :
    validates (capabilityRecord operation) capability_schema = true := by
  apply decide_eq_true
  apply valid_closedObject
  · simp only [List.forall_mem_cons]
    exact ⟨rfl, rfl, rfl, rfl, rfl, rfl, List.forall_mem_nil _⟩
  · simp only [List.forall_mem_cons]
    refine ⟨⟨_, rfl, rfl⟩, ⟨_, rfl, rfl⟩, ⟨_, rfl, rfl⟩, ⟨_, rfl, rfl⟩, ⟨_, rfl, rfl⟩,
      ⟨_, rfl, ?_⟩, List.forall_mem_nil _⟩
    unfold validate_instance
    simp only [ExpectedType.admits, type_matches]
    rw [validateItems, valid_text hop]
    rfl

theorem validates_permissionRecord (hop : operation ≠ "") (htarget : target_scope ≠ "") :
    validates (permissionRecord operation target_scope) permission_schema = true := by
  apply decide_eq_true
  apply valid_closedObject
  · simp only [List.forall_mem_cons]
    exact ⟨rfl, rfl, rfl, rfl, rfl, rfl, rfl, rfl, List.forall_mem_nil _⟩
  · simp only [List.forall_mem_cons]
    exact ⟨⟨_, rfl, rfl⟩, ⟨_, rfl, rfl⟩, ⟨_, rfl, rfl⟩, ⟨_, rfl, valid_text hop⟩,
      ⟨_, rfl, valid_text htarget⟩, ⟨_, rfl, rfl⟩, ⟨_, rfl, rfl⟩, ⟨_, rfl, rfl⟩,
      List.forall_mem_nil _⟩

theorem validates_auditRecord (hop : operation ≠ "") :
    validates (auditRecord operation) audit_schema = true := by
  apply decide_eq_true
  apply valid_closedObject
  · simp only [List.forall_mem_cons]
    exact ⟨rfl, rfl, rfl, rfl, rfl, rfl, rfl, List.forall_mem_nil _⟩
  · simp only [List.forall_mem_cons]
    exact ⟨⟨_, rfl, rfl⟩, ⟨_, rfl, rfl⟩, ⟨_, rfl, rfl⟩, ⟨_, rfl, valid_text hop⟩,
      ⟨_, rfl, rfl⟩, ⟨_, rfl, rfl⟩, ⟨_, rfl, valid_digest (by decide)⟩,
      List.forall_mem_nil _⟩

theorem validates_recoveryRecord (hop : operation ≠ "") :
    validates (recoveryRecord operation) recovery_schema = true := by
  apply decide_eq_true
  apply valid_closedObject
  · simp only [List.forall_mem_cons]
    exact ⟨rfl, rfl, rfl, rfl, rfl, rfl, rfl, List.forall_mem_nil _⟩
  · simp only [List.forall_mem_cons]
    exact ⟨⟨_, rfl, rfl⟩, ⟨_, rfl, rfl⟩, ⟨_, rfl, valid_text hop⟩, ⟨_, rfl, rfl⟩,
      ⟨_, rfl, rfl⟩, ⟨_, rfl, rfl⟩, ⟨_, rfl, rfl⟩,
      List.forall_mem_nil _⟩

/-- Everything that an action of the operation needs, without an approval. -/
def waitingState (hop : operation ≠ "") (htarget : target_scope ≠ "") : RuntimeState where
  runtimes := .single "blue_tanuki" runtimeRecord (by decide +kernel) rfl
  capabilities := .single "capability-1" (capabilityRecord operation)
    (validates_capabilityRecord hop) rfl
  permissions := .single "permission-1" (permissionRecord operation target_scope)
    (validates_permissionRecord hop htarget) rfl
  approvals := .empty
  audit_events := .single "audit-1" (auditRecord operation) (validates_auditRecord hop) rfl
  recovery_actions := .single "recovery-1" (recoveryRecord operation)
    (validates_recoveryRecord hop) rfl

def auditEvent : Value := .object [("event_id", .string "audit-1"), ("payload_hash", auditHash)]

def waitingAction (operation target_scope approval_id : String) : Value := .object [
  ("runtime_id", .string "blue_tanuki"),
  ("operation", .string operation),
  ("target_scope", .string target_scope),
  ("capability_id", .string "capability-1"),
  ("permission_id", .string "permission-1"),
  ("approval_id", .string approval_id),
  ("audit_event", auditEvent),
  ("recovery_action", .object [("recovery_id", .string "recovery-1")])]

theorem relationErrors_eq_nil {action operation record : Value} {fields : List String}
    {message : String → String}
    (h : ∀ field ∈ fields, getOrNone action field = getOrNone record field) :
    relationErrors action operation fields message record = [] := by
  unfold relationErrors
  rw [List.flatMap_eq_nil_iff]
  intro field hfield
  simp [differs, h field hfield, policy_evaluator.errorUnless]

/-- The envelope of that action. -/
def envelopeRecord (python : Python) (operation target_scope approval_id : String) : Value :=
  .object [
    ("envelope_id", .string "action-envelope-evaluated"),
    ("runtime_id", .string "blue_tanuki"),
    ("operation", .string operation),
    ("capability_id", .string "capability-1"),
    ("permission_id", .string "permission-1"),
    ("approval_id", .string approval_id),
    ("recovery_id", .string "recovery-1"),
    ("target_scope", .string target_scope),
    ("payload_hash", .string (approval_queue.canonical_hash python.sha256 .null)),
    ("authority_source", .string "broker_internal"),
    ("audit_event_required", .bool true),
    ("metadata", .object [("evidence_class", .string "INTERNAL_STATE")])]

variable {python : Python} (hop : operation ≠ "") (htarget : target_scope ≠ "")

theorem waiting_capability :
    capabilityErrors python (waitingState hop htarget)
      (waitingAction operation target_scope approval_id) (.string operation) = some [] := by
  have hlookup : (waitingState hop htarget).capabilities.lookup (.string "capability-1") =
      some (some (capabilityRecord operation)) := rfl
  have hoperations : getOrNone (capabilityRecord operation) "operations" =
    .array [.string operation] := rfl
  have hmem : decide (Value.string operation ∈ [Value.string operation]) = true := by simp
  unfold capabilityErrors
  rw [show getOrNone (waitingAction operation target_scope approval_id) "capability_id" =
    .string "capability-1" from rfl]
  dsimp only
  rw [hlookup, Option.map_some]
  dsimp only
  rw [hoperations]
  dsimp only
  rw [hmem]
  rfl

theorem waiting_permission :
    permissionErrors python (waitingState hop htarget)
      (waitingAction operation target_scope approval_id) (.string operation) = some [] := by
  have hlookup : (waitingState hop htarget).permissions.lookup (.string "permission-1") =
      some (some (permissionRecord operation target_scope)) := rfl
  unfold permissionErrors
  rw [show getOrNone (waitingAction operation target_scope approval_id) "permission_id" =
    .string "permission-1" from rfl]
  dsimp only
  rw [hlookup, Option.map_some]
  dsimp only
  rw [relationErrors_eq_nil]
  · rfl
  · simp only [List.forall_mem_cons]
    exact ⟨rfl, rfl, rfl, List.forall_mem_nil _⟩

theorem waiting_audit :
    auditErrors python (waitingState hop htarget)
      (waitingAction operation target_scope approval_id) (.string operation) = some [] := by
  have hlookup : (waitingState hop htarget).audit_events.lookup (.string "audit-1") =
      some (some (auditRecord operation)) := rfl
  have hmem : decide (Value.string operation ∈ [Value.null, Value.string operation]) = true := by
    simp
  have hstored : storedAuditErrors python (waitingAction operation target_scope approval_id)
      (.string operation) auditEvent (some (auditRecord operation)) = some [] := by
    unfold storedAuditErrors
    dsimp only
    rw [if_pos (show hashable (.string operation) = true from rfl),
      show getOrNone (auditRecord operation) "action" = .string operation from rfl, hmem]
    rfl
  unfold auditErrors
  rw [show getOrNone (waitingAction operation target_scope approval_id) "audit_event" =
    auditEvent from rfl]
  unfold auditEvent
  dsimp only
  rw [show getOrNone (.object [("event_id", .string "audit-1"), ("payload_hash", auditHash)])
    "event_id" = .string "audit-1" from rfl, hlookup, Option.bind_some]
  unfold auditEvent at hstored
  rw [hstored]
  rfl

theorem waiting_recovery :
    recoveryErrors python (waitingState hop htarget)
      (waitingAction operation target_scope approval_id) (.string operation) = some [] := by
  have hlookup : (waitingState hop htarget).recovery_actions.lookup (.string "recovery-1") =
      some (some (recoveryRecord operation)) := rfl
  unfold recoveryErrors
  rw [show getOrNone (waitingAction operation target_scope approval_id) "recovery_action" =
    .object [("recovery_id", .string "recovery-1")] from rfl]
  dsimp only
  rw [show getOrNone (.object [("recovery_id", .string "recovery-1")]) "recovery_id" =
    .string "recovery-1" from rfl, if_neg (by decide), hlookup, Option.map_some]
  dsimp only
  rw [relationErrors_eq_nil]
  simp only [List.forall_mem_cons]
  exact ⟨rfl, rfl, List.forall_mem_nil _⟩

/-- A digest of 32 bytes gives a payload hash of the form that the contracts ask for. -/
theorem isDigest_canonical_hash (h : ∀ m, (python.sha256 m).length = 32) (payload : Value) :
    isDigest (dropFinalNewline
      (approval_queue.canonical_hash python.sha256 payload).toList) = true := by
  have htext : ∃ digest : Bytes, digest.length = 32 ∧
      (approval_queue.canonical_hash python.sha256 payload).toList =
        "sha256:".toList ++ hex.digits digest := by
    refine ⟨_, h (utf8.encode (dumps payload)), ?_⟩
    unfold approval_queue.canonical_hash hex.encode
    rw [String.toList_append]
    exact congrArg ("sha256:".toList ++ ·) String.toList_ofList
  obtain ⟨digest, hdigest, htext⟩ := htext
  have hlength : (hex.digits digest).length = 64 := by rw [hex.digits_length, hdigest]
  have hchars := hex.digits_chars digest
  have hlast : ("sha256:".toList ++ hex.digits digest).getLast? ≠ some '\n' := by
    intro hlast
    have hne : hex.digits digest ≠ [] := List.ne_nil_of_length_pos (by omega)
    rw [List.getLast?_append_of_ne_nil _ hne] at hlast
    exact absurd (hchars _ (List.mem_of_getLast? hlast)) (by decide)
  have hdrop : dropFinalNewline ("sha256:".toList ++ hex.digits digest) =
      "sha256:".toList ++ hex.digits digest := if_neg hlast
  rw [htext, hdrop]
  unfold isDigest
  have htake : ("sha256:".toList ++ hex.digits digest).take 7 = "sha256:".toList :=
    List.take_left' rfl
  have hrest : ("sha256:".toList ++ hex.digits digest).drop 7 = hex.digits digest :=
    List.drop_left' rfl
  rw [htake, hrest, hlength]
  simp only [decide_true, Bool.true_and, List.all_eq_true]
  intro c hc
  rcases hchars c hc with hdigit | hletter
  · simpa [Char.isDigit] using .inl hdigit
  · simp [hletter.1, hletter.2]

theorem waiting_envelope (hop : operation ≠ "") (htarget : target_scope ≠ "")
    (happroval : approval_id ≠ "") (hdigest : ∀ m, (python.sha256 m).length = 32) :
    ∃ envelope, build_action_envelope python
      (waitingAction operation target_scope approval_id) = .ok envelope := by
  have hvalid : validate_instance python.str
      (envelopeRecord python operation target_scope approval_id) action_envelope_schema "$" =
        some [] := by
    apply valid_closedObject
    · simp only [List.forall_mem_cons]
      exact ⟨rfl, rfl, rfl, rfl, rfl, rfl, rfl, rfl, rfl, rfl, rfl, List.forall_mem_nil _⟩
    · simp only [List.forall_mem_cons]
      exact ⟨⟨_, rfl, rfl⟩, ⟨_, rfl, rfl⟩, ⟨_, rfl, valid_text hop⟩, ⟨_, rfl, rfl⟩,
        ⟨_, rfl, rfl⟩, ⟨_, rfl, valid_text happroval⟩, ⟨_, rfl, rfl⟩,
        ⟨_, rfl, valid_text htarget⟩, ⟨_, rfl, valid_digest (isDigest_canonical_hash hdigest _)⟩,
        ⟨_, rfl, rfl⟩, ⟨_, rfl, rfl⟩, ⟨_, rfl, rfl⟩, List.forall_mem_nil _⟩
  have hindex (key : String) {value : Value}
      (h : (waitingAction operation target_scope approval_id).get key = some value) :
      index (waitingAction operation target_scope approval_id) key = .ok value := by
    rw [index, h]
  have hrecovery : index (.object [("recovery_id", .string "recovery-1")]) "recovery_id" =
    .ok (.string "recovery-1") := rfl
  have hpayload : getOrNone (waitingAction operation target_scope approval_id) "payload" = .null :=
    rfl
  refine ⟨envelopeRecord python operation target_scope approval_id, ?_⟩
  unfold build_action_envelope
  rw [hindex "runtime_id" rfl, hindex "operation" rfl, hindex "capability_id" rfl,
    hindex "permission_id" rfl, hindex "approval_id" rfl, hindex "recovery_action" rfl,
    hindex "target_scope" rfl]
  simp only [bind, Except.bind, hrecovery, hpayload]
  unfold envelopeRecord at hvalid ⊢
  rw [hvalid]

/-- Without an approval the action is denied. -/
theorem waiting_denied :
    Decides python (waitingState hop htarget)
      (waitingAction operation target_scope approval_id) false := by
  let action := waitingAction operation target_scope approval_id
  let error := shell_error "approval_missing"
    ("未知の approval です: " ++ python.str (.string approval_id)) (.string operation)
  have happroval : approvalErrors python (waitingState hop htarget) action (.string operation) =
      some [error] := rfl
  have hgates : gateErrors python (waitingState hop htarget) action (operationOf action) =
      some [error] := by
    unfold gateErrors
    rw [show operationOf action = .string operation from rfl, happroval,
      waiting_capability hop htarget, waiting_permission hop htarget, waiting_audit hop htarget,
      waiting_recovery hop htarget]
    rfl
  exact decides_false_of_errors hgates (List.cons_ne_nil _ _)

theorem waiting_allowed {approval : Value} {state' : RuntimeState}
    (hdigest : ∀ m, (python.sha256 m).length = 32) (happroval_id : approval_id ≠ "")
    (hstate : (waitingState hop htarget).enqueue_approval approval = some state')
    (hid : approval.get "approval_id" = some (.string approval_id))
    (hstatus : getOrNone approval "status" = .string "approved")
    (hruntime_id : getOrNone approval "runtime_id" = .string "blue_tanuki")
    (hoperation : getOrNone approval "operation" = .string operation)
    (htarget_scope : getOrNone approval "target_scope" = .string target_scope) :
    Decides python state' (waitingAction operation target_scope approval_id) true := by
  obtain ⟨⟨id, hid', hget⟩, hframe⟩ := RuntimeState.enqueued_of_enqueue hstate
  rw [hid] at hid'
  cases hid'
  have hlookup : state'.approvals.lookup (.string approval_id) = some (some approval) := by
    rw [Records.lookup, hget, if_pos rfl]
  rw [decides_true_iff, gateErrors_eq_nil_iff]
  refine ⟨⟨?_, ?_⟩, waiting_envelope hop htarget happroval_id hdigest⟩
  · unfold approvalErrors
    rw [show getOrNone (waitingAction operation target_scope approval_id) "approval_id" =
      .string approval_id from rfl]
    dsimp only
    rw [if_neg (by simp), hlookup, Option.map_some]
    dsimp only
    rw [if_neg (not_not.mpr hstatus), relationErrors_eq_nil]
    · rfl
    · simp only [List.forall_mem_cons]
      exact ⟨hruntime_id.symm, hoperation.symm, htarget_scope.symm, List.forall_mem_nil _⟩
  · rw [hframe]
    exact ⟨rfl, waiting_capability hop htarget, waiting_permission hop htarget,
      waiting_audit hop htarget, waiting_recovery hop htarget, rfl, rfl⟩

end granting

/-! ## What an adapter approves -/

/-- The adapter approves nothing by itself exactly when its source does not say `approved`, or says
that the adapter did it. -/
theorem adapter_cannot_approve_iff (python : Python)
    (hdigest : ∀ m, (python.sha256 m).length = 32) {source : List (String × Value)}
    (haccepted : validates (normalize_approval source) approval_schema = true) :
    (∀ (state state' : RuntimeState) (action : Value),
      state.enqueue_approval (normalize_approval source) = some state' →
      Decides python state action false → ¬Decides python state' action true) ↔
    ¬Grants source := by
  constructor
  · intro h hgrants
    have hvalid := of_decide_eq_true haccepted
    obtain ⟨approval_id, hid, happroval_id⟩ :=
      text_of_valid "approval_id" rfl (by decide) rfl hvalid
    obtain ⟨operation, hop, hoperation⟩ :=
      text_of_valid "operation" rfl (by decide) rfl hvalid
    obtain ⟨target_scope, htarget, htarget_scope⟩ :=
      text_of_valid "target_scope" rfl (by decide) rfl hvalid
    obtain ⟨approvals, hregister, -⟩ := Records.register_of_valid
      (waitingState hoperation htarget_scope).approvals haccepted hid
    have hstate : (waitingState hoperation htarget_scope).enqueue_approval
        (normalize_approval source) =
          some { waitingState hoperation htarget_scope with approvals } := by
      rw [RuntimeState.enqueue_approval, hregister]
      rfl
    refine h _ _ (waitingAction operation target_scope approval_id) hstate (waiting_denied _ _) ?_
    apply waiting_allowed hoperation htarget_scope hdigest happroval_id hstate hid
      (status_approved_iff.mpr hgrants)
    · exact runtime_id_normalize_approval source
    · rw [getOrNone, hop]
      rfl
    · rw [getOrNone, htarget]
      rfl
  · intro hno state state' action hstate hdenied hallowed
    apply hno
    apply status_approved_iff.mp
    apply approved_of_allowed (RuntimeState.enqueued_of_enqueue hstate) hallowed
    intro hbefore
    exact absurd (hbefore.unique hdenied) (by decide)

/-- An interpreter with the digest of the standard. -/
def plainPython : Python where
  unicode := .ascii
  sha256 := fips.digest
  str _ := ""
  subscript_error _ := ""

/-- A source that says it was approved, by the adapter. -/
def markedSource : List (String × Value) := [("approval_id", .string "approval-7"),
  ("operation", .string "file.write"), ("status", .string "approved"),
  ("approved_by", .string "adapter")]

theorem adapter_cannot_approve_marked : ¬Grants markedSource ∧
    ∀ (state state' : RuntimeState) (action : Value),
      state.enqueue_approval (normalize_approval markedSource) = some state' →
      Decides plainPython state action false → ¬Decides plainPython state' action true := by
  have hmarked : ¬Grants markedSource := fun hgrants => hgrants.approved_by rfl
  exact ⟨hmarked,
    (adapter_cannot_approve_iff plainPython fips.digest_length (by decide +kernel)).mpr hmarked⟩

/-- The source `{"status": "approved"}` turns a denied action into an allowed one. -/
theorem adapter_approves :
    let state := waitingState (by decide : "runtime.read" ≠ "") (by decide : "runtime_status" ≠ "")
    let action := waitingAction "runtime.read" "runtime_status" "blue-tanuki-approval-1"
    ∃ state', state.enqueue_approval (normalize_approval [("status", .string "approved")]) =
        some state' ∧
      Decides plainPython state action false ∧ Decides plainPython state' action true := by
  intro state action
  obtain ⟨approvals, hregister, -⟩ := state.approvals.register_of_valid
    (show validates (normalize_approval [("status", .string "approved")]) approval_schema = true
      by decide +kernel) rfl
  have hstate : state.enqueue_approval (normalize_approval [("status", .string "approved")]) =
      some { state with approvals } := by
    rw [RuntimeState.enqueue_approval, hregister]
    rfl
  exact ⟨_, hstate, waiting_denied _ _,
    waiting_allowed _ _ fips.digest_length (by decide) hstate rfl rfl rfl rfl rfl⟩

end blue_tanuki_adapter
