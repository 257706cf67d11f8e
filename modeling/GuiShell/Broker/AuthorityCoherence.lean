-- What an allowed action has in common with the records that it names. A gate compares optional
-- strings, so a field that neither side has passes for equal.
import GuiShell.Broker.CallerAuthority

open json serde_json

namespace authority

variable {crates : Crates}

/-! ## The gates without errors -/

section gates

variable {state action : Value} {operation : String}

/-- The record that the action names in a collection of the state. -/
def Named (state action : Value) (collection id_field : String) (record : Value) : Prop :=
  (strField action id_field).bind (find_record state collection id_field) = some record

theorem relationErrors_eq_nil {fields : List String} {message : String → String} {record : Value} :
    relationErrors action operation fields message record = [] ↔
      ∀ field ∈ fields, strField action field = strField record field := by
  unfold relationErrors
  simp [List.flatMap_eq_nil_iff]

theorem runtime_registered (h : runtimeErrors state action operation = []) :
    ∃ runtime_id, strField action "runtime_id" = some runtime_id ∧
      contains_id state "runtimes" "runtime_id" runtime_id = true := by
  unfold runtimeErrors at h
  split at h
  · rename_i runtime_id hid
    exact ⟨runtime_id, hid, errorUnless_eq_nil.mp h⟩
  · cases h

theorem capability_belongs (h : capabilityErrors state action operation = []) :
    ∃ capability, Named state action "capabilities" "capability_id" capability ∧
      ((strField action "runtime_id").isNone ∨
        strField capability "runtime_id" = strField action "runtime_id") := by
  unfold capabilityErrors at h
  split at h
  · rename_i capability_id hid
    split at h
    · rename_i capability hfound
      refine ⟨capability, by rw [Named, hid]; exact hfound, ?_⟩
      simpa using (List.append_eq_nil_iff.mp h).1
    · cases h
  · cases h

theorem permission_allows (h : permissionErrors state action operation = []) :
    ∃ permission, Named state action "permissions" "permission_id" permission ∧
      (strField permission "decision" = some "allow" ∨
        strField permission "decision" = some "approved") ∧
      ∀ field ∈ ["runtime_id", "operation", "target_scope"],
        strField action field = strField permission field := by
  unfold permissionErrors at h
  split at h
  · cases h
  · rename_i permission hfound
    simp only [List.append_eq_nil_iff, errorUnless_eq_nil, relationErrors_eq_nil] at h
    obtain ⟨⟨hdecision, _⟩, hrelation⟩ := h
    refine ⟨permission, hfound, ?_, hrelation⟩
    cases hd : strField permission "decision" with
    | none =>
      rw [hd] at hdecision
      simp at hdecision
    | some decision =>
      rw [hd] at hdecision
      simpa using hdecision

/-- The hash in the approval counts when the action has one of the payload keys. -/
theorem approval_approves (h : approvalErrors crates state action operation = []) :
    ∃ approval, Named state action "approvals" "approval_id" approval ∧
      strField approval "status" = some "approved" ∧
      (∀ field ∈ ["runtime_id", "operation", "target_scope"],
        strField action field = strField approval field) ∧
      (action_has_payload action = true →
        strField approval "payload_hash" = some (expectedHash crates action)) := by
  unfold approvalErrors at h
  split at h
  · cases h
  · rename_i approval_id hid
    split at h
    · cases h
    · rename_i approval hfound
      split at h
      · cases h
      · rename_i hstatus
        simp only [List.append_eq_nil_iff, errorUnless_eq_nil, relationErrors_eq_nil] at h
        refine ⟨approval, by rw [Named, hid]; exact hfound, not_not.mp hstatus, h.1, fun hhas => ?_⟩
        simpa [hhas] using h.2

theorem recovery_matches (h : recoveryErrors state action operation = []) :
    ∃ recovery, (recoveryId action).bind (find_record state "recovery_actions" "recovery_id") =
        some recovery ∧
      ∀ field ∈ ["runtime_id", "operation"], strField action field = strField recovery field := by
  unfold recoveryErrors at h
  split at h
  · rename_i recovery_id hid
    split at h
    · rename_i recovery hfound
      exact ⟨recovery, by rw [hid]; exact hfound, relationErrors_eq_nil.mp h⟩
    · cases h
  · cases h

end gates

/-! ## Allowed actions -/

/-- The two evaluations: of a state and an action in a fixture, and of an action against the
registry of the broker. -/
inductive Evaluates (crates : Crates) : (state action decision : Value) → Prop
  | fixture (payload : Value) :
      Evaluates crates ((payload.get "state").getD .null) ((payload.get "action").getD .null)
        (evaluate_authority crates payload)
  | broker (registry : BrokerAuthorityRegistry) (payload : Value) :
      Evaluates crates registry.state (actionOf payload)
        (evaluate_broker_authority crates registry payload)

/-- The evaluation allows the action. -/
def Allows (decision : Value) : Prop := decision.get "allowed" = some (.bool true)

instance (decision : Value) : Decidable (Allows decision) := inferInstanceAs (Decidable (_ = _))

theorem Evaluates.authorityErrors_eq_nil {state action decision : Value}
    (h : Evaluates crates state action decision) (hallows : Allows decision) :
    ∃ mode, authorityErrors crates state action (operationOf action) mode = [] := by
  unfold Allows at hallows
  cases h with
  | fixture payload =>
    refine ⟨.Fixture, ?_⟩
    simpa [evaluate_authority, evaluate_authority_from_state, Value.get_mkObject,
      sorted_map.get_cons] using hallows
  | broker registry payload =>
    refine ⟨.Production, ?_⟩
    simp only [evaluate_broker_authority, Value.get_mkObject] at hallows
    simp [sorted_map.get_cons] at hallows
    exact hallows.2

/-- The record has the three strings. -/
structure Carries (record : Value) (runtime_id operation target_scope : String) : Prop where
  runtime_id : strField record "runtime_id" = some runtime_id
  operation : strField record "operation" = some operation
  target_scope : strField record "target_scope" = some target_scope

/-- The action and the records that it names are about one runtime, one operation and one
target. -/
structure CoherentAt (state action : Value) (runtime_id operation target_scope : String) : Prop where
  asked : Carries action runtime_id operation target_scope
  runtime : ∃ runtime ∈ recordsOf state "runtimes", strField runtime "runtime_id" = some runtime_id
  capability : ∃ capability, Named state action "capabilities" "capability_id" capability ∧
    strField capability "runtime_id" = some runtime_id
  permission : ∃ permission, Named state action "permissions" "permission_id" permission ∧
    Carries permission runtime_id operation target_scope ∧
    (strField permission "decision" = some "allow" ∨
      strField permission "decision" = some "approved")
  approval : ∃ approval, Named state action "approvals" "approval_id" approval ∧
    Carries approval runtime_id operation target_scope ∧
    strField approval "status" = some "approved"
  recovery : ∃ recovery,
    (recoveryId action).bind (find_record state "recovery_actions" "recovery_id") = some recovery ∧
    strField recovery "runtime_id" = some runtime_id ∧
    strField recovery "operation" = some operation

def Coherent (state action : Value) : Prop :=
  ∃ runtime_id operation target_scope, CoherentAt state action runtime_id operation target_scope

theorem Carries.of_match {action record : Value} {runtime_id operation target_scope : String}
    (h : Carries action runtime_id operation target_scope)
    (hmatch : ∀ field ∈ ["runtime_id", "operation", "target_scope"],
      strField action field = strField record field) :
    Carries record runtime_id operation target_scope := by
  constructor
  · rw [← hmatch "runtime_id" (by simp), h.runtime_id]
  · rw [← hmatch "operation" (by simp), h.operation]
  · rw [← hmatch "target_scope" (by simp), h.target_scope]

/-- An allowed action is coherent exactly when it names its operation and its target. -/
theorem allowed_coherent_iff {state action decision : Value}
    (h : Evaluates crates state action decision) (hallows : Allows decision) :
    Coherent state action ↔
      (strField action "operation").isSome ∧ (strField action "target_scope").isSome := by
  constructor
  · rintro ⟨runtime_id, operation, target_scope, hcoherent⟩
    simp [hcoherent.asked.operation, hcoherent.asked.target_scope]
  · rintro ⟨hoperation, htarget⟩
    obtain ⟨operation, hoperation⟩ := Option.isSome_iff_exists.mp hoperation
    obtain ⟨target_scope, htarget⟩ := Option.isSome_iff_exists.mp htarget
    obtain ⟨mode, herrors⟩ := h.authorityErrors_eq_nil hallows
    unfold authorityErrors at herrors
    simp only [List.append_eq_nil_iff] at herrors
    obtain ⟨⟨⟨⟨⟨⟨⟨hruntime, hcapability⟩, hpermission⟩, happroval⟩, _⟩, hrecovery⟩, _⟩, _⟩ := herrors
    obtain ⟨runtime_id, hid, hregistered⟩ := runtime_registered hruntime
    obtain ⟨capability, hnamed, hbelongs⟩ := capability_belongs hcapability
    obtain ⟨permission, hpermitted, hdecision, hmatch⟩ := permission_allows hpermission
    obtain ⟨approval, happroved, hstatus, hmatch', _⟩ := approval_approves happroval
    obtain ⟨recovery, hrecovers, hmatch''⟩ := recovery_matches hrecovery
    have hcarries : Carries action runtime_id operation target_scope := ⟨hid, hoperation, htarget⟩
    refine ⟨runtime_id, operation, target_scope, hcarries, ?_, ?_, ?_, ?_, ?_⟩
    · obtain ⟨runtime, hfound⟩ := Option.isSome_iff_exists.mp hregistered
      unfold find_record at hfound
      exact ⟨runtime, List.mem_of_find?_eq_some hfound, by simpa using List.find?_some hfound⟩
    · refine ⟨capability, hnamed, ?_⟩
      rw [hid] at hbelongs
      simpa using hbelongs
    · exact ⟨permission, hpermitted, hcarries.of_match hmatch, hdecision⟩
    · exact ⟨approval, happroved, hcarries.of_match hmatch', hstatus⟩
    · refine ⟨recovery, hrecovers, ?_, ?_⟩
      · rw [← hmatch'' "runtime_id" (by simp), hid]
      · rw [← hmatch'' "operation" (by simp), hoperation]

/-! ## An allowed action without operation and target -/

/-- A state whose permission, approval and recovery record have the shared fields. -/
def stateWith (shared : List (String × Value)) : Value := .mkObject [
  ("runtimes", .array [.mkObject [("runtime_id", .string "runtime-1")]]),
  ("capabilities", .array [.mkObject [
    ("capability_id", .string "capability-1"), ("runtime_id", .string "runtime-1")]]),
  ("permissions", .array [.mkObject ([
    ("permission_id", .string "permission-1"), ("runtime_id", .string "runtime-1"),
    ("capability_id", .string "capability-1"), ("decision", .string "allow")] ++ shared)]),
  ("approvals", .array [.mkObject ([
    ("approval_id", .string "approval-1"), ("runtime_id", .string "runtime-1"),
    ("status", .string "approved")] ++ shared)]),
  ("audit_events", .array [.mkObject [("event_id", .string "audit-1")]]),
  ("recovery_actions", .array [.mkObject ([
    ("recovery_id", .string "recovery-1"), ("runtime_id", .string "runtime-1")] ++ shared)])]

/-- An action that names all the records, with the shared fields. -/
def actionWith (shared : List (String × Value)) : Value := .mkObject ([
  ("runtime_id", .string "runtime-1"),
  ("capability_id", .string "capability-1"),
  ("permission_id", .string "permission-1"),
  ("approval_id", .string "approval-1"),
  ("audit_event", .mkObject [("event_id", .string "audit-1")]),
  ("recovery_action", .mkObject [("recovery_id", .string "recovery-1")])] ++ shared)

def fixtureWith (shared : List (String × Value)) : Value :=
  .mkObject [("state", stateWith shared), ("action", actionWith shared)]

def writeWorkspace : List (String × Value) :=
  [("operation", .string "write"), ("target_scope", .string "workspace")]

theorem fixtureWith_allows (shared : List (String × Value))
    (h : shared = [] ∨ shared = writeWorkspace) :
    Allows (evaluate_authority .ascii (fixtureWith shared)) := by
  rcases h with rfl | rfl <;> decide +kernel

theorem allowed_coherent_write :
    Coherent (stateWith writeWorkspace) (actionWith writeWorkspace) := by
  have hallows := fixtureWith_allows writeWorkspace (.inr rfl)
  have hevaluates : Evaluates .ascii (stateWith writeWorkspace) (actionWith writeWorkspace) _ :=
    .fixture (fixtureWith writeWorkspace)
  exact (allowed_coherent_iff hevaluates hallows).mpr (by decide)

/-- The action and the records that it names all lack the operation and the target. -/
theorem allowed_without_operation :
    Allows (evaluate_authority .ascii (fixtureWith [])) ∧
      ¬ Coherent (stateWith []) (actionWith []) := by
  constructor
  · exact fixtureWith_allows [] (.inl rfl)
  · rintro ⟨runtime_id, operation, target_scope, hcoherent⟩
    have hnone : strField (actionWith []) "operation" = none := by decide
    rw [hcoherent.asked.operation] at hnone
    cases hnone

end authority
