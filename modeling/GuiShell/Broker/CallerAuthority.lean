-- A caller cannot authorize itself. The evaluation denies a caller that brings authority along,
-- the state that it brings has no part in the result, and a broker with the production
-- registry authorizes nothing in any run.
import GuiShell.Broker.ResponseAudit

open json serde_json authority broker_audit files store

namespace authority

variable {crates : Crates} {registry : BrokerAuthorityRegistry}

/-! ## The evaluation -/

/-- The action that a payload asks for. -/
def actionOf (payload : Value) : Value := (payload.get "action").getD payload

/-- The payload brings its own state, or its action brings its own audit event, an authority
source, or the flag of a source that would grant authority. -/
inductive BringsAuthority (payload : Value) : Prop
  | state (h : (payload.get "state").isSome)
  | audit_event (h : ((actionOf payload).get "audit_event").isSome)
  | authority_source (source : String) (h : strField (actionOf payload) "authority_source" = some source)
  | flag (source : String) (hs : source ∈ NON_AUTHORITY_SOURCES)
      (h : (actionOf payload).get (source ++ "_grants_authority") = some (.bool true))

/-- The decision denies. -/
structure Denies (decision : Value) : Prop where
  allowed : decision.get "allowed" = some (.bool false)
  decision : strField decision "decision" = some "denied"

/-- A field of the decision says that the action may go on. -/
def authorizes (decision : Value) : Bool :=
  decision.get "allowed" = some (.bool true) || strField decision "decision" = some "authorized" ||
    decision.get "dispatch_enabled" = some (.bool true)

/-- The errors of the evaluation, those of the caller first. -/
def brokerErrors (crates : Crates) (registry : BrokerAuthorityRegistry) (payload : Value) :
    List Value :=
  callerErrors payload (actionOf payload) (operationOf (actionOf payload)) ++
    authorityErrors crates registry.state (actionOf payload) (operationOf (actionOf payload))
      .Production

@[simp] theorem errorUnless_eq_nil {check : Bool} {error : Value} :
    errorUnless check error = [] ↔ check = true := by
  cases check <;> simp [errorUnless]

theorem denies_of_errors {payload : Value} (h : brokerErrors crates registry payload ≠ []) :
    Denies (evaluate_broker_authority crates registry payload) := by
  have hempty : (brokerErrors crates registry payload).isEmpty = false := by
    simpa using h
  unfold brokerErrors actionOf at hempty
  constructor <;>
    simp [evaluate_broker_authority, strField, Value.get_mkObject, sorted_map.get_cons, hempty,
      Value.as_str]

theorem callerErrors_ne_nil {payload : Value} (h : BringsAuthority payload) (operation : String) :
    callerErrors payload (actionOf payload) operation ≠ [] := by
  intro hnil
  simp only [callerErrors, List.append_eq_nil_iff, List.flatMap_eq_nil_iff,
    errorUnless_eq_nil] at hnil
  obtain ⟨⟨⟨hstate, haudit⟩, hsource⟩, hflags⟩ := hnil
  cases h with
  | state h => simp_all
  | audit_event h => simp_all
  | authority_source source h =>
    rw [h] at hsource
    cases hsource
  | flag source hs h =>
    have hflag := hflags source hs
    simp [flagged, sourceFlag, h, Value.as_bool] at hflag

theorem denies_of_bringsAuthority {payload : Value} (h : BringsAuthority payload) :
    Denies (evaluate_broker_authority crates registry payload) := by
  apply denies_of_errors
  intro hnil
  exact callerErrors_ne_nil h _ (List.append_eq_nil_iff.mp hnil).1

/-! ## The state of the caller -/

/-- Both payloads bring a state, and all their other fields are the same. -/
structure DifferInState (p q : Value) : Prop where
  left : (p.get "state").isSome
  right : (q.get "state").isSome
  others : ∀ key, key ≠ "state" → p.get key = q.get key

/-- The two values have the same fields but for the state. -/
def AgreeButState (p q : Value) : Prop := ∀ key, key ≠ "state" → p.get key = q.get key

theorem AgreeButState.strField {p q : Value} (h : AgreeButState p q) (key : String)
    (hkey : key ≠ "state") : strField p key = strField q key := by
  unfold authority.strField
  rw [h key hkey]

theorem AgreeButState.actionOf {p q : Value} (h : AgreeButState p q) :
    AgreeButState (actionOf p) (actionOf q) := by
  unfold authority.actionOf
  rw [h "action" (by decide)]
  cases q.get "action" with
  | none => exact h
  | some action => exact fun _ _ => rfl

section gates

variable {a b : Value} (state : Value) (operation : String)

theorem AgreeButState.operationOf (h : AgreeButState a b) : operationOf a = operationOf b := by
  unfold authority.operationOf
  rw [h.strField _ (by decide)]

theorem AgreeButState.runtimeErrors (h : AgreeButState a b) :
    runtimeErrors state a operation = runtimeErrors state b operation := by
  unfold authority.runtimeErrors
  rw [h.strField _ (by decide)]

theorem AgreeButState.capabilityErrors (h : AgreeButState a b) :
    capabilityErrors state a operation = capabilityErrors state b operation := by
  unfold authority.capabilityErrors
  rw [h.strField "capability_id" (by decide), h.strField "runtime_id" (by decide)]

theorem AgreeButState.relationErrors (h : AgreeButState a b) (fields : List String)
    (hfields : "state" ∉ fields) (message : String → String) (record : Value) :
    relationErrors a operation fields message record =
      relationErrors b operation fields message record := by
  unfold authority.relationErrors
  refine List.flatMap_congr fun field hfield => ?_
  rw [h.strField field (ne_of_mem_of_not_mem hfield hfields)]

theorem AgreeButState.permissionErrors (h : AgreeButState a b) :
    permissionErrors state a operation = permissionErrors state b operation := by
  unfold authority.permissionErrors
  simp only [h.relationErrors operation ["runtime_id", "operation", "target_scope"] (by decide),
    h.strField "permission_id" (by decide), h.strField "capability_id" (by decide)]

theorem AgreeButState.action_has_payload (h : AgreeButState a b) :
    action_has_payload a = action_has_payload b := by
  simp only [authority.action_has_payload, List.any_cons, List.any_nil, h "payload" (by decide),
    h "full_payload" (by decide), h "redacted_payload" (by decide)]

theorem AgreeButState.approvalErrors (h : AgreeButState a b) :
    approvalErrors crates state a operation = approvalErrors crates state b operation := by
  unfold authority.approvalErrors expectedHash
  simp only [h.relationErrors operation ["runtime_id", "operation", "target_scope"] (by decide),
    h.strField "approval_id" (by decide), h.action_has_payload, h "payload" (by decide)]

theorem AgreeButState.recoveryErrors (h : AgreeButState a b) :
    recoveryErrors state a operation = recoveryErrors state b operation := by
  unfold authority.recoveryErrors recoveryId
  simp only [h.relationErrors operation ["runtime_id", "operation"] (by decide),
    h "recovery_action" (by decide)]

theorem AgreeButState.metadataErrors (h : AgreeButState a b) :
    metadataErrors crates a operation = metadataErrors crates b operation := by
  unfold authority.metadataErrors
  rw [h "adapter_metadata" (by decide)]

/-- The gates of the production evaluation do not read the state of the caller. -/
theorem AgreeButState.authorityErrors (h : AgreeButState a b) :
    authorityErrors crates state a operation .Production =
      authorityErrors crates state b operation .Production := by
  unfold authority.authorityErrors
  rw [h.runtimeErrors, h.capabilityErrors, h.permissionErrors, h.approvalErrors,
    h.recoveryErrors, h.metadataErrors]
  rfl

theorem sourceFlag_ne_state {source : String} (h : source ∈ NON_AUTHORITY_SOURCES) :
    sourceFlag source ≠ "state" := by
  revert source
  decide

end gates

theorem DifferInState.callerErrors {p q : Value} (h : DifferInState p q) (operation : String) :
    callerErrors p (actionOf p) operation = callerErrors q (actionOf q) operation := by
  have hagree := AgreeButState.actionOf h.others
  have hstate : (p.get "state").isNone = (q.get "state").isNone := by
    rw [← Option.not_isSome, ← Option.not_isSome, h.left, h.right]
  have hflags : ∀ source ∈ NON_AUTHORITY_SOURCES,
      flagged (actionOf p) source = flagged (actionOf q) source := by
    intro source hsource
    unfold flagged
    rw [hagree _ (sourceFlag_ne_state hsource)]
  unfold authority.callerErrors
  rw [hstate, hagree "audit_event" (by decide), hagree.strField _ (by decide)]
  congr 1
  refine List.flatMap_congr fun source hsource => ?_
  rw [hflags source hsource]

/-- The state that a caller brings has no part in the result. -/
theorem evaluate_broker_authority_of_differInState {p q : Value} (h : DifferInState p q) :
    evaluate_broker_authority crates registry p = evaluate_broker_authority crates registry q := by
  have hagree : AgreeButState (actionOf p) (actionOf q) := AgreeButState.actionOf h.others
  have hcaller := h.callerErrors (operationOf (actionOf q))
  have hrecovery := hagree "recovery_action" (by decide)
  unfold actionOf at hagree hcaller hrecovery
  unfold evaluate_broker_authority
  simp only [hagree.operationOf, hagree.authorityErrors, hcaller, hrecovery]

/-! ## The production registry -/

/-- The one permission of the production registry denies. -/
theorem permissionErrors_production (action : Value) (operation : String) :
    permissionErrors BrokerAuthorityRegistry.production_default.state action operation ≠ [] := by
  unfold permissionErrors
  split
  · exact List.cons_ne_nil _ _
  · rename_i permission hfound
    obtain ⟨id, _, hfound⟩ := Option.bind_eq_some_iff.mp hfound
    have hmem := List.mem_of_find?_eq_some hfound
    have hdecision : strField permission "decision" = some "deny" := by
      rw [show recordsOf BrokerAuthorityRegistry.production_default.state "permissions" =
        [_] from rfl] at hmem
      rw [List.mem_singleton.mp hmem]
      rfl
    rw [hdecision]
    simp [errorUnless]

theorem denies_production (payload : Value) :
    Denies (evaluate_broker_authority crates .production_default payload) := by
  apply denies_of_errors
  unfold brokerErrors authorityErrors
  simp [permissionErrors_production]

theorem not_authorizes_of_denies {decision : Value} (h : Denies decision)
    (hdispatch : decision.get "dispatch_enabled" = none) : authorizes decision = false := by
  simp [authorizes, h.allowed, h.decision, hdispatch]

end authority

namespace protocol

variable {crates : Crates}

/-! ## The responses -/

/-- The response of an authority decision or of a command grants authority, at its top or in
the eligibility of the command. -/
def BrokerResponse.Grants (response : BrokerResponse) : Prop :=
  (response.operation = BrokerOperation.AuthorityEvaluate.as_str ∨
      response.operation = BrokerOperation.CommandEnvelope.as_str) ∧
    ∃ body, response.body = some body ∧ (authorizes body = true ∨
      ∃ eligibility, body.get "eligibility" = some eligibility ∧ authorizes eligibility = true)

theorem not_grants_of_no_body {response : BrokerResponse} (h : response.body = none) :
    ¬ response.Grants := by
  rintro ⟨_, body, hbody, _⟩
  rw [h] at hbody
  cases hbody

theorem not_grants_of_body {response : BrokerResponse} {body : Value}
    (h : response.body = some body) (hbody : authorizes body = false)
    (heligibility : ∀ eligibility, body.get "eligibility" = some eligibility →
      authorizes eligibility = false) : ¬ response.Grants := by
  rintro ⟨_, body', hbody', hgrants | ⟨eligibility, hget, hgrants⟩⟩
  · obtain rfl := Option.some.inj (h.symm.trans hbody')
    rw [hbody] at hgrants
    cases hgrants
  · obtain rfl := Option.some.inj (h.symm.trans hbody')
    rw [heligibility eligibility hget] at hgrants
    cases hgrants

theorem not_grants_of_operation {response : BrokerResponse} {operation : BrokerOperation}
    (h : response.operation = operation.as_str) (hdecision : operation ≠ .AuthorityEvaluate)
    (hcommand : operation ≠ .CommandEnvelope) : ¬ response.Grants := by
  rintro ⟨hop, _⟩
  rw [h] at hop
  revert hop hdecision hcommand
  cases operation <;> decide

theorem evaluate_not_authorizes (payload : Value) :
    authorizes (evaluate_broker_authority crates .production_default payload) = false := by
  refine not_authorizes_of_denies (denies_production payload) ?_
  simp [evaluate_broker_authority, Value.get_mkObject, sorted_map.get_cons]

theorem eligibility_not_authorizes (payload : Value) :
    authorizes (json_command_eligibility crates payload .production_default) = false := by
  simp [authorizes, json_command_eligibility, strField, Value.get_mkObject, sorted_map.get_cons]

namespace World

variable {outside : Outside}

theorem reject.not_grants (w : World crates) (request_id operation code message : String)
    (recoverable : Bool) (payload_hash : String) :
    ¬ (w.reject_with_payload_hash outside request_id operation code message recoverable
      payload_hash).1.Grants := by
  refine audited.rule (P := fun r _ => ¬ r.Grants) (fun _ => ?_) fun _ => ?_
  · exact not_grants_of_no_body rfl
  · exact not_grants_of_no_body rfl

/-- The responses behind the gates name their operation. -/
theorem dispatch.operation (w : World crates) (operation : BrokerOperation)
    (envelope : BrokerRequestEnvelope) :
    (w.dispatch outside operation envelope).1.operation = operation.as_str := by
  cases operation with
  | AuthorityEvaluate =>
    unfold dispatch
    dsimp only
    split <;> exact audited.rule (P := fun r _ => r.operation = _) (fun _ => rfl) fun _ => rfl
  | Health | Shutdown | CommandEnvelope | AuthorityFixtureEvaluate | ApprovalEdit
  | ContentProjection | AuditVerify | NormalizePayload =>
    exact audited.rule (P := fun r _ => r.operation = _) (fun _ => rfl) fun _ => rfl

theorem dispatch.not_grants {w : World crates}
    (h : w.broker.authority_registry = .production_default) (operation : BrokerOperation)
    (envelope : BrokerRequestEnvelope) :
    ¬ (w.dispatch outside operation envelope).1.Grants := by
  cases operation with
  | CommandEnvelope =>
    refine audited.rule (P := fun r _ => ¬ r.Grants) (fun _ => ?_) fun _ => ?_
    · rw [h]
      refine not_grants_of_body rfl (eligibility_not_authorizes _) fun eligibility hget => ?_
      simp only [json_command_eligibility, Value.get_mkObject] at hget
      cases hget
      exact evaluate_not_authorizes _
    · exact not_grants_of_no_body rfl
  | AuthorityEvaluate =>
    unfold dispatch
    dsimp only
    split
    · exact reject.not_grants _ _ _ _ _ _ _
    · refine audited.rule (P := fun r _ => ¬ r.Grants) (fun _ => ?_) fun _ => ?_
      · rw [h]
        refine not_grants_of_body rfl (evaluate_not_authorizes _) fun eligibility hget => ?_
        simp [evaluate_broker_authority, Value.get_mkObject, sorted_map.get_cons] at hget
      · exact not_grants_of_no_body rfl
  | Health | Shutdown | AuthorityFixtureEvaluate | ApprovalEdit | ContentProjection | AuditVerify
  | NormalizePayload =>
    exact not_grants_of_operation (dispatch.operation w _ envelope) (by decide) (by decide)

theorem call.not_grants {w : World crates}
    (h : w.broker.authority_registry = .production_default) (c : Call) :
    ¬ (w.call outside c).1.Grants := by
  generalize hr : w.call outside c = r
  have hcalled := call_cases outside w c
  rw [hr] at hcalled
  cases hcalled with
  | malformed => exact reject.not_grants _ _ _ _ _ _ _
  | ipc => exact reject.not_grants _ _ _ _ _ _ _
  | @envelope envelope _ =>
    obtain ⟨course, hcourse, hhandled⟩ := handle_cases outside w envelope
    rw [hcourse]
    cases hhandled with
    | rejected => exact reject.not_grants _ _ _ _ _ _ _
    | claimed => exact reject.not_grants _ _ _ _ _ _ _
    | unrecorded => exact reject.not_grants _ _ _ _ _ _ _
    | unavailable => exact not_grants_of_no_body rfl
    | suspended =>
      refine audited.rule (P := fun r _ => ¬ r.Grants) (fun _ => ?_) fun _ => ?_
      · exact not_grants_of_no_body rfl
      · exact not_grants_of_no_body rfl
    | dispatched =>
      apply dispatch.not_grants
      rw [(record_nonce.spec outside w envelope.nonceText).2]
      exact h

/-! ## Runs -/

/-- The responses of calls in turn. -/
def run (w : World crates) : List (Call × Outside) → List BrokerResponse
  | [] => []
  | (c, outside) :: calls =>
    (w.call outside c).1 :: run (w.call outside c).2 calls

/-- What a call keeps, and what follows of its response, holds of all the responses of a run. -/
theorem run.rule {I : World crates → Prop} {P : BrokerResponse → Prop}
    (hkept : ∀ w c outside, I w → I (w.call outside c).2)
    (hresponse : ∀ w c outside, I w → P (w.call outside c).1) {w : World crates} (h : I w)
    (calls : List (Call × Outside)) : ∀ response ∈ w.run calls, P response := by
  induction calls generalizing w with
  | nil => simp [run]
  | cons call calls ih =>
    intro response hmem
    rcases List.mem_cons.mp hmem with rfl | hmem
    · exact hresponse w call.1 call.2 h
    · exact ih (hkept w call.1 call.2 h) response hmem

/-- No call changes the registry. -/
theorem call.authority_registry (w : World crates) (c : Call) (outside : Outside) :
    (w.call outside c).2.broker.authority_registry = w.broker.authority_registry := by
  generalize hr : w.call outside c = r
  have hcourse := call.course outside w c
  rw [hr] at hcourse
  cases hcourse with
  | @unaudited envelope => rw [(record_nonce.spec outside w envelope.nonceText).2]
  | @audited w₀ entry respond hstage _ =>
    have hstaged : w₀.broker.authority_registry = w.broker.authority_registry := by
      cases hstage with
      | gates => rfl
      | @recorded envelope => rw [(record_nonce.spec outside w envelope.nonceText).2]
      | @shutdown envelope => rw [flagged, (record_nonce.spec outside w envelope.nonceText).2]
    exact audited.rule (P := fun _ broker => broker.authority_registry = w.broker.authority_registry)
      (fun _ => hstaged) fun _ => hstaged

theorem run.not_grants {w : World crates}
    (h : w.broker.authority_registry = .production_default) (calls : List (Call × Outside)) :
    ∀ response ∈ w.run calls, ¬ response.Grants :=
  run.rule (I := fun w => w.broker.authority_registry = .production_default)
    (fun w c outside h => (call.authority_registry w c outside).trans h)
    (fun _ c _ h => call.not_grants h c) h calls

end World

/-- A caller cannot authorize itself. -/
theorem caller_cannot_authorize_itself (crates : Crates) :
    (∀ registry payload, BringsAuthority payload →
      Denies (evaluate_broker_authority crates registry payload)) ∧
    (∀ registry p q, DifferInState p q →
      evaluate_broker_authority crates registry p = evaluate_broker_authority crates registry q) ∧
    ∀ (w : World crates) (calls : List (Call × Outside)),
      w.broker.authority_registry = .production_default →
      ∀ response ∈ w.run calls, ¬ response.Grants :=
  ⟨fun _ _ h => denies_of_bringsAuthority h,
    fun _ _ _ h => evaluate_broker_authority_of_differInState h,
    fun _ calls h => World.run.not_grants h calls⟩

/-- A caller that brings a state, two callers with different states, and a run of a new broker
that serves an action and a command. -/
theorem caller_cannot_authorize_itself_instances :
    Denies (evaluate_broker_authority .ascii .production_default
      (.object [("state", .null)])) ∧
    evaluate_broker_authority .ascii .production_default (.object [("state", .null)]) =
      evaluate_broker_authority .ascii .production_default (.object [("state", .bool true)]) ∧
    ∀ response ∈ (World.mk (.new .ascii "session-1") (fun _ => none) []).run
      [(.handle (request .AuthorityEvaluate "nonce-1" []), calm),
        (.handle (request .CommandEnvelope "nonce-2" []), calm)], ¬ response.Grants := by
  obtain ⟨hdenies, hsame, hrun⟩ := caller_cannot_authorize_itself .ascii
  refine ⟨hdenies _ _ (.state rfl), hsame _ _ _ ⟨rfl, rfl, fun key hkey => ?_⟩, hrun _ _ rfl⟩
  simp [Value.get, sorted_map.get_cons, Ne.symm hkey]

end protocol
