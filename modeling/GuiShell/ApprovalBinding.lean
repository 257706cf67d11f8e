-- What the hash in an approval binds. Both evaluators ask for the hash when an action has any of
-- the three payload keys, and both hash the value under `payload` only.
import GuiShell.Broker.AuthorityCoherence
import GuiShell.ShellCore.PolicyEvaluator

open json serde_json authority

namespace approval_binding

variable {crates : Crates} {python : shell_core.Python}

/-! ## Payloads -/

/-- What an action has under a key, objects as maps. -/
def content (action : Value) (key : String) : Option Value := (action.get key).map Value.sortKeys

/-- The two actions have the same content under all the payload keys. -/
def SamePayload (a b : Value) : Prop :=
  ∀ key ∈ ["payload", "full_payload", "redacted_payload"], content a key = content b key

/-- The two actions have the same content under the two keys that are not hashed, and both have a
`payload` or both have none. -/
structure SameBeside (a b : Value) : Prop where
  full_payload : content a "full_payload" = content b "full_payload"
  redacted_payload : content a "redacted_payload" = content b "redacted_payload"
  payload : (a.get "payload").isSome = (b.get "payload").isSome

/-- The values that are hashed are the same. -/
def SameHashed (a b : Value) : Prop :=
  ((a.get "payload").getD .null).sortKeys = ((b.get "payload").getD .null).sortKeys

theorem samePayload_iff {a b : Value} (h : SameHashed a b) :
    SamePayload a b ↔ SameBeside a b := by
  constructor
  · intro hsame
    refine ⟨hsame _ (by simp), hsame _ (by simp), ?_⟩
    have hpayload := congrArg Option.isSome (hsame "payload" (by simp))
    unfold content at hpayload
    simpa using hpayload
  · rintro ⟨hfull, hredacted, hpayload⟩ key hkey
    simp only [List.mem_cons, List.not_mem_nil, or_false] at hkey
    rcases hkey with rfl | rfl | rfl
    · unfold SameHashed at h
      unfold content
      rcases ha : a.get "payload" with _ | v <;> rcases hb : b.get "payload" with _ | w
      · rfl
      · simp [ha, hb] at hpayload
      · simp [ha, hb] at hpayload
      · rw [ha, hb] at h
        exact congrArg some h
    · exact hfull
    · exact hredacted

/-! ## The Rust evaluation -/

theorem rust_binds (hsha : Function.Injective crates.sha256) {state a b da db : Value}
    (ha : Evaluates crates state a da) (hb : Evaluates crates state b db) (hda : Allows da)
    (hdb : Allows db) (hid : strField a "approval_id" = strField b "approval_id")
    (hpa : action_has_payload a = true) (hpb : action_has_payload b = true) : SameHashed a b := by
  have happroval : ∀ {action decision : Value}, Evaluates crates state action decision →
      Allows decision → ∃ approval, Named state action "approvals" "approval_id" approval ∧
        (action_has_payload action = true →
          strField approval "payload_hash" = some (expectedHash crates action)) := by
    intro action decision h hallows
    obtain ⟨mode, herrors⟩ := h.authorityErrors_eq_nil hallows
    unfold authorityErrors at herrors
    simp only [List.append_eq_nil_iff] at herrors
    obtain ⟨approval, hnamed, _, _, hhash⟩ := approval_approves herrors.1.1.1.1.2
    exact ⟨approval, hnamed, hhash⟩
  obtain ⟨approval, hnamed, hhash⟩ := happroval ha hda
  obtain ⟨approval', hnamed', hhash'⟩ := happroval hb hdb
  unfold Named at hnamed hnamed'
  rw [hid, hnamed'] at hnamed
  obtain rfl := Option.some.inj hnamed
  have hequal := (hhash hpa).symm.trans (hhash' hpb)
  exact sortKeys_of_canonical_hash hsha (Option.some.inj hequal)

/-! ## The Python evaluation -/

section python

open shell_core shell_core.policy_evaluator

variable {state : RuntimeState} {action operation decision : Value}

theorem python_gateErrors (h : evaluate python state action = some decision)
    (hallows : Allows decision) :
    gateErrors python state action ((action.get "operation").getD (.string "unknown")) =
      some [] := by
  unfold evaluate at h
  simp only [Option.bind_eq_bind, Option.bind_eq_some_iff] at h
  obtain ⟨errors, herrors, hdecision⟩ := h
  rw [herrors]
  by_cases hnil : errors = []
  · rw [hnil]
  · rw [if_neg hnil] at hdecision
    obtain rfl := Option.some.inj hdecision
    simp [Allows, Value.get, sorted_map.get, hnil] at hallows

theorem lookup_eq_some {schema : schema_validation.Contract} {id_field : String}
    {records : Records schema id_field} {key record : Value}
    (h : records.lookup key = some (some record)) :
    ∃ id, key = .string id ∧ records.get id = some record := by
  unfold Records.lookup at h
  split at h
  · exact ⟨_, rfl, Option.some.inj h⟩
  · split at h <;> cases h

theorem python_approval
    (h : policy_evaluator.approvalErrors python state action operation = some []) :
    ∃ id approval, getOrNone action "approval_id" = .string id ∧
      state.approvals.get id = some approval ∧
      (has_payload action = true →
        getOrNone approval "payload_hash" = policy_evaluator.expectedHash python action) := by
  unfold policy_evaluator.approvalErrors at h
  dsimp only at h
  split at h
  · cases h
  · obtain ⟨approval, hlookup, herrors⟩ := Option.map_eq_some_iff.mp h
    rcases approval with _ | approval
    · cases herrors
    · obtain ⟨id, hid, happroval⟩ := lookup_eq_some hlookup
      refine ⟨id, approval, hid, happroval, fun hhas => ?_⟩
      dsimp only at herrors
      split at herrors
      · cases herrors
      · have hhash := (List.append_eq_nil_iff.mp herrors).2
        unfold policy_evaluator.errorUnless at hhash
        split at hhash
        · rename_i hcheck
          rw [hhas] at hcheck
          simpa using hcheck
        · cases hhash

theorem python_binds (hsha : Function.Injective python.sha256) {a b da db : Value}
    (ha : evaluate python state a = some da) (hb : evaluate python state b = some db)
    (hda : Allows da) (hdb : Allows db)
    (hid : getOrNone a "approval_id" = getOrNone b "approval_id") (hpa : has_payload a = true)
    (hpb : has_payload b = true) : SameHashed a b := by
  have happroval : ∀ {action decision : Value}, evaluate python state action = some decision →
      Allows decision → ∃ id approval, getOrNone action "approval_id" = .string id ∧
        state.approvals.get id = some approval ∧ (has_payload action = true →
          getOrNone approval "payload_hash" = policy_evaluator.expectedHash python action) := by
    intro action decision h hallows
    have hgates := python_gateErrors h hallows
    unfold gateErrors at hgates
    simp only [Option.bind_eq_bind, Option.bind_eq_some_iff, Option.some.injEq,
      List.append_eq_nil_iff] at hgates
    obtain ⟨_, _, _, _, _, _, approval, happroval, _, _, _, _, hnil⟩ := hgates
    obtain rfl := hnil.1.1.1.1.2
    exact python_approval happroval
  obtain ⟨id, approval, hida, hget, hhash⟩ := happroval ha hda
  obtain ⟨id', approval', hidb, hget', hhash'⟩ := happroval hb hdb
  rw [hida, hidb, Value.string.injEq] at hid
  subst hid
  obtain rfl := Option.some.inj (hget.symm.trans hget')
  have hequal := (hhash hpa).symm.trans (hhash' hpb)
  exact approval_queue.sortKeys_of_canonical_hash hsha (Value.string.inj hequal)

end python

/-! ## What an approval binds -/

/-- Two actions that are allowed with one approval have the same payload exactly when they agree
beside the value that is hashed. -/
theorem one_approval_one_payload_iff (crates : Crates) (python : shell_core.Python)
    (hrust : Function.Injective crates.sha256)
    (hpython : Function.Injective python.sha256) :
    (∀ state a b da db : Value, Evaluates crates state a da → Evaluates crates state b db →
      Allows da → Allows db → strField a "approval_id" = strField b "approval_id" →
      action_has_payload a = true → action_has_payload b = true →
      (SamePayload a b ↔ SameBeside a b)) ∧
    (∀ (state : shell_core.RuntimeState) (a b da db : Value),
      shell_core.policy_evaluator.evaluate python state a = some da →
      shell_core.policy_evaluator.evaluate python state b = some db → Allows da → Allows db →
      shell_core.getOrNone a "approval_id" = shell_core.getOrNone b "approval_id" →
      shell_core.policy_evaluator.has_payload a = true →
      shell_core.policy_evaluator.has_payload b = true → (SamePayload a b ↔ SameBeside a b)) := by
  constructor
  · intro state a b da db ha hb hda hdb hid hpa hpb
    exact samePayload_iff (rust_binds hrust ha hb hda hdb hid hpa hpb)
  · intro state a b da db ha hb hda hdb hid hpa hpb
    exact samePayload_iff (python_binds hpython ha hb hda hdb hid hpa hpb)

/-! ## Two payloads under one approval -/

section example_state

/-- A digest that is the real one on the text of `null`, and injective. -/
def nullDigest : Bytes → Bytes := fips.pinned [utf8.encode "null"]

theorem nullDigest_injective : Function.Injective nullDigest :=
  fips.pinned_injective fun a ha b hb _ => by
    rw [List.mem_singleton.mp ha, List.mem_singleton.mp hb]

def nullHash : Value :=
  .string "sha256:74234e98afe7498fb5daf1f36ac2d78acc339464f950703b8c019892f982b90b"

def rustCrates : Crates := { Crates.ascii with sha256 := nullDigest }

def pythonAscii : shell_core.Python where
  unicode := .ascii
  sha256 := nullDigest
  str _ := ""
  subscript_error _ := ""

def runtime : Value := .object [
  ("runtime_id", .string "runtime-1"),
  ("name", .string "Runtime 1"),
  ("kind", .string "local_service"),
  ("status", .string "ready"),
  ("adapter_id", .string "adapter-1")]

def capability : Value := .object [
  ("capability_id", .string "filesystem.write"),
  ("runtime_id", .string "runtime-1"),
  ("name", .string "Filesystem write"),
  ("risk_level", .string "high"),
  ("default_permission", .string "ask"),
  ("operations", .array [.string "filesystem.write"])]

def permission : Value := .object [
  ("permission_id", .string "permission-1"),
  ("runtime_id", .string "runtime-1"),
  ("capability_id", .string "filesystem.write"),
  ("operation", .string "filesystem.write"),
  ("target_scope", .string "workspace"),
  ("scope", .string "target"),
  ("decision", .string "allow"),
  ("source", .string "policy")]

def approval : Value := .object [
  ("approval_id", .string "approval-1"),
  ("runtime_id", .string "runtime-1"),
  ("operation", .string "filesystem.write"),
  ("target_scope", .string "workspace"),
  ("status", .string "approved"),
  ("content_visibility", .string "redacted"),
  ("payload_hash", nullHash),
  ("editable_fields", .array [])]

def auditEvent : Value := .object [
  ("event_id", .string "audit-1"),
  ("timestamp", .string "2026-06-05T00:00:00Z"),
  ("actor", .string "shell"),
  ("action", .string "filesystem.write"),
  ("target", .string "runtime-1"),
  ("result", .string "success"),
  ("payload_hash", nullHash)]

def recovery : Value := .object [
  ("recovery_id", .string "recover-1"),
  ("runtime_id", .string "runtime-1"),
  ("operation", .string "filesystem.write"),
  ("class", .string "permission_denied"),
  ("severity", .string "warning"),
  ("user_visible_message", .string "Permission required."),
  ("safe_to_retry", .bool true)]

def pythonState : shell_core.RuntimeState where
  runtimes := .single "runtime-1" runtime (by decide +kernel) rfl
  capabilities := .single "filesystem.write" capability (by decide +kernel) rfl
  permissions := .single "permission-1" permission (by decide +kernel) rfl
  approvals := .single "approval-1" approval (by decide +kernel) rfl
  audit_events := .single "audit-1" auditEvent (by decide +kernel) rfl
  recovery_actions := .single "recover-1" recovery (by decide +kernel) rfl

/-- The state as Rust gets it. -/
def rustState : Value := .object [
  ("runtimes", .array pythonState.runtimes.values),
  ("capabilities", .array pythonState.capabilities.values),
  ("permissions", .array pythonState.permissions.values),
  ("approvals", .array pythonState.approvals.values),
  ("audit_events", .array pythonState.audit_events.values),
  ("recovery_actions", .array pythonState.recovery_actions.values)]

/-- An action whose payload is under `full_payload`. -/
def writes (path : String) : Value := .object [
  ("runtime_id", .string "runtime-1"),
  ("operation", .string "filesystem.write"),
  ("target_scope", .string "workspace"),
  ("capability_id", .string "filesystem.write"),
  ("permission_id", .string "permission-1"),
  ("approval_id", .string "approval-1"),
  ("audit_event", .object [("event_id", .string "audit-1"), ("payload_hash", nullHash)]),
  ("recovery_action", .object [("recovery_id", .string "recover-1")]),
  ("full_payload", .object [("path", .string path)])]

def fixture (path : String) : Value := .object [("state", rustState), ("action", writes path)]

theorem rust_allows {path : String} (h : path = "a.md" ∨ path = "b.md") :
    Allows (evaluate_authority rustCrates (fixture path)) := by
  rcases h with rfl | rfl <;> decide +kernel

theorem python_allows {path : String} (h : path = "a.md" ∨ path = "b.md") :
    ∃ decision, shell_core.policy_evaluator.evaluate pythonAscii pythonState (writes path) =
      some decision ∧ Allows decision := by
  have hallows : (shell_core.policy_evaluator.evaluate pythonAscii pythonState
      (writes path)).any (fun decision => decide (Allows decision)) = true := by
    rcases h with rfl | rfl <;> decide +kernel
  obtain ⟨decision, hdecision, hd⟩ := (Option.any_eq_true _ _).mp hallows
  exact ⟨decision, hdecision, of_decide_eq_true hd⟩

theorem one_approval_one_payload_instances :
    (SamePayload (writes "a.md") (writes "b.md") ↔ SameBeside (writes "a.md") (writes "b.md")) ∧
      (SamePayload (writes "b.md") (writes "b.md") ↔
        SameBeside (writes "b.md") (writes "b.md")) := by
  obtain ⟨hrust, hpython⟩ := one_approval_one_payload_iff rustCrates pythonAscii
    nullDigest_injective nullDigest_injective
  obtain ⟨decision, hdecision, hallows⟩ := python_allows (.inr rfl)
  exact ⟨hrust rustState _ _ _ _ (.fixture (fixture "a.md")) (.fixture (fixture "b.md"))
      (rust_allows (.inl rfl)) (rust_allows (.inr rfl)) rfl rfl rfl,
    hpython pythonState _ _ _ _ hdecision hdecision hallows hallows rfl rfl rfl⟩

/-- Both evaluators allow both actions with the one approval. -/
theorem one_approval_two_payloads :
    Function.Injective rustCrates.sha256 ∧ Function.Injective pythonAscii.sha256 ∧
      (∀ path ∈ ["a.md", "b.md"], Allows (evaluate_authority rustCrates (fixture path)) ∧
        (∃ decision, shell_core.policy_evaluator.evaluate pythonAscii pythonState (writes path) =
          some decision ∧ Allows decision) ∧
        strField (writes path) "approval_id" = some "approval-1" ∧
        action_has_payload (writes path) = true) ∧
      ¬ SamePayload (writes "a.md") (writes "b.md") := by
  refine ⟨nullDigest_injective, nullDigest_injective, ?_, ?_⟩
  · intro path hpath
    have hpath : path = "a.md" ∨ path = "b.md" := by simpa using hpath
    exact ⟨rust_allows hpath, python_allows hpath, rfl, rfl⟩
  · intro hsame
    have hfull : content (writes "a.md") "full_payload" = content (writes "b.md") "full_payload" :=
      hsame "full_payload" (by simp)
    exact absurd hfull (by decide)

end example_state

end approval_binding
