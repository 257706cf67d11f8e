-- The desktop client's view of the broker (shell_core_client.dart): five probes, and the snapshot
-- that they make. The parts of the snapshot that never change are left out.
import GuiShell.Desktop.BrokerClient
import GuiShell.Json.RoundTrip
import Mathlib.Data.List.Infix

open json broker_client

namespace shell_core_client

/-! ## Values of Dart -/

abbrev Response := List (String × Value)

mutual
/-- `toString`. -/
def toText : Value → String
  | .null => "null"
  | .bool true => "true"
  | .bool false => "false"
  | .number n => .ofList n.text
  | .string s => s
  | .array items => "[" ++ ", ".intercalate (textsOfItems items) ++ "]"
  | .object fields => "\x7b" ++ ", ".intercalate (textsOfFields fields) ++ "\x7d"
def textsOfItems : List Value → List String
  | [] => []
  | v :: items => toText v :: textsOfItems items
def textsOfFields : List (String × Value) → List String
  | [] => []
  | (k, v) :: fields => (k ++ ": " ++ toText v) :: textsOfFields fields
end

/-- `map[key]`. -/
def lookup (map : Response) (key : String) : Value := (sorted_map.get key map).getD .null

/-- `map[key]?.toString() ?? default`. -/
def textOr (map : Response) (key default : String) : String :=
  match lookup map key with
  | .null => default
  | v => toText v

/-- Whether a text is written somewhere in the JSON of a value. -/
def encodes (text : String) (value : Value) : Bool :=
  decide (text.toList <:+: (jsonEncode value).toList)

/-! ## The probes -/

/-- What the transport gives: an exception with its text, or a response to each request. -/
structure Outcomes where
  connect : Except String Unit
  health : Except String Response
  normalize : Except String Response
  projection : Except String Response
  protectedEdit : Except String Response
  command : Except String Response

def requireAccepted (response : Response) (operation : String) : Except String Unit :=
  if lookup response "status" ≠ .string "accepted" then
    let message := match lookup response "error" with
      | .object error => textOr error "message" (toText (.object response))
      | _ => toText (.object response)
    .error (operation ++ " の broker request が拒否されました: " ++ message)
  else .ok ()

def acceptedResponseBodyMap (response : Response) (operation bodyKey : String) :
    Except String Response := do
  requireAccepted response operation
  match lookup response bodyKey with
  | .object body => .ok body
  | _ => .error (operation ++ " 応答に " ++ bodyKey ++ " object がありません")

def boolInBody (response : Response) (key : String) : Bool :=
  match lookup response "body" with
  | .object body => lookup body key = .bool true
  | _ => false

/-- The five responses, and the maps that are read in them. -/
structure Probes where
  healthResponse : Response
  health : Response
  normalizeResponse : Response
  projectionResponse : Response
  projection : Response
  protectedEditResponse : Response
  protectedEdit : Response
  commandResponse : Response

/-- The requests in their order, up to the first exception. -/
def probe (outcomes : Outcomes) : Except String Probes := do
  outcomes.connect
  let healthResponse ← outcomes.health
  let health ← acceptedResponseBodyMap healthResponse "health" "health"
  let normalizeResponse ← outcomes.normalize
  requireAccepted normalizeResponse "normalize_payload"
  let projectionResponse ← outcomes.projection
  let projection ← acceptedResponseBodyMap projectionResponse "content_projection" "body"
  let protectedEditResponse ← outcomes.protectedEdit
  let protectedEdit ← acceptedResponseBodyMap protectedEditResponse "approval_edit" "body"
  let commandResponse ← outcomes.command
  if lookup commandResponse "status" ≠ .string "suspended" then
    .error ("ブローカーがコマンド封筒を停止しなかった: " ++ toText (lookup commandResponse "status"))
  else .ok {
    healthResponse, health, normalizeResponse, projectionResponse, projection,
    protectedEditResponse, protectedEdit, commandResponse }

/-! ## The snapshot -/

structure OperationStatus where
  runtime_status : String
  invariant_status : String
  trust_status : String
  audit_chain_status : String
  problems_count : Nat

structure RuntimeRecord where
  runtime_id : String
  name : String
  status : String
  adapter_id : String
  diagnostic_summary : String

structure AuditRecord where
  event_id : String
  action : String
  result : String
  payload_hash : String

structure RecoveryRecord where
  recovery_id : String
  severity : String
  message : String
  safe_to_retry : Bool

structure SetupDoctorCheck where
  check_id : String
  status : String
  message : String
  recovery_instruction : Option String
  grants_authority : Bool := false

structure TrustRecord where
  scope : String
  state : String
  source : String
  blocked_operations : List String

structure ProblemRecord where
  problem_id : String
  severity : String
  category : String
  message : String
  target : String
  recovery_id : String
  item : String
  classification : String := "release_blocker"
  reason : String
  required_action : String
  blocks_release : Bool := true
  safe_to_ignore_for_phase_b : Bool
  blocks_owner_use : Bool
  blocks_completed_product_release : Bool := true

structure RecoveryPlaybookRecord where
  recovery_id : String
  item : String
  severity : String
  classification : String
  safe_to_ignore_for_phase_b : Bool
  required_action : String
  blocks_completed_product_release : Bool
  blocks_owner_use : Bool
  path : String

structure EvidenceRecord where
  evidence_id : String
  kind : String := "LIVE_RUNTIME"
  status : String
  path : String

structure ShellSnapshot where
  operation_status : OperationStatus
  runtimes : List RuntimeRecord
  audit_events : List AuditRecord
  recovery_actions : List RecoveryRecord
  invariant_flags : List (String × Bool)
  setup_doctor_status : String
  setup_doctor_checks : List SetupDoctorCheck
  trust_records : List TrustRecord
  problems : List ProblemRecord
  evidence : List EvidenceRecord
  audit_chain_status : String
  release_blocker_count : Nat
  recovery_playbook : List RecoveryPlaybookRecord
  snapshot_source : String
  snapshot_path : String

def auditJson (response : Response) (action result : String) : AuditRecord where
  event_id := textOr response "audit_event_id" action
  action := action
  result := result
  payload_hash := "sha256:1111111111111111111111111111111111111111111111111111111111111111"

def releaseProblemJson (problemId item severity category message target recoveryId
    requiredAction : String) (blocksOwnerUse : Bool) : ProblemRecord where
  problem_id := problemId
  severity := severity
  category := category
  message := message
  target := target
  recovery_id := recoveryId
  item := item
  reason := message
  required_action := requiredAction
  safe_to_ignore_for_phase_b := !blocksOwnerUse
  blocks_owner_use := blocksOwnerUse

def problemToRecoveryPlaybookJson (problem : ProblemRecord) : RecoveryPlaybookRecord where
  recovery_id := problem.recovery_id
  item := problem.item
  severity := problem.severity
  classification := problem.classification
  safe_to_ignore_for_phase_b := problem.safe_to_ignore_for_phase_b
  required_action := problem.required_action
  blocks_completed_product_release := problem.blocks_completed_product_release
  blocks_owner_use := problem.blocks_owner_use
  path := problem.target

/-! ### What the responses say -/

namespace Probes

variable (probes : Probes)

def healthStatus : String := textOr probes.health "status" "unknown"

def cutoverStatus : String := textOr probes.health "authority_cutover_status" "unknown"

def persistenceReady : Bool := lookup probes.health "persistence_ready" = .bool true

def commandDispatchEnabled : Bool :=
  lookup probes.health "command_dispatch_enabled" = .bool true &&
    boolInBody probes.commandResponse "dispatch_enabled"

def protectedEditRejected : Bool := lookup probes.protectedEdit "ok" = .bool false

def brokerReady : Bool := probes.healthStatus = "ready" && probes.persistenceReady

def runtimeStatus : String :=
  if probes.brokerReady && probes.cutoverStatus = "active" then "ready" else "suspend"

/-- The part of the projection that is searched. A redacted payload that is no map is a failed
cast. -/
def projectedContent (cast_error : Value → String) : Except String Response :=
  match sorted_map.get "redacted_payload" probes.projection with
  | none => .ok probes.projection
  | some .null => .ok []
  | some (.object fields) => .ok fields
  | some v => .error (cast_error v)

def problems (projectionRedacted : Bool) : List ProblemRecord :=
  (if probes.brokerReady then [] else [releaseProblemJson "broker-persistence-not-ready"
    "ブローカー永続保管庫の準備未完了" "error" "broker_ipc"
    "Rustブローカーが監査／再生／セッションの永続化準備完了を報告していません。"
    "rust_security_broker" "recover-broker-persistence"
    "永続保管庫へアクセスできる状態でRustブローカーを起動し、製品UIを再接続してください。" true]) ++
  (if probes.cutoverStatus = "active" then [] else [releaseProblemJson
    "broker-authority-cutover-not-active" "ブローカー権限切替えが未稼働" "warning"
    "authority_cutover"
    "Flutterはブローカーを介していますが、ブローカーは権限切替えの稼働を主張していません。"
    "authority_cutover_status" "recover-authority-cutover"
    "ブローカー権限切替えを完了した後に限り、能動的な権限操作を許可してください。" false]) ++
  (if probes.commandDispatchEnabled then [] else [releaseProblemJson
    "broker-command-dispatch-suspended" "ブローカーのコマンド配送は停止中" "warning"
    "command_envelope" "外部コマンド配送はRustブローカーによって引き続き停止されています。"
    "command_dispatch_enabled" "recover-command-dispatch"
    "外部配送を有効にする前に、コマンド封筒の権限対応を完了してください。" false]) ++
  (if probes.protectedEditRejected then [] else [releaseProblemJson
    "approval-protected-field-edit-not-rejected" "承認の保護項目編集が拒否されなかった" "error"
    "approval"
    "ブローカーが承認の保護項目payload_hashに対する編集試行を拒否しませんでした。"
    "approval_edit" "recover-approval-protected-edit"
    "保護項目の強制を復旧するまで権限作用を停止してください。" true]) ++
  (if projectionRedacted then [] else [releaseProblemJson
    "broker-content-projection-leaked-full-payload" "ブローカー内容射影から完全内容が漏えい"
    "error" "content_projection"
    "ブローカー内容射影が、非表示の完全内容に対する試行からデータを返しました。"
    "content_projection" "recover-content-projection"
    "権限作用を停止し、内容可視性の強制を復旧してください。" true])

def auditEvents : List AuditRecord := [
  auditJson probes.healthResponse "broker.health" "accepted",
  auditJson probes.normalizeResponse "broker.normalize_payload" "accepted",
  auditJson probes.projectionResponse "broker.content_projection" "accepted",
  auditJson probes.protectedEditResponse "broker.approval_protected_edit"
    (if probes.protectedEditRejected then "rejected" else "accepted"),
  auditJson probes.commandResponse "broker.command_envelope" "suspended"]

def invariantFlags : List (String × Bool) := [
  ("flutter_imported_by_shell_core", false),
  ("blue_tanuki_imported_by_shell_core", false),
  ("adapter_metadata_can_escalate_authority", false),
  ("memory_cache_previous_state_can_grant_authority", false),
  ("full_payload_projected_without_full_visibility", false),
  ("installer_setup_state_can_grant_authority", false),
  ("mobile_device_state_can_grant_authority", false),
  ("flutter_product_uses_local_snapshot_for_authority", false),
  ("authority_bridge_uses_ffi", false),
  ("approval_protected_field_edit_allowed", !probes.protectedEditRejected)]

def passOr (other : String) (check : Bool) : String := if check then "pass" else other

def setupDoctorChecks : List SetupDoctorCheck := [
  { check_id := "broker.ipc"
    status := passOr "fail" probes.brokerReady
    message := "Flutter製品経路は、権限状態の取得に認証済みブローカーIPCを使用しました。"
    recovery_instruction :=
      if probes.brokerReady then none else some "Rustブローカーを再起動して再接続してください。" },
  { check_id := "broker.persistence"
    status := passOr "fail" probes.persistenceReady
    message := "永続化準備=" ++ toText (.bool probes.persistenceReady) ++
      " 監査=" ++ toText (lookup probes.health "audit_persistence") ++
      " 再生=" ++ toText (lookup probes.health "replay_persistence") ++
      " セッション=" ++ toText (lookup probes.health "session_persistence")
    recovery_instruction :=
      if probes.persistenceReady then none
      else some "ブローカー永続保管庫へのアクセスを修復してください。" },
  { check_id := "broker.protected_field_edit"
    status := passOr "fail" probes.protectedEditRejected
    message :=
      if probes.protectedEditRejected then "保護項目payload_hashの編集を拒否しました。"
      else "保護項目の編集試行が拒否されませんでした。"
    recovery_instruction :=
      if probes.protectedEditRejected then none
      else some "権限作用を停止し、承認編集の強制を復旧してください。" },
  { check_id := "broker.command_dispatch"
    status := passOr "warning" probes.commandDispatchEnabled
    message := "command_dispatch_enabled=" ++ toText (.bool probes.commandDispatchEnabled)
    recovery_instruction :=
      if probes.commandDispatchEnabled then none
      else some "コマンド封筒配送の権限対応を完了してください。" }]

def trustRecords : List TrustRecord := [
  { scope := "broker_session"
    state := if probes.brokerReady then "restricted" else "blocked"
    source := "authenticated_loopback_tcp"
    blocked_operations :=
      if probes.commandDispatchEnabled then [] else ["external_command_dispatch"] },
  { scope := "authority_cutover"
    state := probes.cutoverStatus
    source := "rust_security_broker"
    blocked_operations :=
      if probes.cutoverStatus = "active" then [] else ["authority_actions"] }]

def evidence (projectionRedacted : Bool) : List EvidenceRecord := [
  { evidence_id := "broker-ipc-product-path"
    status := passOr "fail" probes.brokerReady
    path := "broker://127.0.0.1/health" },
  { evidence_id := "broker-protected-edit-probe"
    status := passOr "fail" probes.protectedEditRejected
    path := "broker://127.0.0.1/approval_edit" },
  { evidence_id := "broker-redacted-projection-probe"
    status := passOr "fail" projectionRedacted
    path := "broker://127.0.0.1/content_projection" },
  { evidence_id := "broker-command-dispatch-suspended"
    status := passOr "fail" !probes.commandDispatchEnabled
    path := "broker://127.0.0.1/command_envelope" }]

end Probes

def auditChainStatus (persistenceReady : Bool) : String :=
  if persistenceReady then "durable_file_store" else "not_ready"

def brokerSnapshot (cast_error : Value → String) (probes : Probes) :
    Except String ShellSnapshot := do
  let projectedContent ← probes.projectedContent cast_error
  let projectionRedacted := !encodes "hidden" (.object projectedContent)
  let problems := probes.problems projectionRedacted
  .ok {
    operation_status := {
      runtime_status := probes.runtimeStatus
      invariant_status := if probes.protectedEditRejected then "ok" else "blocked"
      trust_status := if probes.brokerReady then "restricted" else "blocked"
      audit_chain_status := auditChainStatus probes.persistenceReady
      problems_count := problems.length }
    runtimes := [{
      runtime_id := "gui_shell_rust_broker"
      name := "Rust Security Broker"
      status := probes.runtimeStatus
      adapter_id := "restricted_ipc"
      diagnostic_summary := "状態=" ++ probes.healthStatus ++ " 永続化準備=" ++
        toText (.bool probes.persistenceReady) ++ " 切替え=" ++ probes.cutoverStatus }]
    audit_events := probes.auditEvents
    recovery_actions := problems.map fun problem =>
      ⟨problem.recovery_id, problem.severity, problem.required_action, true⟩
    invariant_flags := probes.invariantFlags
    setup_doctor_status := if probes.brokerReady then "warning" else "fail"
    setup_doctor_checks := probes.setupDoctorChecks
    trust_records := probes.trustRecords
    problems := problems
    evidence := probes.evidence projectionRedacted
    audit_chain_status := auditChainStatus probes.persistenceReady
    release_blocker_count := (problems.filter ProblemRecord.blocks_release).length
    recovery_playbook := problems.map problemToRecoveryPlaybookJson
    snapshot_source := "broker"
    snapshot_path := "broker://127.0.0.1/health" }

def brokerUnavailableSnapshot (reason : String) : ShellSnapshot :=
  let problem := releaseProblemJson "broker-product-path-unavailable" "ブローカー製品経路を利用不可"
    "error" "broker_ipc"
    "Flutter製品の権限経路は、受理されたブローカーIPCを確立できませんでした。" "rust_security_broker"
    "recover-broker-product-path"
    "Rustブローカーを再起動または修復してください。権限根拠をローカルJSONへ代替しないでください。" true
  { operation_status := {
      runtime_status := "suspend"
      invariant_status := "blocked"
      trust_status := "blocked"
      audit_chain_status := "not_ready"
      problems_count := 1 }
    runtimes := [{
      runtime_id := "gui_shell_rust_broker"
      name := "Rust Security Broker"
      status := "unavailable"
      adapter_id := "restricted_ipc"
      diagnostic_summary := reason }]
    audit_events := [{
      event_id := "broker-product-path-unavailable"
      action := "broker.connect"
      result := "rejected"
      payload_hash := "sha256:0000000000000000000000000000000000000000000000000000000000000000" }]
    recovery_actions := [⟨"recover-broker-product-path", "error",
      "ブローカーIPCを復旧するまで権限作用は無効です。", true⟩]
    invariant_flags := [
      ("flutter_imported_by_shell_core", false),
      ("blue_tanuki_imported_by_shell_core", false),
      ("adapter_metadata_can_escalate_authority", false),
      ("memory_cache_previous_state_can_grant_authority", false),
      ("full_payload_projected_without_full_visibility", false),
      ("installer_setup_state_can_grant_authority", false),
      ("mobile_device_state_can_grant_authority", false),
      ("flutter_product_uses_local_snapshot_for_authority", false),
      ("authority_bridge_uses_ffi", false),
      ("broker_unavailable_fail_closed", true)]
    setup_doctor_status := "fail"
    setup_doctor_checks := [
      { check_id := "broker.ipc"
        status := "fail"
        message := "ブローカーIPCを利用できないか、認証が拒否されました。"
        recovery_instruction :=
          some "Rustブローカーを再起動して再接続してください。ローカルJSONは診断専用です。" },
      { check_id := "broker.fail_closed"
        status := "pass"
        message :=
          "Flutter製品経路はローカルスナップショットを権限化せず、SUSPENDを返しました。"
        recovery_instruction := none }]
    trust_records := [
      { scope := "broker_session"
        state := "blocked"
        source := "restricted_ipc"
        blocked_operations := ["authority_actions", "external_command_dispatch"] }]
    problems := [problem]
    evidence := [
      { evidence_id := "broker-unavailable-fail-closed"
        status := "pass"
        path := "broker://127.0.0.1/connect" }]
    audit_chain_status := "not_ready"
    release_blocker_count := 1
    recovery_playbook := [problemToRecoveryPlaybookJson problem]
    snapshot_source := "broker_unavailable"
    snapshot_path := "broker://127.0.0.1/connect" }

structure ShellCoreClient where
  snapshot : ShellSnapshot
  mode : String

/-- The client of the product. Every exception gives the snapshot without a broker. -/
def product (cast_error : Value → String) (outcomes : Outcomes) : ShellCoreClient :=
  match probe outcomes >>= brokerSnapshot cast_error with
  | .ok snapshot => ⟨snapshot, "broker"⟩
  | .error error => ⟨brokerUnavailableSnapshot error, "broker_unavailable"⟩

/-! ## The texts of values -/

/-- How the text of a value starts that is no string. -/
theorem toText_head {v : Value} (h : ∀ s, v ≠ .string s) :
    ∃ c, (toText v).toList.head? = some c ∧
      (c ∈ ['n', 't', 'f', '[', '\x7b', '-'] ∨ c.isDigit = true) := by
  cases v with
  | null => exact ⟨'n', rfl, by simp⟩
  | bool b =>
    cases b with
    | true => exact ⟨'t', rfl, by simp⟩
    | false => exact ⟨'f', rfl, by simp⟩
  | number n =>
    obtain ⟨c, rest, htext, hc⟩ := Number.text_head n
    refine ⟨c, ?_, ?_⟩
    · rw [toText, String.toList_ofList, htext]
      rfl
    · rcases hc with rfl | hc
      · simp
      · exact .inr hc
  | string s => exact absurd rfl (h s)
  | array items =>
    refine ⟨'[', ?_, by simp⟩
    rw [toText, String.toList_append, String.toList_append]
    rfl
  | object fields =>
    refine ⟨'\x7b', ?_, by simp⟩
    rw [toText, String.toList_append, String.toList_append]
    rfl

/-- Only a string has one of these words for its text. -/
theorem toText_eq_word {v : Value} {word : String} (hword : word ∈ ["ready", "active"])
    (h : toText v = word) : v = .string word := by
  by_cases hstring : ∃ s, v = .string s
  · obtain ⟨s, rfl⟩ := hstring
    rw [← h, toText]
  · obtain ⟨c, hhead, hc⟩ := toText_head fun s hs => hstring ⟨s, hs⟩
    rw [h] at hhead
    simp only [List.mem_cons, List.not_mem_nil, or_false] at hword
    rcases hword with rfl | rfl
    · obtain rfl : 'r' = c := Option.some.inj hhead
      exact absurd hc (by decide)
    · obtain rfl : 'a' = c := Option.some.inj hhead
      exact absurd hc (by decide)

theorem textOr_eq_word {map : Response} {key word : String}
    (hword : word ∈ ["ready", "active"]) (h : textOr map key "unknown" = word) :
    lookup map key = .string word := by
  unfold textOr at h
  split at h
  · subst h
    exact absurd hword (by decide)
  · exact toText_eq_word hword h

/-! ## What was heard -/

theorem bind_eq_ok {ε α β : Type} {x : Except ε α} {f : α → Except ε β} {b : β} :
    x >>= f = .ok b ↔ ∃ a, x = .ok a ∧ f a = .ok b := by
  cases x <;> simp [bind, Except.bind]

/-- The five responses are the ones that the client asks for. -/
structure Heard (outcomes : Outcomes) (probes : Probes) : Prop where
  connect : outcomes.connect = .ok ()
  healthResponse : outcomes.health = .ok probes.healthResponse
  normalizeResponse : outcomes.normalize = .ok probes.normalizeResponse
  projectionResponse : outcomes.projection = .ok probes.projectionResponse
  protectedEditResponse : outcomes.protectedEdit = .ok probes.protectedEditResponse
  commandResponse : outcomes.command = .ok probes.commandResponse
  health_accepted : lookup probes.healthResponse "status" = .string "accepted"
  normalize_accepted : lookup probes.normalizeResponse "status" = .string "accepted"
  projection_accepted : lookup probes.projectionResponse "status" = .string "accepted"
  protectedEdit_accepted : lookup probes.protectedEditResponse "status" = .string "accepted"
  command_suspended : lookup probes.commandResponse "status" = .string "suspended"
  health : lookup probes.healthResponse "health" = .object probes.health
  projection : lookup probes.projectionResponse "body" = .object probes.projection
  protectedEdit : lookup probes.protectedEditResponse "body" = .object probes.protectedEdit

theorem requireAccepted_eq_ok {response : Response} {operation : String} {u : Unit} :
    requireAccepted response operation = .ok u ↔
      lookup response "status" = .string "accepted" := by
  unfold requireAccepted
  by_cases h : lookup response "status" = .string "accepted"
  · rw [if_neg (not_not.mpr h)]
    simp [h]
  · rw [if_pos h]
    simp [h]

theorem acceptedResponseBodyMap_eq_ok {response body : Response} {operation bodyKey : String} :
    acceptedResponseBodyMap response operation bodyKey = .ok body ↔
      lookup response "status" = .string "accepted" ∧ lookup response bodyKey = .object body := by
  unfold acceptedResponseBodyMap
  rw [bind_eq_ok]
  simp only [requireAccepted_eq_ok]
  constructor
  · rintro ⟨_, haccepted, h⟩
    refine ⟨haccepted, ?_⟩
    split at h
    · rename_i body' hbody
      rw [hbody, Except.ok.inj h]
    · contradiction
  · rintro ⟨haccepted, hbody⟩
    exact ⟨(), haccepted, by rw [hbody]⟩

theorem probe_eq_ok {outcomes : Outcomes} {probes : Probes} :
    probe outcomes = .ok probes ↔ Heard outcomes probes := by
  unfold probe
  simp only [bind_eq_ok, requireAccepted_eq_ok, acceptedResponseBodyMap_eq_ok]
  constructor
  · rintro ⟨_, hconnect, healthResponse, hhealth, health, ⟨hha, hhm⟩, normalizeResponse, hnormalize,
      _, hna, projectionResponse, hprojection, projection, ⟨hpa, hpm⟩, protectedEditResponse,
      hedit, protectedEdit, ⟨hea, hem⟩, commandResponse, hcommand, hlast⟩
    split at hlast
    · contradiction
    · rename_i hsuspended
      cases hlast
      exact ⟨hconnect, hhealth, hnormalize, hprojection, hedit, hcommand, hha, hna, hpa, hea,
        not_not.mp hsuspended, hhm, hpm, hem⟩
  · intro h
    refine ⟨(), h.connect, _, h.healthResponse, _, ⟨h.health_accepted, h.health⟩, _,
      h.normalizeResponse, (), h.normalize_accepted, _, h.projectionResponse, _,
      ⟨h.projection_accepted, h.projection⟩, _, h.protectedEditResponse, _,
      ⟨h.protectedEdit_accepted, h.protectedEdit⟩, _, h.commandResponse, ?_⟩
    rw [if_neg (not_not.mpr h.command_suspended)]

/-- The part of the projection that is searched for the hidden text, none when the cast fails. -/
def searched (projection : Response) : Option Response :=
  match sorted_map.get "redacted_payload" projection with
  | none => some projection
  | some .null => some []
  | some (.object fields) => some fields
  | some _ => none

/-- Every request is answered as it must be for a snapshot of the broker. -/
def Answered (outcomes : Outcomes) : Prop :=
  ∃ probes, Heard outcomes probes ∧ (searched probes.projection).isSome = true

theorem Heard.unique {outcomes : Outcomes} {p q : Probes} (hp : Heard outcomes p)
    (hq : Heard outcomes q) : p = q :=
  Except.ok.inj ((probe_eq_ok.mpr hp).symm.trans (probe_eq_ok.mpr hq))

variable {cast_error : Value → String} {outcomes : Outcomes}

theorem projectedContent_eq_ok {probes : Probes} {content : Response} :
    probes.projectedContent cast_error = .ok content ↔
      searched probes.projection = some content := by
  unfold Probes.projectedContent searched
  split <;> simp

/-- The snapshot of the broker shows these parts of the probes. -/
structure Shows (snapshot : ShellSnapshot) (probes : Probes) (content : Response) : Prop where
  runtime_status : snapshot.operation_status.runtime_status = probes.runtimeStatus
  runtimes : ∀ runtime ∈ snapshot.runtimes, runtime.status = probes.runtimeStatus
  evidence : snapshot.evidence = probes.evidence !encodes "hidden" (.object content)
  invariant_flags : snapshot.invariant_flags = probes.invariantFlags

/-- A snapshot of the broker when everything is answered, and the one without a broker
otherwise. -/
theorem product_cases (cast_error : Value → String) (outcomes : Outcomes) :
    (∃ probes content, Heard outcomes probes ∧ searched probes.projection = some content ∧
      (product cast_error outcomes).mode = "broker" ∧
      Shows (product cast_error outcomes).snapshot probes content) ∨
    ((∃ reason, product cast_error outcomes =
      ⟨brokerUnavailableSnapshot reason, "broker_unavailable"⟩) ∧ ¬Answered outcomes) := by
  unfold product
  cases hprobe : probe outcomes with
  | error e =>
    refine .inr ⟨⟨e, rfl⟩, ?_⟩
    rintro ⟨probes, hheard, -⟩
    rw [probe_eq_ok.mpr hheard] at hprobe
    contradiction
  | ok probes =>
    have hheard := probe_eq_ok.mp hprobe
    cases hcontent : probes.projectedContent cast_error with
    | error e =>
      refine .inr ⟨⟨e, ?_⟩, ?_⟩
      · simp [bind, Except.bind, brokerSnapshot, hcontent]
      · rintro ⟨probes', hheard', hsome⟩
        obtain rfl := hheard.unique hheard'
        obtain ⟨content, hsearched⟩ := Option.isSome_iff_exists.mp hsome
        rw [projectedContent_eq_ok.mpr hsearched] at hcontent
        contradiction
    | ok content =>
      refine .inl ⟨probes, content, hheard, projectedContent_eq_ok.mp hcontent, ?_, ?_⟩
      · simp [bind, Except.bind, brokerSnapshot, hcontent]
      · simp only [bind, Except.bind, brokerSnapshot, hcontent]
        exact ⟨rfl, by simp, rfl, rfl⟩

/-! ## What the evidence must say -/

/-- The status is accepted, and the body is a map. -/
def answersMap (bodyKey : String) (response : Response) : Bool :=
  lookup response "status" = .string "accepted" && (lookup response bodyKey).as_object.isSome

/-- The responses to the requests, up to the first exception or the first refused response. -/
def gather : List (String × Except String Response × (Response → Bool)) → List (String × Response)
  | [] => []
  | (_, .error _, _) :: _ => []
  | (operation, .ok response, accepted) :: rest =>
    (operation, response) :: if accepted response then gather rest else []

def received (outcomes : Outcomes) : List (String × Response) :=
  match outcomes.connect with
  | .error _ => []
  | .ok () => gather [
    ("health", outcomes.health, answersMap "health"),
    ("normalize_payload", outcomes.normalize, (lookup · "status" = .string "accepted")),
    ("content_projection", outcomes.projection, answersMap "body"),
    ("approval_edit", outcomes.protectedEdit, answersMap "body"),
    ("command_envelope", outcomes.command, (lookup · "status" = .string "suspended"))]

/-- The marker of the full payload stands somewhere in the response. -/
def leaks (response : Response) : Bool := encodes "hidden" (.object response)

/-- The response says that commands are dispatched, in either of the two fields that say it. -/
def reportsDispatch (response : Response) : Bool :=
  boolInBody response "dispatch_enabled" ||
    match lookup response "health" with
    | .object health => lookup health "command_dispatch_enabled" = .bool true
    | _ => false

/-- A map of the health response that was received holds these values. -/
def HealthSays (outcomes : Outcomes) (values : List (String × Value)) : Prop :=
  ∃ response health, ("health", response) ∈ received outcomes ∧
    lookup response "health" = .object health ∧ ∀ x ∈ values, lookup health x.1 = x.2

/-- What the responses must be for an evidence to pass. -/
def Backed (outcomes : Outcomes) (evidence_id : String) : Prop :=
  match evidence_id with
  | "broker-ipc-product-path" =>
    HealthSays outcomes [("status", .string "ready"), ("persistence_ready", .bool true)]
  | "broker-protected-edit-probe" =>
    ∃ response body, ("approval_edit", response) ∈ received outcomes ∧
      lookup response "body" = .object body ∧ lookup body "ok" = .bool false
  | "broker-redacted-projection-probe" =>
    ∃ response, ("content_projection", response) ∈ received outcomes ∧ leaks response = false
  | "broker-command-dispatch-suspended" =>
    (∃ response, ("command_envelope", response) ∈ received outcomes) ∧
      ∀ x ∈ received outcomes, reportsDispatch x.2 = false
  | "broker-unavailable-fail-closed" => ¬Answered outcomes
  | _ => False

/-- The flag that says the same as the evidence. No flag is about the dispatch. -/
def flagOf (evidence_id : String) : Option String :=
  match evidence_id with
  | "broker-redacted-projection-probe" => some "full_payload_projected_without_full_visibility"
  | "broker-protected-edit-probe" => some "approval_protected_field_edit_allowed"
  | _ => none

/-- The evidence does not pass, and its flag is set. -/
def Raised (snapshot : ShellSnapshot) (evidence_id : String) : Prop :=
  (∀ evidence ∈ snapshot.evidence, evidence.evidence_id = evidence_id →
    evidence.status ≠ "pass") ∧
  ∃ flag, flagOf evidence_id = some flag ∧ (flag, true) ∈ snapshot.invariant_flags

/-- What the client shows is what the responses say. -/
structure Sound (outcomes : Outcomes) (client : ShellCoreClient) : Prop where
  accepted : client.mode = "broker" →
    ∀ operation ∈ ["health", "normalize_payload", "content_projection", "approval_edit"],
      ∃ response, (operation, response) ∈ received outcomes ∧
        lookup response "status" = .string "accepted"
  suspended : client.mode = "broker" →
    ∃ response, ("command_envelope", response) ∈ received outcomes ∧
      lookup response "status" = .string "suspended"
  ready : client.snapshot.operation_status.runtime_status = "ready" ∨
      (∃ runtime ∈ client.snapshot.runtimes, runtime.status = "ready") →
    HealthSays outcomes [("status", .string "ready"), ("persistence_ready", .bool true),
      ("authority_cutover_status", .string "active")]
  evidence : ∀ evidence ∈ client.snapshot.evidence, evidence.kind = "LIVE_RUNTIME" →
    evidence.status = "pass" → Backed outcomes evidence.evidence_id

/-- A leak and a report of a dispatch are both raised. -/
structure Raises (outcomes : Outcomes) (client : ShellCoreClient) : Prop where
  leak : ∀ response, ("content_projection", response) ∈ received outcomes →
    leaks response = true → Raised client.snapshot "broker-redacted-projection-probe"
  dispatch : ∀ x ∈ received outcomes, reportsDispatch x.2 = true →
    Raised client.snapshot "broker-command-dispatch-suspended"

/-! ## When the evidence says it -/

/-- All five responses are received when every one of them is as it must be. -/
theorem received_of_heard {probes : Probes} (h : Heard outcomes probes) :
    received outcomes = [
      ("health", probes.healthResponse), ("normalize_payload", probes.normalizeResponse),
      ("content_projection", probes.projectionResponse),
      ("approval_edit", probes.protectedEditResponse),
      ("command_envelope", probes.commandResponse)] := by
  unfold received
  rw [h.connect, h.healthResponse, h.normalizeResponse, h.projectionResponse,
    h.protectedEditResponse, h.commandResponse]
  simp [gather, answersMap, h.health_accepted, h.normalize_accepted, h.projection_accepted,
    h.protectedEdit_accepted, h.health, h.projection, h.protectedEdit, Value.as_object]

theorem brokerReady_eq_true {probes : Probes} (h : probes.brokerReady = true) :
    lookup probes.health "status" = .string "ready" ∧
      lookup probes.health "persistence_ready" = .bool true := by
  unfold Probes.brokerReady Probes.healthStatus Probes.persistenceReady at h
  rw [Bool.and_eq_true, decide_eq_true_eq, decide_eq_true_eq] at h
  exact ⟨textOr_eq_word (by simp) h.1, h.2⟩

theorem runtimeStatus_eq_ready {probes : Probes} (h : probes.runtimeStatus = "ready") :
    probes.brokerReady = true ∧
      lookup probes.health "authority_cutover_status" = .string "active" := by
  unfold Probes.runtimeStatus at h
  split at h
  · rename_i hready
    simp only [Bool.and_eq_true, decide_eq_true_eq] at hready
    exact ⟨hready.1, textOr_eq_word (by simp) hready.2⟩
  · exact absurd h (by decide)

theorem Heard.healthSays {probes : Probes} (h : Heard outcomes probes)
    {values : List (String × Value)} (hvalues : ∀ x ∈ values, lookup probes.health x.1 = x.2) :
    HealthSays outcomes values := by
  refine ⟨probes.healthResponse, probes.health, ?_, h.health, hvalues⟩
  rw [received_of_heard h]
  simp

theorem passOr_fail {check : Bool} : Probes.passOr "fail" check = "pass" ↔ check = true := by
  cases check <;> simp [Probes.passOr]

/-- What passes is backed, once the searched part shows every leak and the two dispatch fields show
every report. -/
theorem Heard.backed {probes : Probes} (h : Heard outcomes probes) {redacted : Bool}
    (hleak : redacted = true → leaks probes.projectionResponse = false)
    (hdispatch : probes.commandDispatchEnabled = false →
      ∀ x ∈ received outcomes, reportsDispatch x.2 = false)
    {evidence : EvidenceRecord} (hmem : evidence ∈ probes.evidence redacted)
    (hpass : evidence.status = "pass") : Backed outcomes evidence.evidence_id := by
  simp only [Probes.evidence, List.mem_cons, List.not_mem_nil, or_false] at hmem
  rcases hmem with rfl | rfl | rfl | rfl
  · obtain ⟨hstatus, hpersistence⟩ := brokerReady_eq_true (passOr_fail.mp hpass)
    apply h.healthSays
    simp [hstatus, hpersistence]
  · have hok := of_decide_eq_true (passOr_fail.mp hpass)
    refine ⟨probes.protectedEditResponse, probes.protectedEdit, ?_, h.protectedEdit, hok⟩
    rw [received_of_heard h]
    simp
  · refine ⟨probes.projectionResponse, ?_, hleak (passOr_fail.mp hpass)⟩
    rw [received_of_heard h]
    simp
  · have hoff := passOr_fail.mp hpass
    rw [Bool.not_eq_true'] at hoff
    refine ⟨⟨probes.commandResponse, ?_⟩, hdispatch hoff⟩
    rw [received_of_heard h]
    simp

theorem unavailable_backed {reason : String} (h : ¬Answered outcomes)
    {evidence : EvidenceRecord}
    (hmem : evidence ∈ (brokerUnavailableSnapshot reason).evidence) :
    Backed outcomes evidence.evidence_id := by
  obtain rfl := List.mem_singleton.mp hmem
  exact h

/-- The two flags are never set: one is a constant, and the other does not exist. -/
theorem not_raised (cast_error : Value → String) (outcomes : Outcomes) (evidence_id : String)
    (hid : evidence_id ∈ ["broker-redacted-projection-probe",
      "broker-command-dispatch-suspended"]) :
    ¬Raised (product cast_error outcomes).snapshot evidence_id := by
  rintro ⟨-, flag, hflag, hset⟩
  simp only [List.mem_cons, List.not_mem_nil, or_false] at hid
  rcases hid with rfl | rfl
  · obtain rfl : "full_payload_projected_without_full_visibility" = flag := Option.some.inj hflag
    rcases product_cases cast_error outcomes with ⟨probes, content, -, -, -, hshows⟩ | ⟨⟨e, hp⟩, -⟩
    · rw [hshows.invariant_flags] at hset
      simp [Probes.invariantFlags] at hset
    · rw [hp] at hset
      simp [brokerUnavailableSnapshot] at hset
  · simp [flagOf] at hflag

/-- The mode and the runtime status say no more than the responses. -/
theorem product_accepted (cast_error : Value → String) (outcomes : Outcomes)
    (hevidence : ∀ evidence ∈ (product cast_error outcomes).snapshot.evidence,
      evidence.kind = "LIVE_RUNTIME" → evidence.status = "pass" →
        Backed outcomes evidence.evidence_id) : Sound outcomes (product cast_error outcomes) := by
  rcases product_cases cast_error outcomes with ⟨probes, content, h, -, -, hshows⟩ | ⟨⟨e, hp⟩, -⟩
  · refine ⟨fun _ => ?_, fun _ => ?_, fun hready => ?_, hevidence⟩
    · simp [received_of_heard h, h.health_accepted, h.normalize_accepted, h.projection_accepted,
        h.protectedEdit_accepted]
    · simp [received_of_heard h, h.command_suspended]
    · have hstatus : probes.runtimeStatus = "ready" := by
        rcases hready with hready | ⟨runtime, hmem, hready⟩
        · rw [← hshows.runtime_status, hready]
        · rw [← hshows.runtimes runtime hmem, hready]
      obtain ⟨hbroker, hcutover⟩ := runtimeStatus_eq_ready hstatus
      obtain ⟨hhealth, hpersistence⟩ := brokerReady_eq_true hbroker
      apply h.healthSays
      simp [hhealth, hpersistence, hcutover]
  · rw [hp] at hevidence ⊢
    refine ⟨?_, ?_, ?_, hevidence⟩
    · simp
    · simp
    · simp [brokerUnavailableSnapshot]

theorem commandDispatchEnabled_iff {probes : Probes} :
    probes.commandDispatchEnabled = true ↔
      lookup probes.health "command_dispatch_enabled" = .bool true ∧
        boolInBody probes.commandResponse "dispatch_enabled" = true := by
  unfold Probes.commandDispatchEnabled
  rw [Bool.and_eq_true, decide_eq_true_eq]

/-- The evidence that is shown when everything is answered. -/
theorem product_evidence {probes : Probes} {content : Response} (h : Heard outcomes probes)
    (hcontent : searched probes.projection = some content) :
    (product cast_error outcomes).snapshot.evidence =
      probes.evidence !encodes "hidden" (.object content) := by
  rcases product_cases cast_error outcomes with
    ⟨probes', content', h', hcontent', -, hshows⟩ | ⟨-, hanswered⟩
  · obtain rfl := h.unique h'
    rw [hshows.evidence, Option.some.inj (hcontent.symm.trans hcontent')]
  · exact absurd ⟨probes, h, by rw [hcontent]; rfl⟩ hanswered

/-- No evidence passes against the responses exactly when every leak is in the searched part and
every report of a dispatch is in both of the fields that are read. -/
theorem sound_iff (cast_error : Value → String) (outcomes : Outcomes) :
    Sound outcomes (product cast_error outcomes) ↔
      ∀ probes content, Heard outcomes probes → searched probes.projection = some content →
        (leaks probes.projectionResponse = true → encodes "hidden" (.object content) = true) ∧
        ∀ x ∈ received outcomes, reportsDispatch x.2 = true →
          lookup probes.health "command_dispatch_enabled" = .bool true ∧
            boolInBody probes.commandResponse "dispatch_enabled" = true := by
  constructor
  · intro hsound probes content h hcontent
    have hevidence : (product cast_error outcomes).snapshot.evidence = _ :=
      product_evidence h hcontent
    refine ⟨fun hleak => ?_, fun x hx hreport => ?_⟩
    · by_contra hclean
      have hpass := hsound.evidence ⟨"broker-redacted-projection-probe", "LIVE_RUNTIME", "pass",
        "broker://127.0.0.1/content_projection"⟩ (by
          rw [hevidence]
          simp [Probes.evidence, Probes.passOr, hclean]) rfl rfl
      obtain ⟨response, hmem, hno⟩ := hpass
      rw [received_of_heard h] at hmem
      obtain rfl : response = probes.projectionResponse := by simpa using hmem
      rw [hleak] at hno
      contradiction
    · rw [← commandDispatchEnabled_iff]
      by_contra hoff
      have hpass := hsound.evidence ⟨"broker-command-dispatch-suspended", "LIVE_RUNTIME", "pass",
        "broker://127.0.0.1/command_envelope"⟩ (by
          rw [hevidence]
          simp [Probes.evidence, Probes.passOr, hoff]) rfl rfl
      have hno := hpass.2 x hx
      rw [hreport] at hno
      contradiction
  · intro hcond
    apply product_accepted
    intro evidence hmem hkind hpass
    rcases product_cases cast_error outcomes with
      ⟨probes, content, h, hcontent, -, hshows⟩ | ⟨⟨e, hp⟩, hanswered⟩
    · obtain ⟨hleak, hreport⟩ := hcond probes content h hcontent
      rw [hshows.evidence] at hmem
      refine h.backed ?_ ?_ hmem hpass
      · intro hredacted
        by_contra hleaks
        rw [hleak (Bool.eq_true_of_not_eq_false hleaks)] at hredacted
        contradiction
      · intro hoff x hx
        by_contra hon
        have hboth := hreport x hx (Bool.eq_true_of_not_eq_false hon)
        rw [← commandDispatchEnabled_iff, hoff] at hboth
        contradiction
    · rw [hp] at hmem
      exact unavailable_backed hanswered hmem

/-- The evidence is what the responses say, and both kinds of failure are raised, exactly when no
response leaks or reports a dispatch: no flag is ever set for either. Without the flags, a leak must
stand outside the searched part, or a report in one of the two fields alone, for the evidence to be
wrong. -/
theorem evidence_sound_iff (cast_error : Value → String) (outcomes : Outcomes) :
    (Sound outcomes (product cast_error outcomes) ∧ Raises outcomes (product cast_error outcomes) ↔
      (∀ response, ("content_projection", response) ∈ received outcomes →
        leaks response = false) ∧ ∀ x ∈ received outcomes, reportsDispatch x.2 = false) ∧
    (Sound outcomes (product cast_error outcomes) ↔
      ∀ probes content, Heard outcomes probes → searched probes.projection = some content →
        (leaks probes.projectionResponse = true → encodes "hidden" (.object content) = true) ∧
        ∀ x ∈ received outcomes, reportsDispatch x.2 = true →
          lookup probes.health "command_dispatch_enabled" = .bool true ∧
            boolInBody probes.commandResponse "dispatch_enabled" = true) := by
  refine ⟨⟨?_, ?_⟩, sound_iff cast_error outcomes⟩
  · rintro ⟨-, hraises⟩
    refine ⟨fun response hmem => ?_, fun x hmem => ?_⟩
    · by_contra hleak
      exact not_raised cast_error outcomes _ (by simp)
        (hraises.leak response hmem (Bool.eq_true_of_not_eq_false hleak))
    · by_contra hreport
      exact not_raised cast_error outcomes _ (by simp)
        (hraises.dispatch x hmem (Bool.eq_true_of_not_eq_false hreport))
  · rintro ⟨hleak, hreport⟩
    refine ⟨?_, ?_, ?_⟩
    · rw [sound_iff]
      intro probes content h hcontent
      refine ⟨fun hleaks => ?_, fun x hmem hreports => ?_⟩
      · rw [hleak probes.projectionResponse (by simp [received_of_heard h])] at hleaks
        contradiction
      · rw [hreport x hmem] at hreports
        contradiction
    · intro response hmem hleaks
      rw [hleak response hmem] at hleaks
      contradiction
    · intro x hmem hreports
      rw [hreport x hmem] at hreports
      contradiction

/-- A healthy broker whose projection holds the full payload beside the redacted one, which alone is
searched. -/
def leakingProbes : Probes :=
  let health := [("authority_cutover_status", .string "active"), ("persistence_ready", .bool true),
    ("status", .string "ready")]
  let projection := [("full_payload", .object [("content", .string "hidden")]),
    ("redacted_payload", .object [("content", .string "[redacted]")])]
  let protectedEdit := [("ok", .bool false)]
  { healthResponse := [("health", .object health), ("status", .string "accepted")]
    health
    normalizeResponse := [("status", .string "accepted")]
    projectionResponse := [("body", .object projection), ("status", .string "accepted")]
    projection
    protectedEditResponse := [("body", .object protectedEdit), ("status", .string "accepted")]
    protectedEdit
    commandResponse :=
      [("body", .object [("dispatch_enabled", .bool false)]), ("status", .string "suspended")] }

def leakingOutcomes : Outcomes where
  connect := .ok ()
  health := .ok leakingProbes.healthResponse
  normalize := .ok leakingProbes.normalizeResponse
  projection := .ok leakingProbes.projectionResponse
  protectedEdit := .ok leakingProbes.protectedEditResponse
  command := .ok leakingProbes.commandResponse

theorem heard_leaking : Heard leakingOutcomes leakingProbes := by
  refine ⟨rfl, rfl, rfl, rfl, rfl, rfl, ?_, ?_, ?_, ?_, ?_, ?_, ?_, ?_⟩ <;> rfl

theorem leaks_leaking : leaks leakingProbes.projectionResponse = true := by decide +kernel

/-- The leak passes as redacted, and no flag is set. -/
theorem leak_passes :
    ¬Sound leakingOutcomes (product (fun _ => "") leakingOutcomes) ∧
      ¬Raises leakingOutcomes (product (fun _ => "") leakingOutcomes) := by
  constructor
  · intro hsound
    have hfound := ((sound_iff _ _).mp hsound leakingProbes _ heard_leaking rfl).1 leaks_leaking
    exact absurd hfound (by decide +kernel)
  · intro hraises
    have hmem : ("content_projection", leakingProbes.projectionResponse) ∈
        received leakingOutcomes := by simp [received_of_heard heard_leaking]
    exact not_raised _ _ _ (by simp) (hraises.leak _ hmem leaks_leaking)

end shell_core_client
