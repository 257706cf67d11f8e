-- What it takes for an action to be authorized, apart from how an evaluator finds out: the texts
-- that the action names stand in one record of each kind, and the records agree with each other.
-- The records come from a lookup, which may be a state or the history that led to it.
import GuiShell.ShellCore.PolicyEvaluator
import GuiShell.ShellCore.StateSnapshot

open json shell_core shell_core.state_snapshot

namespace authorization

/-! ## Actions -/

/-- The value has these texts in these fields. -/
def Carries (v : Value) (texts : List (String × String)) : Prop :=
  ∀ e ∈ texts, v.get e.1 = some (.string e.2)

instance (v : Value) (texts : List (String × String)) : Decidable (Carries v texts) :=
  inferInstanceAs (Decidable (∀ e ∈ texts, v.get e.1 = some (.string e.2)))

/-- The texts that an action names. -/
structure Request where
  runtime_id : String
  operation : String
  target_scope : String
  capability_id : String
  permission_id : String
  approval_id : String
  event_id : String
  recovery_id : String

namespace Request

variable (r : Request)

/-- What is asked for, and where. -/
def scope : List (String × String) :=
  [("runtime_id", r.runtime_id), ("operation", r.operation), ("target_scope", r.target_scope)]

def ids : List (String × String) :=
  [("capability_id", r.capability_id), ("permission_id", r.permission_id),
    ("approval_id", r.approval_id)]

end Request

/-- The value under a key of the action has these texts in its fields. -/
def CarriesUnder (key : String) (action : Value) (texts : List (String × String)) : Prop :=
  ∃ v, action.get key = some v ∧ Carries v texts

structure Names (action : Value) (r : Request) : Prop where
  scope : Carries action r.scope
  ids : Carries action r.ids
  audit_event : CarriesUnder "audit_event" action [("event_id", r.event_id)]
  recovery_action : CarriesUnder "recovery_action" action [("recovery_id", r.recovery_id)]

/-- The action brings something under one of the keys of a payload. -/
def Brings (action : Value) : Prop :=
  ∃ key ∈ ["payload", "full_payload", "redacted_payload"], (action.get key).isSome = true

/-- A source that is no authority says that it grants authority. -/
def FromNonAuthority (action : Value) : Prop :=
  ∃ source ∈ NON_AUTHORITY_SOURCES, action.get "authority_source" = some (.string source) ∨
    action.get (source ++ "_grants_authority") = some (.bool true)

/-! ## Records -/

section records

variable (find : Kind → String → Option Value)

/-- The record of a kind under an id has these texts in its fields. -/
def Found (kind : Kind) (id : String) (texts : List (String × String)) : Prop :=
  ∃ record, find kind id = some record ∧ Carries record texts

/-- The records let the request through, for a payload with this hash. -/
structure Authorized (hash : String) (action : Value) (r : Request) : Prop where
  runtime : Found find .runtime r.runtime_id []
  capability : Found find .capability r.capability_id [("runtime_id", r.runtime_id)]
  /-- The capability is one for the operation. -/
  capable : ∃ capability operations, find .capability r.capability_id = some capability ∧
    capability.get "operations" = some (.array operations) ∧ .string r.operation ∈ operations
  permission : Found find .permission r.permission_id
    (("decision", "allow") :: ("capability_id", r.capability_id) :: r.scope)
  approval : Found find .approval r.approval_id (("status", "approved") :: r.scope)
  audit_event : Found find .audit_event r.event_id [("action", r.operation)]
  recovery_action : Found find .recovery_action r.recovery_id
    [("runtime_id", r.runtime_id), ("operation", r.operation)]
  /-- The approval and the audit event are for the payload that the action brings. -/
  approved_payload : Brings action → Found find .approval r.approval_id [("payload_hash", hash)]
  audited_payload : Brings action → Found find .audit_event r.event_id [("payload_hash", hash)]
  not_from_non_authority : ¬FromNonAuthority action

/-- The audit event of the action has the payload hash of the recorded one. -/
def SameAuditHash (action : Value) (r : Request) : Prop :=
  ∃ hash, CarriesUnder "audit_event" action [("payload_hash", hash)] ∧
    Found find .audit_event r.event_id [("payload_hash", hash)]

end records

/-! ### Lookups in them -/

section lookups

variable {find : Kind → String → Option Value} {kind : Kind} {id : String}

theorem carries_nil (v : Value) : Carries v [] := fun _ he => absurd he List.not_mem_nil

@[simp] theorem carries_cons {v : Value} {e : String × String} {texts : List (String × String)} :
    Carries v (e :: texts) ↔ v.get e.1 = some (.string e.2) ∧ Carries v texts :=
  List.forall_mem_cons

@[simp] theorem carries_nil_iff {v : Value} : Carries v [] ↔ True := iff_true_intro (carries_nil v)

theorem found_iff {record : Value} {texts : List (String × String)}
    (h : find kind id = some record) : Found find kind id texts ↔ Carries record texts := by
  constructor
  · rintro ⟨record', hfind, hcarries⟩
    rw [h] at hfind
    cases hfind
    exact hcarries
  · intro hcarries
    exact ⟨record, h, hcarries⟩

theorem carriesUnder_iff {key : String} {action v : Value} {texts : List (String × String)}
    (h : action.get key = some v) : CarriesUnder key action texts ↔ Carries v texts := by
  constructor
  · rintro ⟨w, hw, hcarries⟩
    rw [h] at hw
    cases hw
    exact hcarries
  · intro hcarries
    exact ⟨v, h, hcarries⟩

end lookups

/-- The lookup in the records of a state. -/
def inState (state : RuntimeState) (kind : Kind) (id : String) : Option Value :=
  sorted_map.get id (entries state kind)

end authorization
