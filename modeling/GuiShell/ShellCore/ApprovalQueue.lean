-- The approval queue of the Python shell (approval_queue.py). An edit works on a copy of the
-- approval and puts it back as its last step.
import GuiShell.ShellCore.AdapterLoader
import GuiShell.ShellCore.CanonicalHash
import GuiShell.ShellCore.PythonValues

open json

namespace shell_core

namespace approval_queue

def PROTECTED_EDIT_FIELDS : List String :=
  ["runtime_id", "permission_id", "audit_id", "audit_event_id", "payload_hash"]

/-- `set(approval.get(key, []))`, or none when it raises. -/
def fieldSet (approval : List (String × Value)) (key : String) : Option (List Value) :=
  (tuple ((sorted_map.get key approval).getD (.array []))).filter fun items => items.all hashable

def protected_fields (approval : List (String × Value)) : Option (List Value) := do
  let authority_fields ← fieldSet approval "authority_fields"
  let sealed_fields ← fieldSet approval "sealed_fields"
  let hidden_fields ← fieldSet approval "hidden_fields"
  let sacred_fields ← fieldSet approval "sacred_fields"
  some (authority_fields ++ sealed_fields ++ hidden_fields ++ sacred_fields ++
    PROTECTED_EDIT_FIELDS.map .string)

structure ApprovalQueue where
  approvals : List (String × List (String × Value))

namespace ApprovalQueue

variable (queue : ApprovalQueue)

def new : ApprovalQueue := ⟨[]⟩

/-- Without an id the code raises. -/
def enqueue (approval : List (String × Value)) : Option ApprovalQueue :=
  ((sorted_map.get "approval_id" approval).bind Value.as_str).map fun approval_id =>
    ⟨dict.setItem approval_id approval queue.approvals⟩

/-- None for an id that is not in the queue. -/
def get (approval_id : String) : Option (List (String × Value)) :=
  sorted_map.get approval_id queue.approvals

/-- None when the code raises. The protected fields are looked at for an editable field only. -/
def can_edit (approval_id field : String) : Option Bool := do
  let approval ← queue.get approval_id
  let editable_fields ← fieldSet approval "editable_fields"
  if .string field ∈ editable_fields then
    (protected_fields approval).map fun fields => .string field ∉ fields
  else some false

/-- The edited approval, or none when the code raises, and the queue then. A payload that is no
dict takes no item. -/
def edit (sha256 : Bytes → Bytes) (approval_id field : String) (value : Value) :
    Option (List (String × Value)) × ApprovalQueue :=
  match queue.can_edit approval_id field, queue.get approval_id with
  | some true, some approval =>
    match (sorted_map.get "full_payload" approval).getD (.object []) with
    | .object payload =>
      let payload := dict.setItem field value payload
      let approval := dict.setItem "full_payload" (.object payload) approval
      let approval := dict.setItem "payload_hash"
        (.string (canonical_hash sha256 (.object payload))) approval
      let approval := dict.setItem "status" (.string "requires_validation") approval
      (some approval, ⟨dict.setItem approval_id approval queue.approvals⟩)
    | _ => (none, queue)
  | _, _ => (none, queue)

end ApprovalQueue

end approval_queue

end shell_core
