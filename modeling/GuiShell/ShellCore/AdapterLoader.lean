-- The adapters of the Python shell (adapter_loader.py). An adapter gives up its claims of
-- authority when it is loaded.
import GuiShell.ShellCore.Normalization

open json shell_core.normalization

namespace shell_core

structure AdapterRecord where
  adapter_id : Value
  runtime_id : Value
  contract_version : Value
  transport : Value
  declared_capabilities : List Value
  metadata : Value

/-- `tuple` of a value, none when it cannot be iterated. -/
def tuple : Value → Option (List Value)
  | .array items => some items
  | .object fields => some (fields.map fun field => .string field.1)
  | .string s => some (s.toList.map fun c => .string (.singleton c))
  | _ => none

/-- None when the code raises. -/
def load_adapter (unicode : Unicode) (adapter : Value) : Option AdapterRecord :=
  if adapter.get "authority_strip" ≠ some (.bool true) then none
  else do
    let adapter_id ← adapter.get "adapter_id"
    let runtime_id ← adapter.get "runtime_id"
    let contract_version ← adapter.get "contract_version"
    let transport := (adapter.get "transport").getD (.string "mock")
    let declared_capabilities ← tuple ((adapter.get "declared_capabilities").getD (.array []))
    let metadata := strip_authority_keys unicode ((adapter.get "metadata").getD (.object []))
    if authority_values_in unicode metadata "" ≠ [] then none
    else some {
      adapter_id, runtime_id, contract_version, transport, declared_capabilities, metadata }

/-- What a state keeps of a loaded adapter. -/
def AdapterRecord.entry (record : AdapterRecord) : Value := .object [
  ("adapter_id", record.adapter_id),
  ("runtime_id", record.runtime_id),
  ("contract_version", record.contract_version),
  ("transport", record.transport),
  ("authority_strip", .bool true),
  ("declared_capabilities", .array record.declared_capabilities),
  ("metadata", record.metadata)]

theorem AdapterRecord.get_entry (record : AdapterRecord) :
    record.entry.get "adapter_id" = some record.adapter_id := rfl

end shell_core
