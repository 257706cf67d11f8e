-- The canonical hash of the Python side. approval_queue.py and audit_chain.py each have
-- it, with the same text: `json.dumps` with sorted keys and no spaces, which escapes
-- everything outside printable ASCII.
import GuiShell.AuditHash
import GuiShell.Json.Escapers

open json

namespace shell_core

/-- `json.dumps(payload, sort_keys=True, separators=(",", ":"))`. -/
def dumps (payload : Value) : String := .ofList (print compact ascii 0 payload.sortKeys)

namespace approval_queue

def canonical_hash (sha256 : Bytes → Bytes) (payload : Value) : String :=
  let encoded := utf8.encode (dumps payload)
  "sha256:" ++ hex.encode (sha256 encoded)

/-- Without collisions of the digest, the canonical hash gives the sorted value back. -/
theorem sortKeys_of_canonical_hash {sha256 : Bytes → Bytes} (hsha : Function.Injective sha256)
    {v w : Value} (h : canonical_hash sha256 v = canonical_hash sha256 w) :
    v.sortKeys = w.sortKeys :=
  print_inj _ _ (String.ofList_injective (utf8.encode_inj (audit_hash.sha256_tagged_inj hsha h)))

end approval_queue

namespace audit_chain

def canonical_hash (sha256 : Bytes → Bytes) (payload : Value) : String :=
  let encoded := utf8.encode (dumps payload)
  "sha256:" ++ hex.encode (sha256 encoded)

end audit_chain

end shell_core
