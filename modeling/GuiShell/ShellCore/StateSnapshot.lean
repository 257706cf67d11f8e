-- The snapshot of a runtime state (state_snapshot.py). It shows the records by their ids, so
-- that the order in which they were registered leaves no trace.
import GuiShell.ShellCore.CanonicalHash
import GuiShell.ShellCore.RuntimeState

open json sorted_map shell_core.normalization shell_core.schema_validation

namespace shell_core

namespace state_snapshot

/-- `values[item].get(key_name, item)`, where the records of a state have their own ids. -/
def sortKey (key_name : String) (entry : String × Value) : String :=
  ((entry.2.get key_name).bind Value.as_str).getD entry.1

def sorted_values (values : List (String × Value)) (key_name : String) : List Value :=
  (values.mergeSort fun a b => sortKey key_name a ≤ sortKey key_name b).map Prod.snd

/-- `record[field]` for every record. -/
def fieldsOf (field : String) (records : List Value) : Value :=
  .array (records.map fun record => (record.get field).getD .null)

def count (records : List Value) : Value := .number (.int records.length)

/-- The snapshot. The invariant flags do not depend on the state. -/
def create_state_snapshot (invariant_flags : Value) (state : RuntimeState) : Value :=
  let audit_events := sorted_values state.audit_events.entries "event_id"
  let recovery_actions := sorted_values state.recovery_actions.entries "recovery_id"
  let update_policies := sorted_values state.update_policies.entries "policy_id"
  .object [
    ("runtimes", .array (sorted_values state.runtimes.entries "runtime_id")),
    ("adapters", .array (sorted_values state.adapters.entries "adapter_id")),
    ("permissions", .array (sorted_values state.permissions.entries "permission_id")),
    ("pending_approvals", .array state.pending_approvals),
    ("audit_summary", .object [
      ("event_count", count audit_events),
      ("event_ids", fieldsOf "event_id" audit_events),
      ("latest_event_hash",
        (audit_events.getLast?.bind fun event => event.get "event_hash").getD .null)]),
    ("recovery_catalog_summary", .object [
      ("action_count", count recovery_actions),
      ("recovery_ids", fieldsOf "recovery_id" recovery_actions)]),
    ("update_policy_summary", .object [
      ("policy_count", count update_policies),
      ("policy_ids", fieldsOf "policy_id" update_policies),
      ("signature_required", .bool (update_policies.all fun policy =>
        policy.get "signature_required" = some (.bool true)))]),
    ("invariant_flags", invariant_flags)]

def deterministic_snapshot_json (invariant_flags : Value) (state : RuntimeState) : String :=
  dumps (create_state_snapshot invariant_flags state)

/-! ## The order of the entries does not count -/

/-- Entries that stand under their own ids are shown by these. -/
theorem sorted_values_eq {values : List (String × Value)} {key_name : String}
    (hnodup : (values.map Prod.fst).Nodup)
    (hown : ∀ e ∈ values, e.2.get key_name = some (.string e.1)) :
    sorted_values values key_name = (ofList values).map Prod.snd := by
  have hkey : ∀ e ∈ values, sortKey key_name e = e.1 := by
    intro e he
    rw [sortKey, hown e he]
    rfl
  unfold sorted_values
  generalize hle : (fun a b => decide (sortKey key_name a ≤ sortKey key_name b)) = le
  have hperm := List.mergeSort_perm values le
  have hordered : (values.mergeSort le).Pairwise fun a b => le a b = true := by
    apply List.pairwise_mergeSort
    · intro a b c hab hbc
      subst hle
      simp only [decide_eq_true_eq] at hab hbc ⊢
      exact le_trans hab hbc
    · intro a b
      subst hle
      simpa using le_total _ _
  have hdistinct : ((values.mergeSort le).map Prod.fst).Nodup :=
    (hperm.map Prod.fst).nodup_iff.mpr hnodup
  have hsorted : Sorted (values.mergeSort le) := by
    refine (hordered.and (List.pairwise_map.mp hdistinct)).imp_of_mem fun {a b} ha hb h => ?_
    obtain ⟨hab, hne⟩ := h
    subst hle
    simp only [decide_eq_true_eq] at hab
    rw [hkey a (hperm.subset ha), hkey b (hperm.subset hb)] at hab
    exact lt_of_le_of_ne hab hne
  rw [ofList_eq_of_perm hsorted hperm.symm]

/-- Both lists have the same entries, with one for each key. -/
theorem ofList_eq_of_perm_of_nodup {l m : List (String × Value)} (hl : (l.map Prod.fst).Nodup)
    (h : l.Perm m) : ofList l = ofList m :=
  ofList_eq_of_perm (sorted_ofList m)
    (h.trans (perm_ofList ((h.map Prod.fst).nodup_iff.mp hl)).symm)

/-! ## The records of a state -/

inductive Kind where
  | runtime | adapter | capability | permission | approval | audit_event | recovery_action
  | update_policy
  deriving DecidableEq

def Kind.id_field : Kind → String
  | .runtime => "runtime_id"
  | .adapter => "adapter_id"
  | .capability => "capability_id"
  | .permission => "permission_id"
  | .approval => "approval_id"
  | .audit_event => "event_id"
  | .recovery_action => "recovery_id"
  | .update_policy => "policy_id"

def entries (state : RuntimeState) : Kind → List (String × Value)
  | .runtime => state.runtimes.entries
  | .adapter => state.adapters.entries
  | .capability => state.capabilities.entries
  | .permission => state.permissions.entries
  | .approval => state.approvals.entries
  | .audit_event => state.audit_events.entries
  | .recovery_action => state.recovery_actions.entries
  | .update_policy => state.update_policies.entries

theorem nodup_entries (state : RuntimeState) (kind : Kind) :
    ((entries state kind).map Prod.fst).Nodup := by
  cases kind
  · exact state.runtimes.nodup
  · exact state.adapters.nodup
  · exact state.capabilities.nodup
  · exact state.permissions.nodup
  · exact state.approvals.nodup
  · exact state.audit_events.nodup
  · exact state.recovery_actions.nodup
  · exact state.update_policies.nodup

theorem own_id (state : RuntimeState) (kind : Kind) {e : String × Value}
    (he : e ∈ entries state kind) : e.2.get kind.id_field = some (.string e.1) := by
  cases kind
  · exact (state.runtimes.valid e he).2
  · exact state.adapters.own_id e he
  · exact (state.capabilities.valid e he).2
  · exact (state.permissions.valid e he).2
  · exact (state.approvals.valid e he).2
  · exact (state.audit_events.valid e he).2
  · exact (state.recovery_actions.valid e he).2
  · exact (state.update_policies.valid e he).2

/-- The states have the same records, in whatever order. -/
def SameRecords (s t : RuntimeState) : Prop := ∀ kind, (entries s kind).Perm (entries t kind)

theorem SameRecords.sorted_values_eq {s t : RuntimeState} (h : SameRecords s t) (kind : Kind) :
    sorted_values (entries s kind) kind.id_field = sorted_values (entries t kind) kind.id_field := by
  rw [state_snapshot.sorted_values_eq (nodup_entries s kind) fun _ he => own_id s kind he,
    state_snapshot.sorted_values_eq (nodup_entries t kind) fun _ he => own_id t kind he,
    ofList_eq_of_perm_of_nodup (nodup_entries s kind) (h kind)]

/-- The snapshot does not depend on the order. -/
theorem SameRecords.snapshot_eq {s t : RuntimeState} (h : SameRecords s t)
    (invariant_flags : Value) :
    create_state_snapshot invariant_flags s = create_state_snapshot invariant_flags t := by
  have happrovals : s.pending_approvals = t.pending_approvals := by
    unfold RuntimeState.pending_approvals
    have := ofList_eq_of_perm_of_nodup (nodup_entries s .approval) (h .approval)
    unfold entries at this
    rw [this]
  have hruntimes := h.sorted_values_eq .runtime
  have hadapters := h.sorted_values_eq .adapter
  have hpermissions := h.sorted_values_eq .permission
  have haudit_events := h.sorted_values_eq .audit_event
  have hrecovery_actions := h.sorted_values_eq .recovery_action
  have hupdate_policies := h.sorted_values_eq .update_policy
  dsimp only [entries, Kind.id_field] at *
  unfold create_state_snapshot
  rw [happrovals, hruntimes, hadapters, hpermissions, haudit_events, hrecovery_actions,
    hupdate_policies]

/-! ## Registering -/

structure Registration where
  kind : Kind
  record : Value

section register

variable (unicode : Unicode)

def register (state : RuntimeState) (r : Registration) : Option RuntimeState :=
  match r.kind with
  | .runtime => state.register_runtime r.record
  | .adapter => state.register_adapter unicode r.record
  | .capability => state.register_capability r.record
  | .permission => state.record_permission r.record
  | .approval => state.enqueue_approval r.record
  | .audit_event => state.append_audit_event r.record
  | .recovery_action => state.register_recovery_action r.record
  | .update_policy => state.register_update_policy r.record

/-- The state that the registrations build, none when one of them raises. -/
def build (registrations : List Registration) : Option RuntimeState :=
  registrations.foldlM (register unicode) .new

/-- What a record is told apart by. -/
def Registration.key (r : Registration) : Kind × Option Value :=
  (r.kind, r.record.get r.kind.id_field)

def Kind.schema : Kind → Contract
  | .runtime => runtime_schema
  | .adapter => adapter_schema
  | .capability => capability_schema
  | .permission => permission_schema
  | .approval => approval_schema
  | .audit_event => audit_schema
  | .recovery_action => recovery_schema
  | .update_policy => update_schema

/-- The value that a state keeps of a record, none when the record is refused. -/
def kept (kind : Kind) (record : Value) : Option Value :=
  if validates record kind.schema = true then
    match kind with
    | .adapter => (load_adapter unicode record).map AdapterRecord.entry
    | _ => some record
  else none

/-- The entry that a registration adds, none when it raises. -/
def Registration.entry (r : Registration) : Option (String × Value) :=
  match (r.record.get r.kind.id_field).bind Value.as_str with
  | some id => (kept unicode r.kind r.record).map fun value => (id, value)
  | none => none

/-- What the registrations add to the records of a kind, in their order. -/
def added (kind : Kind) (l : List Registration) : List (String × Value) :=
  l.filterMap fun r => if r.kind = kind then r.entry unicode else none

variable {unicode}

/-- One record of a kind takes its place, and the records of the other kinds stay. -/
def Puts (s t : RuntimeState) (kind : Kind) (e : String × Value) : Prop :=
  ∀ k, entries t k = if k = kind then dict.setItem e.1 e.2 (entries s k) else entries s k

/-- The kinds that keep their records as they come. -/
theorem puts_of_register {schema : Contract} {id_field : String}
    {records : Records schema id_field} {s : RuntimeState} {kind : Kind}
    {set : Records schema id_field → RuntimeState} {record : Value} {id : String}
    (hvalid : validates record schema = true) (hid : record.get id_field = some (.string id))
    (hrecords : entries s kind = records.entries)
    (hset : ∀ new k, entries (set new) k = if k = kind then new.entries else entries s k) :
    ∃ t, (records.register record).map set = some t ∧ Puts s t kind (id, record) := by
  obtain ⟨new, hnew, hentries⟩ := records.register_of_valid hvalid hid
  refine ⟨set new, by rw [hnew]; rfl, ?_⟩
  intro k
  rw [hset]
  by_cases hk : k = kind
  · subst hk
    rw [if_pos rfl, if_pos rfl, hentries, hrecords]
  · rw [if_neg hk, if_neg hk]

theorem adapter_id_of_load {record : Value} {adapter : AdapterRecord}
    (hload : load_adapter unicode record = some adapter) :
    record.get "adapter_id" = some adapter.adapter_id := by
  unfold load_adapter at hload
  split at hload
  · contradiction
  · obtain ⟨adapter_id, hadapter_id, hload⟩ := Option.bind_eq_some_iff.mp hload
    obtain ⟨runtime_id, -, hload⟩ := Option.bind_eq_some_iff.mp hload
    obtain ⟨contract_version, -, hload⟩ := Option.bind_eq_some_iff.mp hload
    obtain ⟨declared_capabilities, -, hload⟩ := Option.bind_eq_some_iff.mp hload
    dsimp only at hload
    split at hload
    · contradiction
    · cases hload
      exact hadapter_id

theorem puts_of_register_adapter {s : RuntimeState} {record : Value} {id : String}
    {adapter : AdapterRecord} (hvalid : validates record adapter_schema = true)
    (hid : record.get "adapter_id" = some (.string id))
    (hload : load_adapter unicode record = some adapter) :
    ∃ t, s.register_adapter unicode record = some t ∧ Puts s t .adapter (id, adapter.entry) := by
  have hadapter_id := adapter_id_of_load hload
  rw [hid] at hadapter_id
  unfold RuntimeState.register_adapter
  rw [if_pos hvalid]
  split
  · rename_i adapter' hload'
    rw [hload] at hload'
    cases hload'
    split
    · rename_i id' hid'
      rw [hid'] at hadapter_id
      cases hadapter_id
      exact ⟨_, rfl, by intro k; cases k <;> rfl⟩
    · rename_i hno
      exact absurd (Option.some.inj hadapter_id).symm (hno id)
  · rename_i hnone
    rw [hload] at hnone
    contradiction

theorem Registration.get_of_entry {r : Registration} {e : String × Value}
    (h : r.entry unicode = some e) :
    r.record.get r.kind.id_field = some (.string e.1) ∧
      kept unicode r.kind r.record = some e.2 := by
  unfold Registration.entry at h
  split at h
  · rename_i id hid
    obtain ⟨value, hvalue, rfl⟩ := Option.map_eq_some_iff.mp h
    obtain ⟨v, hv, hstr⟩ := Option.bind_eq_some_iff.mp hid
    exact ⟨by rw [hv, Value.as_str_eq_some hstr], hvalue⟩
  · contradiction

/-- A record with an id of its own is registered. -/
theorem register_of_entry {s : RuntimeState} {r : Registration} {e : String × Value}
    (h : r.entry unicode = some e) (hfresh : e.1 ∉ (entries s r.kind).map Prod.fst) :
    ∃ t, register unicode s r = some t ∧ Puts s t r.kind e := by
  obtain ⟨hid, hkept⟩ := Registration.get_of_entry h
  obtain ⟨kind, record⟩ := r
  obtain ⟨id, value⟩ := e
  unfold kept at hkept
  split at hkept
  · rename_i hvalid
    cases kind
    case adapter =>
      obtain ⟨adapter, hload, rfl⟩ := Option.map_eq_some_iff.mp hkept
      exact puts_of_register_adapter hvalid hid hload
    case audit_event =>
      cases hkept
      have hnone : s.audit_events.get id = none := by
        apply get_eq_none
        intro x hx hkey
        exact hfresh (List.mem_map.mpr ⟨x, hx, hkey⟩)
      simp only [register, RuntimeState.append_audit_event]
      dsimp only [Kind.id_field] at hid
      rw [hid]
      simp only [Option.bind_some, Value.as_str, hnone, Option.isSome_none, Bool.false_eq_true,
        if_false]
      exact puts_of_register hvalid hid rfl (by intro new k; cases k <;> rfl)
    all_goals
      cases hkept
      exact puts_of_register hvalid hid rfl (by intro new k; cases k <;> rfl)
  · contradiction

theorem register_adapter_of_refused {s : RuntimeState} {record : Value}
    (h : Registration.entry unicode ⟨.adapter, record⟩ = none) :
    s.register_adapter unicode record = none := by
  unfold RuntimeState.register_adapter
  by_cases hvalid : validates record adapter_schema = true
  · rw [if_pos hvalid]
    split
    · rename_i adapter hload
      split
      · rename_i id hid
        have hget := adapter_id_of_load hload
        have hkept : kept unicode .adapter record = some adapter.entry := by
          rw [kept, if_pos (show validates record Kind.adapter.schema = true from hvalid), hload]
          rfl
        simp [Registration.entry, Kind.id_field, hget, hid, hkept, Value.as_str] at h
      · rfl
    · rfl
  · rw [if_neg hvalid]

/-- A record without an entry raises. -/
theorem register_of_refused {s : RuntimeState} {r : Registration} (h : r.entry unicode = none) :
    register unicode s r = none := by
  obtain ⟨kind, record⟩ := r
  have hrefused (hkept : kept unicode kind record = some record) :
      (record.get kind.id_field).bind Value.as_str = none := by
    unfold Registration.entry at h
    split at h
    · rw [hkept] at h
      contradiction
    · assumption
  cases kind
  case adapter => exact register_adapter_of_refused h
  case audit_event =>
    simp only [register, RuntimeState.append_audit_event]
    split
    · split
      · rfl
      · exact Records.map_register_of_refused fun hvalid => hrefused (if_pos hvalid)
    · rfl
  all_goals exact Records.map_register_of_refused fun hvalid => hrefused (if_pos hvalid)

/-! ### A run of registrations -/

theorem build_of_refused {l : List Registration} {r : Registration} (hr : r ∈ l)
    (h : r.entry unicode = none) (s : RuntimeState) : l.foldlM (register unicode) s = none := by
  induction l generalizing s with
  | nil => simp at hr
  | cons r' l ih =>
    rw [List.foldlM_cons]
    rcases List.mem_cons.mp hr with rfl | hr
    · rw [register_of_refused h]
      rfl
    · cases hstep : register unicode s r' with
      | none => rfl
      | some t => exact ih hr t

theorem key_eq_of_entry {r r' : Registration} {e e' : String × Value}
    (h : r.entry unicode = some e) (h' : r'.entry unicode = some e') (hkind : r.kind = r'.kind)
    (hid : e.1 = e'.1) : r.key = r'.key := by
  unfold Registration.key
  rw [(Registration.get_of_entry h).1, (Registration.get_of_entry h').1, hkind, hid]

/-- The run of registrations: each adds its entry at the end of its kind. -/
theorem run_of_entries {l : List Registration} (hall : ∀ r ∈ l, (r.entry unicode).isSome)
    (hdistinct : (l.map Registration.key).Nodup) {s : RuntimeState}
    (hfresh : ∀ r ∈ l, ∀ e, r.entry unicode = some e →
      e.1 ∉ (entries s r.kind).map Prod.fst) :
    ∃ t, l.foldlM (register unicode) s = some t ∧
      ∀ k, entries t k = entries s k ++ added unicode k l := by
  induction l generalizing s with
  | nil => exact ⟨s, rfl, by intro k; simp [added]⟩
  | cons r l ih =>
    obtain ⟨e, he⟩ := Option.isSome_iff_exists.mp (hall r List.mem_cons_self)
    obtain ⟨t, ht, hputs⟩ := register_of_entry he (hfresh r List.mem_cons_self e he)
    rw [List.map_cons, List.nodup_cons] at hdistinct
    obtain ⟨hkey, hdistinct⟩ := hdistinct
    have hstep : ∀ k, entries t k = if k = r.kind then entries s k ++ [e] else entries s k := by
      intro k
      rw [hputs k]
      by_cases hk : k = r.kind
      · subst hk
        rw [if_pos rfl, if_pos rfl]
        exact dict.setItem_of_notMem (hfresh r List.mem_cons_self e he) e.2
      · rw [if_neg hk, if_neg hk]
    have hfresh' : ∀ r' ∈ l, ∀ e', r'.entry unicode = some e' →
        e'.1 ∉ (entries t r'.kind).map Prod.fst := by
      intro r' hr' e' he' hmem
      have hold := hfresh r' (List.mem_cons_of_mem _ hr') e' he'
      rw [hstep] at hmem
      by_cases hk : r'.kind = r.kind
      · rw [if_pos hk, List.map_append, List.mem_append] at hmem
        rcases hmem with hmem | hmem
        · exact hold hmem
        · have hid : e'.1 = e.1 := by simpa using hmem
          apply hkey
          rw [← key_eq_of_entry he' he hk hid]
          exact List.mem_map_of_mem hr'
      · rw [if_neg hk] at hmem
        exact hold hmem
    obtain ⟨u, hu, hentries⟩ :=
      ih (fun r' hr' => hall r' (List.mem_cons_of_mem _ hr')) hdistinct hfresh'
    refine ⟨u, by rw [List.foldlM_cons, ht]; exact hu, ?_⟩
    intro k
    rw [hentries k, hstep k, added, added, List.filterMap_cons]
    by_cases hk : k = r.kind
    · rw [if_pos hk, if_pos hk.symm, he]
      simp
    · rw [if_neg hk, if_neg (Ne.symm hk)]

end register

/-- Registering the same records in any order and with the kinds in any mixture gives one
snapshot, and a clone has the snapshot of its original. -/
theorem snapshot_order_independent (unicode : Unicode) (invariant_flags : Value)
    {l m : List Registration} (hperm : l.Perm m) (hdistinct : (l.map Registration.key).Nodup) :
    (build unicode l).map (deterministic_snapshot_json invariant_flags) =
        (build unicode m).map (deterministic_snapshot_json invariant_flags) ∧
      ∀ state : RuntimeState, deterministic_snapshot_json invariant_flags state.clone =
        deterministic_snapshot_json invariant_flags state := by
  refine ⟨?_, fun _ => rfl⟩
  by_cases hall : ∀ r ∈ l, (r.entry unicode).isSome
  · have hempty : ∀ r : Registration, ∀ e : String × Value,
        e.1 ∉ (entries RuntimeState.new r.kind).map Prod.fst := by
      intro r e
      cases r.kind <;> exact List.not_mem_nil
    obtain ⟨s, hs, hentries⟩ := run_of_entries hall hdistinct fun r _ e _ => hempty r e
    obtain ⟨t, ht, hentries'⟩ := run_of_entries (l := m)
      (fun r hr => hall r (hperm.mem_iff.mpr hr))
      ((hperm.map Registration.key).nodup_iff.mp hdistinct) fun r _ e _ => hempty r e
    have hsame : SameRecords s t := by
      intro k
      rw [hentries k, hentries' k]
      exact (hperm.filterMap _).append_left _
    unfold build
    rw [hs, ht, Option.map_some, Option.map_some, deterministic_snapshot_json,
      hsame.snapshot_eq invariant_flags]
    rfl
  · obtain ⟨r, hr, hnone⟩ : ∃ r ∈ l, r.entry unicode = none := by simpa using hall
    unfold build
    rw [build_of_refused hr hnone, build_of_refused (hperm.mem_iff.mp hr) hnone]

section records

def runtimeRecord (runtime_id : String) : Value := .object [
  ("runtime_id", .string runtime_id), ("name", .string "Local"), ("kind", .string "agent"),
  ("status", .string "ready"), ("adapter_id", .string "adapter-1")]

def policyRecord : Value := .object [
  ("policy_id", .string "policy-1"), ("channel", .string "stable"), ("auto_update", .bool false),
  ("signature_required", .bool true)]

def firstRecords : List Registration :=
  [⟨.runtime, runtimeRecord "runtime-2"⟩, ⟨.update_policy, policyRecord⟩,
    ⟨.runtime, runtimeRecord "runtime-1"⟩]

theorem snapshot_order_independent_first :
    (build .ascii firstRecords).isSome = true ∧
    (build .ascii firstRecords).map (deterministic_snapshot_json .null) =
        (build .ascii firstRecords.reverse).map (deterministic_snapshot_json .null) ∧
      ∀ state : RuntimeState, deterministic_snapshot_json .null state.clone =
        deterministic_snapshot_json .null state :=
  ⟨by decide +kernel,
    snapshot_order_independent .ascii .null (List.reverse_perm _).symm (by decide +kernel)⟩

end records

end state_snapshot

end shell_core
