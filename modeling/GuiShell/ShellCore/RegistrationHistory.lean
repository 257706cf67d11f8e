-- What a run of registrations leaves in a state (runtime_state.py). A state holds the newest record
-- under each id, but of an audit event the first one, so what the router lets through can be told
-- from the history alone.
import GuiShell.ShellCore.SensitiveActionRouter
import Mathlib.Data.List.Induction

open json authorization shell_core.normalization shell_core.policy_evaluator
  shell_core.state_snapshot

namespace shell_core.registration_history

variable (unicode : Unicode)

/-- The state after a registration, or after the exception that it raises. -/
def after (state : RuntimeState) (r : Registration) : RuntimeState :=
  (register unicode state r).getD state

/-- The state after a history of registrations, refused ones among them. -/
def run (history : List Registration) : RuntimeState := history.foldl (after unicode) .new

/-- The record that a history leaves under an id: the first one of an audit event, and the newest
one of every other kind. -/
def standing (history : List Registration) (kind : Kind) (id : String) : Option Value :=
  let entered := added unicode kind history
  sorted_map.get id (if kind = .audit_event then entered else entered.reverse)

variable {unicode} {state : RuntimeState} {history : List Registration} {r : Registration}
  {kind : Kind} {id : String}

/-! ## One registration -/

theorem after_of_refused (h : r.entry unicode = none) : after unicode state r = state := by
  rw [after, register_of_refused h]
  rfl

/-- An audit event does not take the place of another one. -/
theorem after_of_taken {e : String × Value} (h : r.entry unicode = some e)
    (hkind : r.kind = .audit_event) (htaken : (state.audit_events.get e.1).isSome = true) :
    after unicode state r = state := by
  obtain ⟨hid, -⟩ := Registration.get_of_entry h
  obtain ⟨kind, record⟩ := r
  cases hkind
  dsimp only [Kind.id_field] at hid
  have hregister : register unicode state ⟨.audit_event, record⟩ = none := by
    simp only [register, RuntimeState.append_audit_event]
    rw [hid]
    simp only [Option.bind_some, Value.as_str]
    exact if_pos htaken
  rw [after, hregister]
  rfl

/-- Any other record is put under its id. -/
theorem after_of_entry {e : String × Value} (h : r.entry unicode = some e)
    (hfree : r.kind = .audit_event → state.audit_events.get e.1 = none) :
    Puts state (after unicode state r) r.kind e := by
  obtain ⟨hid, hkept⟩ := Registration.get_of_entry h
  obtain ⟨kind, record⟩ := r
  obtain ⟨id, value⟩ := e
  suffices hputs : ∃ t, register unicode state ⟨kind, record⟩ = some t ∧
      Puts state t kind (id, value) by
    obtain ⟨t, ht, hputs⟩ := hputs
    rw [after, ht]
    exact hputs
  unfold kept at hkept
  split at hkept
  · rename_i hvalid
    cases kind
    case adapter =>
      obtain ⟨adapter, hload, rfl⟩ := Option.map_eq_some_iff.mp hkept
      exact puts_of_register_adapter hvalid hid hload
    case audit_event =>
      cases hkept
      simp only [register, RuntimeState.append_audit_event]
      dsimp only [Kind.id_field] at hid
      rw [hid]
      simp only [Option.bind_some, Value.as_str, hfree rfl, Option.isSome_none,
        Bool.false_eq_true, if_false]
      exact puts_of_register hvalid hid rfl (by intro new k; cases k <;> rfl)
    all_goals
      cases hkept
      exact puts_of_register hvalid hid rfl (by intro new k; cases k <;> rfl)
  · contradiction

/-! ## The whole history -/

theorem run_snoc : run unicode (history ++ [r]) = after unicode (run unicode history) r := by
  rw [run, List.foldl_append]
  rfl

/-- What one more registration adds to the records of a kind. -/
theorem added_snoc : added unicode kind (history ++ [r]) =
    added unicode kind history ++ (if r.kind = kind then r.entry unicode else none).toList := by
  unfold added
  rw [List.filterMap_append]
  congr 1

theorem standing_snoc_of_refused (h : r.entry unicode = none) :
    standing unicode (history ++ [r]) kind id = standing unicode history kind id := by
  unfold standing
  rw [added_snoc, h, ite_self]
  simp

theorem standing_snoc_of_entry {e : String × Value} (h : r.entry unicode = some e) :
    standing unicode (history ++ [r]) kind id =
      if r.kind = kind ∧ e.1 = id ∧ (kind = .audit_event → standing unicode history kind id = none)
      then some e.2 else standing unicode history kind id := by
  unfold standing
  rw [added_snoc, h]
  by_cases hkind : r.kind = kind
  · rw [if_pos hkind]
    by_cases haudit : kind = .audit_event
    · simp only [haudit, if_true, forall_const]
      rw [Option.toList_some, sorted_map.get_append, sorted_map.get_cons, sorted_map.get_nil]
      cases hget : sorted_map.get id (added unicode .audit_event history) with
      | none => by_cases hid : e.1 = id <;> simp [hid, ← haudit, hkind]
      | some v => simp
    · simp only [haudit, if_false, false_implies, and_true]
      rw [List.reverse_append, Option.toList_some, List.reverse_singleton, List.singleton_append,
        sorted_map.get_cons]
      by_cases hid : e.1 = id <;> simp [hid, hkind]
  · simp [hkind]

/-- A state holds what its history leaves. -/
theorem inState_run (history : List Registration) :
    inState (run unicode history) = standing unicode history := by
  induction history using List.reverseRecOn with
  | nil =>
    funext kind id
    cases kind <;> rfl
  | append_singleton history r ih =>
    funext kind id
    have hold : ∀ kind id, inState (run unicode history) kind id =
        standing unicode history kind id := fun kind id => congrFun (congrFun ih kind) id
    rw [run_snoc]
    cases hentry : r.entry unicode with
    | none => rw [after_of_refused hentry, standing_snoc_of_refused hentry, hold]
    | some e =>
      rw [standing_snoc_of_entry hentry]
      by_cases htaken : r.kind = .audit_event ∧
          (inState (run unicode history) .audit_event e.1).isSome = true
      · obtain ⟨haudit, hsome⟩ := htaken
        rw [after_of_taken hentry haudit hsome, hold, if_neg]
        rintro ⟨hkind, hid, hnone⟩
        rw [hold, ← haudit, hkind, hid, hnone (hkind.symm.trans haudit)] at hsome
        simp at hsome
      · have hfree : r.kind = .audit_event →
            inState (run unicode history) .audit_event e.1 = none := by
          intro hkind
          by_contra hsome
          exact htaken ⟨hkind, Option.isSome_iff_ne_none.mpr hsome⟩
        have hputs := after_of_entry hentry hfree
        unfold inState
        rw [hputs kind]
        by_cases hkind : kind = r.kind
        · subst hkind
          rw [if_pos rfl, dict.get_setItem]
          by_cases hid : e.1 = id
          · subst hid
            rw [if_pos rfl, if_pos]
            refine ⟨rfl, rfl, fun haudit => ?_⟩
            rw [← hold, haudit]
            exact hfree haudit
          · rw [if_neg hid, if_neg fun h => hid h.2.1]
            exact hold _ _
        · rw [if_neg hkind, if_neg fun h => hkind h.1.symm]
          exact hold _ _

/-! ## What a history lets through -/

open sensitive_action_router

variable {python : Python} {action : List (String × Value)}

/-- After any history of registrations the router lets through exactly the actions that the
standing records of the history authorize. -/
theorem routes_iff_history_authorizes (unicode : Unicode)
    (hdigest : ∀ m, (python.sha256 m).length = 32) (history : List Registration) :
    Routes python (some (run unicode history)) action ↔
      Grants python (standing unicode history) (.object action) := by
  rw [← inState_run]
  constructor
  · intro h
    obtain ⟨state, hstate, hgrants⟩ := grants_of_routes h
    cases hstate
    exact hgrants
  · exact routes_of_grants hdigest

/-- What the reading of the runtime needs, and one record that is refused. -/
def readingHistory : List Registration := [
  ⟨.runtime, blue_tanuki_adapter.runtimeRecord⟩,
  ⟨.capability, blue_tanuki_adapter.capabilityRecord "runtime.read"⟩,
  ⟨.permission, blue_tanuki_adapter.permissionRecord "runtime.read" "runtime_status"⟩,
  ⟨.permission, .object []⟩,
  ⟨.approval, blue_tanuki_adapter.normalize_approval [("approval_id", .string "approval-1")]⟩,
  ⟨.audit_event, blue_tanuki_adapter.auditRecord "runtime.read"⟩,
  ⟨.recovery_action, blue_tanuki_adapter.recoveryRecord "runtime.read"⟩,
  ⟨.approval, approvedRecord⟩]

theorem routes_iff_history_authorizes_reading :
    Routes blue_tanuki_adapter.plainPython (some (run .ascii readingHistory)) readStatus := by
  apply (routes_iff_history_authorizes .ascii fips.digest_length readingHistory).mpr
  apply grants_readStatus <;> decide +kernel

/-- A permission that is no `allow`, or an approval that is not `approved`. -/
def Withholds (kind : Kind) (record : Value) : Prop :=
  kind = .permission ∧ record.get "decision" ≠ some (.string "allow") ∨
    kind = .approval ∧ record.get "status" ≠ some (.string "approved")

/-- An accepted record stands until another one is accepted under its id. -/
theorem standing_of_last {before later : List Registration} {e : String × Value}
    (hkind : r.kind ≠ .audit_event) (hentry : r.entry unicode = some e)
    (hlast : e.1 ∉ (added unicode r.kind later).map Prod.fst) :
    standing unicode (before ++ r :: later) r.kind e.1 = some e.2 := by
  have hadded : added unicode r.kind (before ++ r :: later) =
      added unicode r.kind before ++ e :: added unicode r.kind later := by
    unfold added
    rw [List.filterMap_append, List.filterMap_cons]
    simp [hentry]
  have hnone : sorted_map.get e.1 (added unicode r.kind later).reverse = none := by
    apply sorted_map.get_eq_none
    intro x hx hkey
    exact hlast (List.mem_map.mpr ⟨x, List.mem_reverse.mp hx, hkey⟩)
  unfold standing
  dsimp only
  rw [hadded, if_neg hkind, List.reverse_append, List.reverse_cons, sorted_map.get_append,
    sorted_map.get_append, hnone, Option.none_or, sorted_map.get_cons_self, Option.some_or]

/-- Once a permission or an approval is withheld, no action that names it is let through until
another record has been accepted under its id. -/
theorem withheld_until_replaced {before later : List Registration} {e : String × Value}
    (hentry : r.entry unicode = some e) (hwithholds : Withholds r.kind e.2)
    (hlast : e.1 ∉ (added unicode r.kind later).map Prod.fst)
    (hnamed : sorted_map.get r.kind.id_field action = some (.string e.1)) :
    ¬Routes python (some (run unicode (before ++ r :: later))) action := by
  intro hroutes
  obtain ⟨state, hstate, q, hnames, hauthorized, -⟩ := grants_of_routes hroutes
  cases hstate
  rw [inState_run] at hauthorized
  have hids := hnames.ids
  simp only [Request.ids, carries_cons, carries_nil_iff, and_true] at hids
  have hkind : r.kind ≠ .audit_event := by
    rcases hwithholds with ⟨hkind, -⟩ | ⟨hkind, -⟩ <;> simp [hkind]
  have hstanding : standing unicode (before ++ r :: later) r.kind e.1 = some e.2 :=
    standing_of_last hkind hentry hlast
  rcases hwithholds with ⟨hkind, hdecision⟩ | ⟨hkind, hstatus⟩
  · rw [hkind] at hstanding hnamed
    have hid := hnamed.symm.trans hids.2.1
    rw [Option.some.injEq, Value.string.injEq] at hid
    rw [hid] at hstanding
    exact hdecision (carries_cons.mp ((found_iff hstanding).mp hauthorized.permission)).1
  · rw [hkind] at hstanding hnamed
    have hid := hnamed.symm.trans hids.2.2
    rw [Option.some.injEq, Value.string.injEq] at hid
    rw [hid] at hstanding
    exact hstatus (carries_cons.mp ((found_iff hstanding).mp hauthorized.approval)).1

/-- The approval of the reading is withdrawn. -/
theorem withheld_until_replaced_reading :
    ¬Routes blue_tanuki_adapter.plainPython (some (run .ascii (readingHistory ++ [⟨.approval,
      blue_tanuki_adapter.normalize_approval [("approval_id", .string "approval-1")]⟩])))
      readStatus :=
  withheld_until_replaced (by decide +kernel : Registration.entry .ascii ⟨.approval,
      blue_tanuki_adapter.normalize_approval [("approval_id", .string "approval-1")]⟩ =
    some ("approval-1",
      blue_tanuki_adapter.normalize_approval [("approval_id", .string "approval-1")]))
    (.inr ⟨rfl, by decide +kernel⟩) (by decide) rfl

end shell_core.registration_history
