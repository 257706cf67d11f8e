-- The release gate (release_gate_check.py): the check of the blocker registry, and the filter
-- that lists the blockers which still stand. The two passes read the same JSON on their own.
import GuiShell.ShellCore.PythonValues

open json shell_core

namespace release_gate_check

def WINDOWS_EVIDENCE_STATUS_SOURCE : String := "windows_release_evidence"

/-- What `json.loads` makes of the registry file. -/
inductive RegistryFile where
  | missing
  | invalid (exc : String)
  | read (registry : Value)

structure EvidenceResult where
  name : String
  status : String
  classification : String
  blocks_release : String
  reason : String
  required_action : String
  deriving DecidableEq

/-! ## The check of the registry -/

section check

variable (floats : Floats) (str : Value → String)

def required_fields : List String := ["active", "blocks_release", "classification", "name",
  "reason", "required_action", "status", "status_source"]

def errorUnless (check : Bool) (error : String) : List String := if check then [] else [error]

/-- A string that is not empty. -/
def isText : Value → Bool
  | .string s => s ≠ ""
  | _ => false

/-- `str` of a value, which a string keeps as it is. -/
def textOf : Value → String
  | .string s => s
  | v => str v

/-- `name or index`, as an error shows it. -/
def label (index : Nat) (blocker : Value) : String :=
  if truthy (getOrNone blocker "name") then textOf str (getOrNone blocker "name")
  else Nat.repr index

def missingErrors (index : Nat) (blocker : Value) : List String :=
  let missing := required_fields.filter fun field => (blocker.get field).isNone
  errorUnless (missing = []) ("リリース阻止事項の登録項目 " ++ Nat.repr index ++ " にfieldがない: " ++
    ", ".intercalate missing)

/-- The names seen then, and the error about this one. -/
def nameErrors (index : Nat) (names : List String) (blocker : Value) :
    List String × List String :=
  match getOrNone blocker "name" with
  | .string name =>
    if name = "" then
      (names, ["リリース阻止事項の登録項目 " ++ Nat.repr index ++ " のnameが無効"])
    else if name ∈ names then (names, ["release blocker nameが重複: " ++ name])
    else (name :: names, [])
  | _ => (names, ["リリース阻止事項の登録項目 " ++ Nat.repr index ++ " のnameが無効"])

/-- The errors of the other fields. A status that cannot stand in a set raises. -/
def fieldErrors (index : Nat) (blocker : Value) : Option (List String) :=
  let error (message : String) := "release blocker " ++ label str index blocker ++ message
  let active := getOrNone blocker "active"
  let status := getOrNone blocker "status"
  let status_source := getOrNone blocker "status_source"
  if hashable status && hashable status_source then some (
    errorUnless (getOrNone blocker "classification" = .string "release_blocker")
      (error "はrelease_blockerに分類しなければならない") ++
    errorUnless (getOrNone blocker "blocks_release" = .bool true)
      (error "はblocks_release=trueを設定しなければならない") ++
    errorUnless (eq floats active (.bool true) || eq floats active (.bool false))
      (error "のactiveはbooleanでなければならない") ++
    errorUnless (status = .string "unresolved" || status = .string "resolved")
      (error "のstatusはunresolvedまたはresolvedでなければならない") ++
    errorUnless
      (status_source = .string "manual" ||
        status_source = .string WINDOWS_EVIDENCE_STATUS_SOURCE)
      (error ("のstatus_sourceはmanualまたは" ++ WINDOWS_EVIDENCE_STATUS_SOURCE ++
        "でなければならない")) ++
    errorUnless
      (status_source ≠ .string WINDOWS_EVIDENCE_STATUS_SOURCE ||
        isText (getOrNone blocker "evidence_result"))
      (error ("に" ++ WINDOWS_EVIDENCE_STATUS_SOURCE ++ "用evidence_resultがない")) ++
    errorUnless (isText (getOrNone blocker "reason")) (error "にreasonがない") ++
    errorUnless (isText (getOrNone blocker "required_action")) (error "にrequired_actionがない"))
  else none

def blockerErrors (index : Nat) (names : List String) (blocker : Value) :
    Option (List String × List String) :=
  match blocker with
  | .object fields =>
    let (names, errors) := nameErrors index names (.object fields)
    (fieldErrors floats str index (.object fields)).map fun rest =>
      (names, missingErrors index (.object fields) ++ errors ++ rest)
  | _ => some (names, ["リリース阻止事項の登録項目 " ++ Nat.repr index ++ " がobjectではない"])

def blockersErrors (index : Nat) (names : List String) : List Value → Option (List String)
  | [] => some []
  | blocker :: blockers => do
    let (names, errors) ← blockerErrors floats str index names blocker
    let rest ← blockersErrors (index + 1) names blockers
    some (errors ++ rest)

/-- The errors, or none when the check raises. -/
def registry_errors : RegistryFile → Option (List String)
  | .missing => some ["release blocker registryがない"]
  | .invalid exc => some ["release blocker registryが無効なJSON: " ++ exc]
  | .read (.object registry) =>
    match getOrNone (.object registry) "blockers" with
    | .array blockers => blockersErrors floats str 0 [] blockers
    | _ => some ["release blocker registryはblockers listを含まなければならない"]
  | .read _ => some ["release blocker registryはobjectでなければならない"]

end check

/-! ## The filter -/

section filter

variable (str : Value → String)

/-- The fields with these items set, one after the other. -/
def update (blocker items : List (String × Value)) : List (String × Value) :=
  items.foldl (fun d e => dict.setItem e.1 e.2 d) blocker

/-- A copy of the blocker with the status that it has in the end. -/
def effective_release_blocker (blocker : List (String × Value))
    (windows_results : List (String × EvidenceResult)) : List (String × Value) :=
  if getOrNone (.object blocker) "status_source" ≠ .string WINDOWS_EVIDENCE_STATUS_SOURCE then
    update blocker [("effective_status_source",
      ((Value.object blocker).get "status_source").getD (.string "manual"))]
  else
    let evidence_result := getOrNone (.object blocker) "evidence_result"
    let name := getOrNone (.object blocker) "name"
    let evidence_result_name :=
      if truthy evidence_result then textOf str evidence_result
      else if truthy name then textOf str name
      else ""
    let effective (status reason required_action : String) := update blocker [
      ("effective_status_source", .string WINDOWS_EVIDENCE_STATUS_SOURCE),
      ("status", .string status),
      ("reason", .string reason),
      ("required_action", .string required_action)]
    match sorted_map.get evidence_result_name windows_results with
    | none => effective "unresolved" ("Windows evidence resultがない: " ++ evidence_result_name)
        ("tooling/windows_release_evidence.pyを実行し、registryのevidence_result " ++
          "nameを同期させる。")
    | some result =>
      if result.status = "passed" && result.classification ≠ "release_blocker" then
        effective "resolved" ("Windows evidenceにより解決: " ++ result.reason)
          result.required_action
      else effective "unresolved" result.reason result.required_action

/-- The results by their names, if a blocker asks for them. Of two results with one name the
later one counts. -/
def windows_evidence_results_by_name (evidence : List EvidenceResult) (blockers : List Value) :
    List (String × EvidenceResult) :=
  if blockers.any fun blocker =>
      getOrNone blocker "status_source" = .string WINDOWS_EVIDENCE_STATUS_SOURCE then
    dict.ofItems (evidence.map fun result => (result.name, result))
  else []

def stands (effective : List (String × Value)) : Bool :=
  getOrNone (.object effective) "active" = .bool true &&
    getOrNone (.object effective) "status" = .string "unresolved" &&
    getOrNone (.object effective) "classification" = .string "release_blocker" &&
    getOrNone (.object effective) "blocks_release" = .bool true

/-- The blockers that stand, each in its effective form. -/
def standing (windows_results : List (String × EvidenceResult)) (blockers : List Value) :
    List (List (String × Value)) :=
  blockers.filterMap fun blocker =>
    match blocker with
    | .object fields =>
      let effective := effective_release_blocker str fields windows_results
      if stands effective then some effective else none
    | _ => none

/-- The items that a `for` goes over, none when the value has none. Only a list can hold a
dict. -/
def iterated : Value → Option (List Value)
  | .array items => some items
  | .object _ | .string _ => some []
  | _ => none

/-- None when the code raises. -/
def unresolved_active_blockers (file : RegistryFile) (evidence : List EvidenceResult) :
    Option (List (List (String × Value))) :=
  match file with
  | .read (.object registry) =>
    (iterated (((Value.object registry).get "blockers").getD (.array []))).map fun blockers =>
      standing str (windows_evidence_results_by_name evidence blockers) blockers
  | _ => none

end filter

/-! ## What the check accepts -/

section accepted

variable {floats : Floats} {str : Value → String}

theorem errorUnless_eq_nil {check : Bool} {error : String} :
    errorUnless check error = [] ↔ check = true := by
  cases check <;> simp [errorUnless]

theorem isText_iff {v : Value} : isText v = true ↔ ∃ s, v = .string s ∧ s ≠ "" := by
  cases v <;> simp [isText]

/-- A blocker without an error. -/
structure Accepted (floats : Floats) (blocker : List (String × Value)) : Prop where
  classification : getOrNone (.object blocker) "classification" = .string "release_blocker"
  blocks_release : getOrNone (.object blocker) "blocks_release" = .bool true
  active : eq floats (getOrNone (.object blocker) "active") (.bool true) = true ∨
    eq floats (getOrNone (.object blocker) "active") (.bool false) = true
  status : getOrNone (.object blocker) "status" = .string "unresolved" ∨
    getOrNone (.object blocker) "status" = .string "resolved"
  status_source : getOrNone (.object blocker) "status_source" = .string "manual" ∨
    getOrNone (.object blocker) "status_source" = .string WINDOWS_EVIDENCE_STATUS_SOURCE
  evidence_result :
    getOrNone (.object blocker) "status_source" = .string WINDOWS_EVIDENCE_STATUS_SOURCE →
      ∃ s, getOrNone (.object blocker) "evidence_result" = .string s ∧ s ≠ ""

theorem accepted_of_fieldErrors {index : Nat} {blocker : List (String × Value)}
    (h : fieldErrors floats str index (.object blocker) = some []) : Accepted floats blocker := by
  unfold fieldErrors at h
  dsimp only at h
  split at h
  · simp only [Option.some.injEq, List.append_eq_nil_iff, errorUnless_eq_nil, Bool.or_eq_true,
      decide_eq_true_eq] at h
    obtain ⟨⟨⟨⟨⟨⟨⟨hclass, hblocks⟩, hactive⟩, hstatus⟩, hsource⟩, hevidence⟩, -⟩, -⟩ := h
    refine ⟨hclass, hblocks, hactive, hstatus, hsource, ?_⟩
    intro hwindows
    rcases hevidence with hne | htext
    · exact absurd hwindows hne
    · exact isText_iff.mp htext
  · contradiction

/-- With no error at all, each item of the list is an accepted blocker. -/
theorem accepted_of_blockersErrors {blockers : List Value} {index : Nat} {names : List String}
    (h : blockersErrors floats str index names blockers = some []) :
    ∀ blocker ∈ blockers, ∃ fields, blocker = .object fields ∧ Accepted floats fields := by
  induction blockers generalizing index names with
  | nil => simp
  | cons blocker blockers ih =>
    rw [blockersErrors] at h
    obtain ⟨⟨names', errors⟩, hblocker, h⟩ := Option.bind_eq_some_iff.mp h
    obtain ⟨rest, hrest, h⟩ := Option.bind_eq_some_iff.mp h
    obtain ⟨rfl, rfl⟩ := List.append_eq_nil_iff.mp (Option.some.inj h)
    intro b hb
    rcases List.mem_cons.mp hb with rfl | hb
    · cases b with
      | object fields =>
        obtain ⟨rest, hfields, heq⟩ := Option.map_eq_some_iff.mp hblocker
        have hnil := (List.append_eq_nil_iff.mp (Prod.mk.inj heq).2).2
        rw [hnil] at hfields
        exact ⟨fields, rfl, accepted_of_fieldErrors hfields⟩
      | null | bool _ | number _ | string _ | array _ => simp [blockerErrors] at hblocker
    · exact ih hrest b hb

theorem blockers_of_registry_errors {registry : Value}
    (h : registry_errors floats str (.read registry) = some []) :
    ∃ fields blockers, registry = .object fields ∧
      registry.get "blockers" = some (.array blockers) ∧
      blockersErrors floats str 0 [] blockers = some [] := by
  cases registry with
  | object fields =>
    rw [registry_errors] at h
    split at h
    · rename_i blockers hblockers
      unfold getOrNone at hblockers
      cases hget : (Value.object fields).get "blockers" with
      | none =>
        rw [hget] at hblockers
        contradiction
      | some v =>
        rw [hget] at hblockers
        exact ⟨fields, blockers, rfl, congrArg some hblockers, h⟩
    · simp at h
  | null | bool _ | number _ | string _ | array _ => simp [registry_errors] at h

end accepted

/-! ## The effective blocker -/

section effective

variable {str : Value → String}

theorem get_update (blocker items : List (String × Value)) (k : String) :
    (Value.object (update blocker items)).get k =
      (sorted_map.get k items.reverse).or ((Value.object blocker).get k) :=
  dict.get_foldl_setItem k items blocker

/-- The effective form changes four fields at most. -/
theorem get_effective {blocker : List (String × Value)}
    {windows_results : List (String × EvidenceResult)} {k : String}
    (hk : k ∉ ["effective_status_source", "status", "reason", "required_action"]) :
    getOrNone (.object (effective_release_blocker str blocker windows_results)) k =
      getOrNone (.object blocker) k := by
  simp only [List.mem_cons, List.not_mem_nil, or_false, not_or] at hk
  obtain ⟨h1, h2, h3, h4⟩ := hk
  have hget (items : List (String × Value)) (h : sorted_map.get k items.reverse = none) :
      getOrNone (.object (update blocker items)) k = getOrNone (.object blocker) k := by
    rw [getOrNone, getOrNone, get_update, h, Option.none_or]
  unfold effective_release_blocker
  split
  · exact hget _ (by simp [sorted_map.get_cons, Ne.symm h1])
  · dsimp only
    split
    · exact hget _ (by simp [sorted_map.get_cons, Ne.symm h1, Ne.symm h2, Ne.symm h3, Ne.symm h4])
    · split
      · exact hget _ (by simp [sorted_map.get_cons, Ne.symm h1, Ne.symm h2, Ne.symm h3, Ne.symm h4])
      · exact hget _ (by simp [sorted_map.get_cons, Ne.symm h1, Ne.symm h2, Ne.symm h3, Ne.symm h4])

def EvidenceResult.passed (result : EvidenceResult) : Bool :=
  result.status = "passed" && result.classification ≠ "release_blocker"

theorem status_of_manual {blocker : List (String × Value)}
    {windows_results : List (String × EvidenceResult)}
    (h : getOrNone (.object blocker) "status_source" = .string "manual") :
    getOrNone (.object (effective_release_blocker str blocker windows_results)) "status" =
      getOrNone (.object blocker) "status" := by
  have hne : getOrNone (.object blocker) "status_source" ≠
      .string WINDOWS_EVIDENCE_STATUS_SOURCE := by
    rw [h]
    decide
  unfold effective_release_blocker
  rw [if_pos hne, getOrNone, get_update]
  rfl

theorem status_of_windows {blocker : List (String × Value)} {name : String}
    {windows_results : List (String × EvidenceResult)}
    (h : getOrNone (.object blocker) "status_source" = .string WINDOWS_EVIDENCE_STATUS_SOURCE)
    (hname : getOrNone (.object blocker) "evidence_result" = .string name) (hne : name ≠ "") :
    getOrNone (.object (effective_release_blocker str blocker windows_results)) "status" =
      .string (if (sorted_map.get name windows_results).any EvidenceResult.passed then "resolved"
        else "unresolved") := by
  have htruthy : truthy (Value.string name) = true := by simpa [truthy] using hne
  unfold effective_release_blocker
  rw [if_neg (not_not.mpr h), hname]
  simp only [htruthy, if_true, textOf]
  cases hget : sorted_map.get name windows_results with
  | none =>
    simp only [getOrNone, get_update]
    rfl
  | some result =>
    simp only [Option.any_some]
    by_cases hpassed : result.passed = true
    · rw [if_pos hpassed]
      unfold EvidenceResult.passed at hpassed
      simp only [if_pos hpassed, getOrNone, get_update]
      rfl
    · rw [if_neg hpassed]
      unfold EvidenceResult.passed at hpassed
      simp only [if_neg hpassed, getOrNone, get_update]
      rfl

theorem get_map_name (name : String) (l : List EvidenceResult) :
    sorted_map.get name (l.map fun result => (result.name, result)) =
      l.find? fun result => result.name = name := by
  induction l with
  | nil => rfl
  | cons result l ih =>
    rw [List.map_cons, sorted_map.get_cons, List.find?_cons, ih]
    by_cases h : result.name = name <;> simp [h]

/-- The result that counts for a name is the last one with it. -/
theorem get_windows_results {evidence : List EvidenceResult} {blockers : List Value}
    {blocker : Value} (hmem : blocker ∈ blockers)
    (h : getOrNone blocker "status_source" = .string WINDOWS_EVIDENCE_STATUS_SOURCE)
    (name : String) :
    sorted_map.get name (windows_evidence_results_by_name evidence blockers) =
      evidence.reverse.find? fun result => result.name = name := by
  have hany : (blockers.any fun blocker =>
      getOrNone blocker "status_source" = .string WINDOWS_EVIDENCE_STATUS_SOURCE) = true :=
    List.any_eq_true.mpr ⟨blocker, hmem, by simpa using h⟩
  unfold windows_evidence_results_by_name
  rw [if_pos hany, dict.get_ofItems, ← List.map_reverse, get_map_name]

/-- The blocker is resolved: by hand, or by the last evidence result with its name. -/
def Settled (evidence : List EvidenceResult) (blocker : Value) : Prop :=
  (getOrNone blocker "status_source" = .string "manual" ∧
    getOrNone blocker "status" = .string "resolved") ∨
  (getOrNone blocker "status_source" = .string WINDOWS_EVIDENCE_STATUS_SOURCE ∧
    ∃ name result, getOrNone blocker "evidence_result" = .string name ∧
      (evidence.reverse.find? fun result => result.name = name) = some result ∧
      result.status = "passed" ∧ result.classification ≠ "release_blocker")

theorem passed_iff {result : EvidenceResult} :
    result.passed = true ↔
      result.status = "passed" ∧ result.classification ≠ "release_blocker" := by
  simp [EvidenceResult.passed]

/-- A blocker without an error is effectively unresolved unless it is settled. -/
theorem unresolved_iff {floats : Floats} {evidence : List EvidenceResult} {blockers : List Value}
    {blocker : List (String × Value)} (haccepted : Accepted floats blocker)
    (hmem : .object blocker ∈ blockers) :
    getOrNone (.object (effective_release_blocker str blocker
        (windows_evidence_results_by_name evidence blockers))) "status" = .string "unresolved" ↔
      ¬Settled evidence (.object blocker) := by
  unfold Settled
  rcases haccepted.status_source with hsource | hsource
  · rw [status_of_manual hsource, hsource]
    rcases haccepted.status with hstatus | hstatus <;> rw [hstatus] <;>
      simp [WINDOWS_EVIDENCE_STATUS_SOURCE]
  · obtain ⟨name, hname, hne⟩ := haccepted.evidence_result hsource
    rw [status_of_windows hsource hname hne, get_windows_results hmem hsource, hsource, hname]
    cases hfind : evidence.reverse.find? fun result => result.name = name with
    | none => simp [hfind, WINDOWS_EVIDENCE_STATUS_SOURCE]
    | some result =>
      by_cases hpassed : result.passed = true
      · have := passed_iff.mp hpassed
        simp [hfind, hpassed, this]
      · have : ¬(result.status = "passed" ∧ result.classification ≠ "release_blocker") :=
          fun h => hpassed (passed_iff.mpr h)
        simpa [hfind, hpassed, WINDOWS_EVIDENCE_STATUS_SOURCE] using this

end effective

/-! ## The gate -/

section gate

variable (str : Value → String)

def blockersOf (registry : Value) : List Value :=
  match registry.get "blockers" with
  | some (.array blockers) => blockers
  | _ => []

/-- Every blocker that is not switched off and stands in the end is listed, and the evidence
resolves a blocker only by a result of its own that passed and does not block. -/
def FailsClosed (registry : Value) (evidence : List EvidenceResult) : Prop :=
  ∃ unresolved, unresolved_active_blockers str (.read registry) evidence = some unresolved ∧
    ∀ blocker, .object blocker ∈ blockersOf registry →
      let effective := effective_release_blocker str blocker
        (windows_evidence_results_by_name evidence (blockersOf registry))
      (getOrNone (.object blocker) "active" ≠ .bool false →
        getOrNone (.object effective) "status" = .string "unresolved" →
        effective ∈ unresolved) ∧
      (getOrNone (.object blocker) "status_source" = .string WINDOWS_EVIDENCE_STATUS_SOURCE →
        getOrNone (.object effective) "status" ≠ .string "unresolved" →
        ∃ result ∈ evidence, getOrNone (.object blocker) "evidence_result" = .string result.name ∧
          result.status = "passed" ∧ result.classification ≠ "release_blocker")

variable {str}

/-- Python compares no other value equal to a truth value. -/
theorem bool_or_number_of_eq {floats : Floats} {v : Value} {b : Bool}
    (h : eq floats v (.bool b) = true) : (∃ a, v = .bool a) ∨ ∃ n, v = .number n := by
  cases v with
  | bool a => exact .inl ⟨a, rfl⟩
  | number n => exact .inr ⟨n, rfl⟩
  | null | string _ | array _ | object _ => simp [eq, asNumber] at h

theorem unresolved_active_blockers_eq {registry : Value} {blockers : List Value}
    (hobject : ∃ fields, registry = .object fields)
    (hblockers : registry.get "blockers" = some (.array blockers))
    (evidence : List EvidenceResult) :
    unresolved_active_blockers str (.read registry) evidence =
      some (standing str (windows_evidence_results_by_name evidence blockers) blockers) := by
  obtain ⟨fields, rfl⟩ := hobject
  rw [unresolved_active_blockers, hblockers]
  rfl

theorem mem_standing {windows_results : List (String × EvidenceResult)} {blockers : List Value}
    {effective : List (String × Value)} :
    effective ∈ standing str windows_results blockers ↔
      stands effective = true ∧ ∃ blocker, .object blocker ∈ blockers ∧
        effective_release_blocker str blocker windows_results = effective := by
  unfold standing
  rw [List.mem_filterMap]
  constructor
  · rintro ⟨blocker, hmem, h⟩
    split at h
    · rename_i fields
      dsimp only at h
      split at h
      · rename_i hstands
        cases h
        exact ⟨hstands, fields, hmem, rfl⟩
      · contradiction
    · contradiction
  · rintro ⟨hstands, blocker, hmem, rfl⟩
    exact ⟨.object blocker, hmem, if_pos hstands⟩

/-- A registry that passes the check has a gate that fails closed exactly when each blocker with
a number for its `active` is settled: the check takes 0 and 1 for truth values, and the filter
does not. -/
theorem fails_closed_iff (floats : Floats) (str : Value → String) {registry : Value}
    (evidence : List EvidenceResult)
    (h : registry_errors floats str (.read registry) = some []) :
    FailsClosed str registry evidence ↔
      ∀ blocker ∈ blockersOf registry, ∀ n, getOrNone blocker "active" = .number n →
        Settled evidence blocker := by
  obtain ⟨fields, blockers, hobject, hblockers, herrors⟩ := blockers_of_registry_errors h
  have haccepted := accepted_of_blockersErrors herrors
  have hof : blockersOf registry = blockers := by rw [blockersOf, hblockers]
  unfold FailsClosed
  rw [hof, unresolved_active_blockers_eq ⟨fields, hobject⟩ hblockers]
  constructor
  · rintro ⟨_, hlisted, hall⟩ b hmem n hactive
    cases hlisted
    obtain ⟨blocker, rfl, hblocker⟩ := haccepted b hmem
    by_contra hsettled
    have hlisted := (hall blocker hmem).1 (by rw [hactive]; simp)
      ((unresolved_iff hblocker hmem).mpr hsettled)
    have hstands := (mem_standing.mp hlisted).1
    simp [stands, get_effective, hactive] at hstands
  · intro hall
    refine ⟨_, rfl, fun blocker hmem => ?_⟩
    obtain ⟨_, hfields, hblocker⟩ := haccepted _ hmem
    cases hfields
    constructor
    · intro hactive hunresolved
      have htrue : getOrNone (.object blocker) "active" = .bool true := by
        obtain ⟨b, hb⟩ | ⟨n, hn⟩ := hblocker.active.elim bool_or_number_of_eq bool_or_number_of_eq
        · cases b with
          | false => exact absurd hb hactive
          | true => exact hb
        · exact absurd (hall _ hmem n hn) ((unresolved_iff hblocker hmem).mp hunresolved)
      apply mem_standing.mpr
      refine ⟨?_, blocker, hmem, rfl⟩
      simp [stands, get_effective, htrue, hunresolved, hblocker.classification,
        hblocker.blocks_release]
    · intro hsource hresolved
      have hsettled : Settled evidence (.object blocker) := by
        by_contra hno
        exact hresolved ((unresolved_iff hblocker hmem).mpr hno)
      rcases hsettled with ⟨hmanual, -⟩ | ⟨-, name, result, hname, hfind, hpassed⟩
      · rw [hmanual] at hsource
        exact absurd hsource (by decide)
      · have heq : result.name = name := by simpa using List.find?_some hfind
        refine ⟨result, List.mem_reverse.mp (List.mem_of_find?_eq_some hfind), ?_, hpassed⟩
        rw [hname, heq]

/-- A blocker of the registry with these values. -/
def blockerRecord (name status_source : String) (active : Value) : List (String × Value) := [
  ("name", .string name),
  ("status", .string "unresolved"),
  ("status_source", .string status_source),
  ("evidence_result", .string name),
  ("active", active),
  ("classification", .string "release_blocker"),
  ("blocks_release", .bool true),
  ("reason", .string "evidence is missing"),
  ("required_action", .string "collect the evidence")]

def registryOf (blockers : List (List (String × Value))) : Value :=
  .object [("version", .number (.int 1)), ("blockers", .array (blockers.map .object))]

/-- Two blockers, of which the second one has a number and evidence. -/
def firstRegistry : Value := registryOf [
  blockerRecord "owner_go" "manual" (.bool true),
  blockerRecord "setup_doctor" WINDOWS_EVIDENCE_STATUS_SOURCE (.number (.int 1))]

def firstEvidence : List EvidenceResult :=
  [⟨"setup_doctor", "passed", "none", "no", "passed", "keep the evidence"⟩]

theorem fails_closed_first :
    FailsClosed (fun _ => "") firstRegistry firstEvidence ↔
      ∀ blocker ∈ blockersOf firstRegistry, ∀ n, getOrNone blocker "active" = .number n →
        Settled firstEvidence blocker :=
  fails_closed_iff ⟨some, fun _ => none⟩ (fun _ => "") firstEvidence (by decide +kernel)

/-- The registry of one unresolved blocker with `"active": 1` passes the check, and the gate lists
nothing. -/
theorem numbered_blocker_not_listed :
    let registry := registryOf [blockerRecord "owner_go" "manual" (.number (.int 1))]
    registry_errors ⟨some, fun _ => none⟩ (fun _ => "") (.read registry) = some [] ∧
      unresolved_active_blockers (fun _ => "") (.read registry) [] = some [] ∧
      ¬FailsClosed (fun _ => "") registry [] := by
  intro registry
  have hnone : unresolved_active_blockers (fun _ => "") (.read registry) [] = some [] := by
    decide +kernel
  refine ⟨by decide +kernel, hnone, ?_⟩
  rintro ⟨unresolved, hunresolved, hall⟩
  rw [hnone] at hunresolved
  cases hunresolved
  have hlisted := (hall (blockerRecord "owner_go" "manual" (.number (.int 1)))
    (by decide +kernel)).1 (by decide +kernel) (by decide +kernel)
  exact absurd hlisted List.not_mem_nil

end gate

end release_gate_check
