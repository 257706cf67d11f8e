-- The workspace of an agent (packages/agent_runtime/contract.py): which paths it opens to the
-- agent, whatever symbolic links stand in the file system.
import GuiShell.PathWalk

open path_walk

namespace agent_runtime.contract

/-! ## Paths -/

/-- A text that can stand for a path. The file operations on any other raise `ValueError`. -/
structure PathText where
  text : String
  noNull : '\x00' ∉ text.toList
  deriving DecidableEq

/-- `Path(text)`. Empty names and `.` are dropped, and `..` stays. -/
def Path (text : PathText) : Route String where
  absolute := text.text.toList.head? = some '/'
  steps := (text.text.toList.splitOn '/').filterMap fun name =>
    if name = [] ∨ name = ['.'] then none
    else if name = ['.', '.'] then some .up
    else some (.into (String.ofList name))

/-- The path that spells out a place. -/
def spelled (place : Location String) : Route String := ⟨true, place.map .into⟩

/-- `place / path` for a relative path, else `path`. -/
def absolutePath (place : Location String) (path : Route String) : Route String :=
  if path.absolute then path else ⟨true, place.map .into ++ path.steps⟩

structure FileSystem where
  links : Links String
  /-- What `resolve` makes of steps that lead around a loop of links, or `none` where it raises.
  This differs between the versions of Python, and what stands at other places matters. -/
  aroundLoop : Location String → List (Step String) → Option (Location String)

/-- `path.resolve()` in the working directory `cwd`, or `none` where it raises. -/
def resolve (files : FileSystem) (cwd : Location String) (path : Route String) :
    Option (Location String) :=
  (destination files.links (path.start cwd) path.steps).or
    (files.aroundLoop (path.start cwd) path.steps)

/-! ## The contract -/

def SECRET_PATH_PARTS : List String := [".env", ".ssh", ".gnupg", "secrets"]

structure AgentWorkspace where
  root_path : PathText
  secret_paths : List PathText
  deriving DecidableEq

structure AgentRuntimeContract where
  root_path : Location String
  secret_paths : List PathText
  resolved_secret_paths : List (Location String)
  deriving DecidableEq

/-- `_resolve_candidate`, whose path is absolute before it is resolved. -/
def resolve_candidate (files : FileSystem) (root_path : Location String)
    (candidate : Route String) : Option (Location String) :=
  resolve files [] (absolutePath root_path candidate)

/-- `AgentRuntimeContract(workspace)` -/
def AgentRuntimeContract.new (files : FileSystem) (cwd : Location String)
    (workspace : AgentWorkspace) : Option AgentRuntimeContract := do
  let root_path ← resolve files cwd (Path workspace.root_path)
  let resolved_secret_paths ← workspace.secret_paths.mapM fun secret =>
    resolve_candidate files root_path (Path secret)
  return ⟨root_path, workspace.secret_paths, resolved_secret_paths⟩

namespace AgentRuntimeContract

variable (contract : AgentRuntimeContract) (files : FileSystem)

def is_secret_path (candidate : Route String) : Option Bool := do
  let path ← resolve_candidate files contract.root_path candidate
  if path.any (· ∈ SECRET_PATH_PARTS) then
    return true
  -- `path == secret or secret in path.parents`
  return contract.resolved_secret_paths.any (·.isPrefixOf path)

def path_allowed (candidate : PathText) : Option Bool := do
  let path ← resolve_candidate files contract.root_path (Path candidate)
  -- `path.relative_to(self.root_path)`
  if contract.root_path.isPrefixOf path then
    return !(← contract.is_secret_path files (spelled path))
  else
    return false

end AgentRuntimeContract

/-! ## What the contract is for -/

/-- A reader that follows all links gets from the text, read at the root, to the place. -/
def Reaches (links : Links String) (root : Location String) (text : PathText)
    (place : Location String) : Prop :=
  Walks links [] (absolutePath root (Path text)).steps place

/-- The text is resolved to the place: to what it reaches, or, where it leads around a loop, to
what is left of it. -/
def ResolvesTo (files : FileSystem) (root : Location String) (text : PathText)
    (place : Location String) : Prop :=
  Reaches files.links root text place ∨ (∀ p, ¬ Reaches files.links root text p) ∧
    files.aroundLoop [] (absolutePath root (Path text)).steps = some place

/-- The places that a workspace opens to its agent. -/
structure Opens (root : Location String) (Secret : Location String → Prop)
    (place : Location String) : Prop where
  inside : root <+: place
  noSecretName : ∀ name ∈ place, name ∉ SECRET_PATH_PARTS
  noSecret : ∀ secret, Secret secret → ¬ secret <+: place

variable {files : FileSystem} {root place : Location String} {text : PathText}

theorem opens_iff {secrets : List (Location String)} :
    Opens root (· ∈ secrets) place ↔ root.isPrefixOf place = true ∧
      (place.any (· ∈ SECRET_PATH_PARTS) || secrets.any (·.isPrefixOf place)) = false := by
  rw [List.isPrefixOf_iff_prefix, Bool.or_eq_false_iff, List.any_eq_false, List.any_eq_false]
  constructor
  · intro h
    exact ⟨h.inside, by simpa using h.noSecretName, by simpa using h.noSecret⟩
  · rintro ⟨hinside, hname, hsecret⟩
    exact ⟨hinside, by simpa using hname, by simpa using hsecret⟩

theorem start_absolutePath (root : Location String) (path : Route String) :
    (absolutePath root path).start [] = [] := by
  unfold Route.start
  split <;> rfl

/-- The code resolves a text to the place that its readers reach. -/
theorem resolve_candidate_of_walks {path : Route String}
    (h : Walks files.links [] (absolutePath root path).steps place) :
    resolve_candidate files root path = some place := by
  rw [resolve_candidate, resolve, start_absolutePath, destination_eq_some_iff.mpr h,
    Option.some_or]

theorem resolve_candidate_eq_some_iff :
    resolve_candidate files root (Path text) = some place ↔ ResolvesTo files root text place := by
  rw [resolve_candidate, resolve, start_absolutePath, Option.or_eq_some_iff,
    destination_eq_some_iff, Option.eq_none_iff_forall_ne_some]
  simp only [ne_eq, destination_eq_some_iff]
  rfl

/-- A place that is reached is resolved to itself. -/
theorem resolve_candidate_spelled (h : Plain files.links place) :
    resolve_candidate files root (spelled place) = some place :=
  resolve_candidate_of_walks (walks_names h)

namespace AgentRuntimeContract

variable {contract : AgentRuntimeContract}

theorem is_secret_path_spelled (h : Plain files.links place) :
    contract.is_secret_path files (spelled place) =
      some (place.any (· ∈ SECRET_PATH_PARTS) ||
        contract.resolved_secret_paths.any (·.isPrefixOf place)) := by
  rw [is_secret_path, resolve_candidate_spelled h]
  simp only [Option.bind_eq_bind, Option.bind_some, Option.pure_def]
  split
  · rename_i hname
    rw [hname, Bool.true_or]
  · rename_i hname
    rw [Bool.eq_false_iff.mpr hname, Bool.false_or]

/-- The place of a text decides about it. -/
theorem path_allowed_of_reaches (h : Reaches files.links contract.root_path text place) :
    ∃ allowed, contract.path_allowed files text = some allowed ∧
      (allowed = true ↔ Opens contract.root_path (· ∈ contract.resolved_secret_paths) place) := by
  have hsecret : contract.is_secret_path files (spelled place) = _ :=
    is_secret_path_spelled (h.plain (plain_nil _))
  rw [opens_iff]
  unfold path_allowed
  simp only [resolve_candidate_of_walks h, Option.bind_eq_bind, Option.bind_some]
  split
  · rename_i hinside
    rw [hsecret]
    exact ⟨_, rfl, by rw [hinside, Bool.not_eq_true']; simp⟩
  · rename_i hinside
    exact ⟨false, rfl, by simp [hinside]⟩

/-! ### The contract of a workspace -/

theorem mem_mapM {f : PathText → Option (Location String)} {secrets : List PathText}
    {places : List (Location String)} (h : secrets.mapM f = some places) (s : Location String) :
    s ∈ places ↔ ∃ secret ∈ secrets, f secret = some s := by
  induction secrets generalizing places with
  | nil =>
    cases h
    simp
  | cons secret secrets ih =>
    rw [List.mapM_cons] at h
    obtain ⟨place, hplace, h⟩ := Option.bind_eq_some_iff.mp h
    obtain ⟨places, hplaces, h⟩ := Option.bind_eq_some_iff.mp h
    cases h
    rw [List.mem_cons, ih hplaces]
    simp only [List.mem_cons, exists_eq_or_imp, hplace, Option.some_inj]
    rw [eq_comm]

/-- A contract holds the places that the workspace named when it was made. -/
theorem mem_resolved_secret_paths {cwd : Location String} {workspace : AgentWorkspace}
    (h : new files cwd workspace = some contract) (s : Location String) :
    s ∈ contract.resolved_secret_paths ↔
      ∃ secret ∈ workspace.secret_paths, ResolvesTo files contract.root_path secret s := by
  obtain ⟨root, -, h⟩ := Option.bind_eq_some_iff.mp h
  obtain ⟨places, hplaces, h⟩ := Option.bind_eq_some_iff.mp h
  cases h
  rw [mem_mapM hplaces]
  exact exists_congr fun secret => and_congr_right fun _ => resolve_candidate_eq_some_iff

/-- The contract decides about the place that a text leads to, however it is spelled and
whatever links stand on the way, also when the links have changed since it was made. -/
theorem path_allowed_iff {files₀ : FileSystem} {cwd : Location String}
    {workspace : AgentWorkspace} (hnew : new files₀ cwd workspace = some contract)
    (files : FileSystem) (candidate : PathText) (place : Location String)
    (h : Reaches files.links contract.root_path candidate place) :
    Plain files.links place ∧ ∃ allowed, contract.path_allowed files candidate = some allowed ∧
      (allowed = true ↔ Opens contract.root_path (fun s => ∃ secret ∈ workspace.secret_paths,
        ResolvesTo files₀ contract.root_path secret s) place) := by
  have hsecrets : (fun s => ∃ secret ∈ workspace.secret_paths,
      ResolvesTo files₀ contract.root_path secret s) = (· ∈ contract.resolved_secret_paths) :=
    funext fun s => propext (mem_resolved_secret_paths hnew s).symm
  rw [hsecrets]
  exact ⟨h.plain (plain_nil _), path_allowed_of_reaches h⟩

theorem noNull_root : '\x00' ∉ "/w".toList := by decide
theorem noNull_env : '\x00' ∉ ".env".toList := by decide
theorem noNull_keys : '\x00' ∉ "keys/".toList := by decide
theorem noNull_link : '\x00' ∉ "pub/l".toList := by decide

/-- A link in the workspace to its secret file. -/
def linkToSecret : FileSystem where
  links := [(["w", "pub", "l"], ⟨false, [.up, .into ".env"]⟩)]
  aroundLoop _ _ := none

def workspace : AgentWorkspace :=
  ⟨⟨"/w", noNull_root⟩, [⟨".env", noNull_env⟩, ⟨"keys/", noNull_keys⟩]⟩

theorem reaches_secret :
    Reaches linkToSecret.links ["w"] ⟨"pub/l", noNull_link⟩ ["w", ".env"] :=
  destination_eq_some_iff.mp (by decide)

/-- The link leads to a place that the workspace does not open. -/
theorem link_to_secret_denied : Plain linkToSecret.links ["w", ".env"] ∧
    ∃ allowed, path_allowed ⟨["w"], workspace.secret_paths, [["w", ".env"], ["w", "keys"]]⟩
        linkToSecret ⟨"pub/l", noNull_link⟩ = some allowed ∧
      (allowed = true ↔ Opens ["w"] (fun s => ∃ secret ∈ workspace.secret_paths,
        ResolvesTo linkToSecret ["w"] secret s) ["w", ".env"]) :=
  have hnew : new linkToSecret [] workspace =
      some ⟨["w"], workspace.secret_paths, [["w", ".env"], ["w", "keys"]]⟩ := by decide
  path_allowed_iff hnew linkToSecret _ _ reaches_secret

end AgentRuntimeContract

end agent_runtime.contract
