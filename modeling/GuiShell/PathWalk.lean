-- Trees of names with symbolic links: what a path reaches in them, and the search for the
-- place, which follows each link once.
import Mathlib.Data.List.Basic
import Mathlib.Data.List.Nodup
import Mathlib.Data.List.Infix
import Mathlib.Data.List.Perm.Subperm

namespace path_walk

/-- A place in the tree, by its names from the root on. -/
abbrev Location (ν : Type*) := List ν

inductive Step (ν : Type*) where
  | up
  | into (name : ν)
  deriving DecidableEq

/-- A path as it is written. -/
structure Route (ν : Type*) where
  absolute : Bool
  steps : List (Step ν)
  deriving DecidableEq

/-- The symbolic links, each at its place. What is at another place (a directory, a file or
nothing) does not matter here. -/
abbrev Links (ν : Type*) := List (Location ν × Route ν)

variable {ν : Type*} [DecidableEq ν]

def readlink (links : Links ν) (place : Location ν) : Option (Route ν) := links.lookup place

/-- Where the steps of a route begin, for a reader at `p`. -/
def Route.start (route : Route ν) (p : Location ν) : Location ν := if route.absolute then [] else p

/-! ## What a path reaches -/

section walks

variable (links : Links ν)

/-- The steps lead from the first place to the second one, and every link on the way is
followed. The number is the length of the whole walk, the walks of the links in it. -/
inductive WalksIn : Nat → Location ν → List (Step ν) → Location ν → Prop
  | here (p : Location ν) : WalksIn 0 p [] p
  | up {n : Nat} {p q : Location ν} {steps : List (Step ν)} :
      WalksIn n p.dropLast steps q → WalksIn (n + 1) p (.up :: steps) q
  | into {n : Nat} {p q : Location ν} {name : ν} {steps : List (Step ν)} :
      readlink links (p ++ [name]) = none → WalksIn n (p ++ [name]) steps q →
      WalksIn (n + 1) p (.into name :: steps) q
  | follow {n m : Nat} {p target q : Location ν} {name : ν} {steps : List (Step ν)}
      {route : Route ν} :
      readlink links (p ++ [name]) = some route →
      WalksIn m (route.start p) route.steps target → WalksIn n target steps q →
      WalksIn (m + n + 1) p (.into name :: steps) q

def Walks (p : Location ν) (steps : List (Step ν)) (q : Location ν) : Prop :=
  ∃ n, WalksIn links n p steps q

/-- No link stands at the place or above it. -/
def Plain (q : Location ν) : Prop :=
  ∀ r name, r ++ [name] <+: q → readlink links (r ++ [name]) = none

end walks

variable {links : Links ν} {n m : Nat} {p q : Location ν} {name : ν} {steps : List (Step ν)}

theorem WalksIn.unique {q' : Location ν} (h : WalksIn links n p steps q)
    (h' : WalksIn links m p steps q') : n = m ∧ q = q' := by
  induction h generalizing m q' with
  | here p =>
    cases h'
    exact ⟨rfl, rfl⟩
  | up _ ih =>
    cases h' with
    | up h' =>
      obtain ⟨rfl, rfl⟩ := ih h'
      exact ⟨rfl, rfl⟩
  | into hplain _ ih =>
    cases h' with
    | into _ h' =>
      obtain ⟨rfl, rfl⟩ := ih h'
      exact ⟨rfl, rfl⟩
    | follow hlink => rw [hplain] at hlink; cases hlink
  | follow hlink _ _ ih₁ ih₂ =>
    cases h' with
    | into hplain => rw [hlink] at hplain; cases hplain
    | follow hlink' h₁ h₂ =>
      rw [hlink] at hlink'
      cases hlink'
      obtain ⟨rfl, rfl⟩ := ih₁ h₁
      obtain ⟨rfl, rfl⟩ := ih₂ h₂
      exact ⟨rfl, rfl⟩

theorem Walks.unique {q' : Location ν} (h : Walks links p steps q) (h' : Walks links p steps q') :
    q = q' := by
  obtain ⟨_, h⟩ := h
  obtain ⟨_, h'⟩ := h'
  exact (h.unique h').2

/-! ### Single steps -/

theorem Walks.here (p : Location ν) : Walks links p [] p := ⟨0, .here p⟩

theorem Walks.up (h : Walks links p.dropLast steps q) : Walks links p (.up :: steps) q :=
  h.imp' (· + 1) fun _ => .up

theorem Walks.into (hplain : readlink links (p ++ [name]) = none)
    (h : Walks links (p ++ [name]) steps q) : Walks links p (.into name :: steps) q :=
  h.imp' (· + 1) fun _ => .into hplain

theorem Walks.follow {route : Route ν} {target : Location ν}
    (hlink : readlink links (p ++ [name]) = some route)
    (htarget : Walks links (route.start p) route.steps target) (h : Walks links target steps q) :
    Walks links p (.into name :: steps) q := by
  obtain ⟨m, htarget⟩ := htarget
  obtain ⟨n, h⟩ := h
  exact ⟨m + n + 1, .follow hlink htarget h⟩

/-! ### Places without links -/

theorem plain_nil (links : Links ν) : Plain links [] := by
  intro r name h
  simp at h

theorem Plain.of_prefix {r : Location ν} (h : Plain links q) (hr : r <+: q) : Plain links r :=
  fun r' name hr' => h r' name (hr'.trans hr)

theorem Plain.snoc (h : Plain links p) (hname : readlink links (p ++ [name]) = none) :
    Plain links (p ++ [name]) := by
  intro r name' hr
  rcases List.prefix_concat_iff.mp hr with heq | hprefix
  · rw [heq]
    exact hname
  · exact h r name' hprefix

/-- What a walk reaches is a real place. -/
theorem Walks.plain (h : Walks links p steps q) (hp : Plain links p) : Plain links q := by
  obtain ⟨n, h⟩ := h
  induction h with
  | here => exact hp
  | up _ ih => exact ih (hp.of_prefix (List.dropLast_prefix _))
  | into hname _ ih => exact ih (hp.snoc hname)
  | follow _ _ _ ih₁ ih₂ =>
    apply ih₂
    apply ih₁
    unfold Route.start
    split
    · exact plain_nil links
    · exact hp

/-- A real place is reached by its own names. -/
theorem walks_names (h : Plain links (p ++ q)) : Walks links p (q.map .into) (p ++ q) := by
  induction q generalizing p with
  | nil => simpa using Walks.here p
  | cons name q ih =>
    rw [List.append_cons] at h ⊢
    exact .into (h p name (List.prefix_append _ _)) (ih h)

/-! ## The search for the place -/

/-- The links met so far: one whose walk goes on has no place yet. -/
abbrev Seen (ν : Type*) := List (Location ν × Option (Location ν))

/-- One pass over the steps. The walk of a link that is met for the first time is left to
`expand`; a link that is met again before its own walk ended leads around a loop. -/
def pass (links : Links ν)
    (expand : Location ν → List (Step ν) → Seen ν → Option (Location ν × Seen ν)) :
    Location ν → List (Step ν) → Seen ν → Option (Location ν × Seen ν)
  | p, [], seen => some (p, seen)
  | p, .up :: steps, seen => pass links expand p.dropLast steps seen
  | p, .into name :: steps, seen =>
    match readlink links (p ++ [name]) with
    | none => pass links expand (p ++ [name]) steps seen
    | some route =>
      match seen.lookup (p ++ [name]) with
      | some (some target) => pass links expand target steps seen
      | some none => none
      | none => do
        let (target, seen) ← expand (route.start p) route.steps ((p ++ [name], none) :: seen)
        pass links expand target steps ((p ++ [name], some target) :: seen)

/-- The search with at most `depth` links inside each other. -/
def search (links : Links ν) :
    Nat → Location ν → List (Step ν) → Seen ν → Option (Location ν × Seen ν)
  | 0 => pass links fun _ _ _ => none
  | depth + 1 => pass links (search links depth)

/-- The place that the steps lead to, if they lead around no loop. -/
def destination (links : Links ν) (p : Location ν) (steps : List (Step ν)) : Option (Location ν) :=
  (search links links.length p steps []).map Prod.fst

section search

variable {depth : Nat} {seen seen' : Seen ν} {route : Route ν} {target : Location ν}

@[simp] theorem search_nil : search links depth p [] seen = some (p, seen) := by
  cases depth <;> rfl

@[simp] theorem search_up :
    search links depth p (.up :: steps) seen = search links depth p.dropLast steps seen := by
  cases depth <;> rfl

theorem search_into (h : readlink links (p ++ [name]) = none) :
    search links depth p (.into name :: steps) seen =
      search links depth (p ++ [name]) steps seen := by
  cases depth <;> simp [search, pass, h]

theorem search_known (hlink : readlink links (p ++ [name]) = some route)
    (h : seen.lookup (p ++ [name]) = some (some target)) :
    search links depth p (.into name :: steps) seen = search links depth target steps seen := by
  cases depth <;> simp [search, pass, hlink, h]

theorem search_new (hlink : readlink links (p ++ [name]) = some route)
    (h : seen.lookup (p ++ [name]) = none) :
    search links (depth + 1) p (.into name :: steps) seen =
      (search links depth (route.start p) route.steps ((p ++ [name], none) :: seen)).bind fun r =>
        search links (depth + 1) r.1 steps ((p ++ [name], some r.1) :: r.2) := by
  simp [search, pass, hlink, h]

/-- Each place that is noted for a link is the end of the link's walk. -/
def Known (links : Links ν) (seen : Seen ν) : Prop :=
  ∀ p name target, seen.lookup (p ++ [name]) = some (some target) →
    ∃ route, readlink links (p ++ [name]) = some route ∧
      Walks links (route.start p) route.steps target

theorem Known.nil (links : Links ν) : Known links [] := fun _ _ _ h => by simp at h

theorem Known.pending (h : Known links seen) (place : Location ν) :
    Known links ((place, none) :: seen) := by
  intro p name target hlookup
  rw [List.lookup_cons] at hlookup
  split at hlookup
  · cases hlookup
  · exact h p name target hlookup

theorem Known.note (h : Known links seen) (hlink : readlink links (p ++ [name]) = some route)
    (htarget : Walks links (route.start p) route.steps target) :
    Known links ((p ++ [name], some target) :: seen) := by
  intro p' name' target' hlookup
  rw [List.lookup_cons] at hlookup
  split at hlookup
  · rename_i heq
    obtain ⟨rfl, hname⟩ := List.append_inj' (beq_iff_eq.mp heq) rfl
    cases hname
    cases hlookup
    exact ⟨route, hlink, htarget⟩
  · exact h p' name' target' hlookup

theorem Known.walks (h : Known links seen) (hlink : readlink links (p ++ [name]) = some route)
    (hlookup : seen.lookup (p ++ [name]) = some (some target)) :
    Walks links (route.start p) route.steps target := by
  obtain ⟨route', hlink', hwalk⟩ := h p name target hlookup
  rw [hlink] at hlink'
  cases hlink'
  exact hwalk

/-- What a pass gives is a walk, when the walks of the links that it meets are. -/
theorem walks_of_pass
    {expand : Location ν → List (Step ν) → Seen ν → Option (Location ν × Seen ν)}
    (hexpand : ∀ p steps seen q seen', expand p steps seen = some (q, seen') →
      Known links seen → Walks links p steps q ∧ Known links seen')
    (h : pass links expand p steps seen = some (q, seen')) (hseen : Known links seen) :
    Walks links p steps q ∧ Known links seen' := by
  induction steps generalizing p seen with
  | nil =>
    cases h
    exact ⟨.here _, hseen⟩
  | cons step steps ih =>
    cases step with
    | up => exact (ih h hseen).imp_left .up
    | into name =>
      unfold pass at h
      cases hlink : readlink links (p ++ [name]) with
      | none =>
        simp only [hlink] at h
        exact (ih h hseen).imp_left (.into hlink)
      | some route =>
        rcases hlookup : seen.lookup (p ++ [name]) with _ | _ | target
        · simp only [hlink, hlookup] at h
          obtain ⟨⟨target, seen₁⟩, htarget, h⟩ := Option.bind_eq_some_iff.mp h
          obtain ⟨hwalk, hseen₁⟩ := hexpand _ _ _ _ _ htarget (hseen.pending _)
          exact (ih h (hseen₁.note hlink hwalk)).imp_left (.follow hlink hwalk)
        · simp [hlink, hlookup] at h
        · simp only [hlink, hlookup] at h
          exact (ih h hseen).imp_left (.follow hlink (hseen.walks hlink hlookup))

theorem walks_of_search (h : search links depth p steps seen = some (q, seen'))
    (hseen : Known links seen) : Walks links p steps q ∧ Known links seen' := by
  induction depth generalizing p steps seen q seen' with
  | zero => exact walks_of_pass (fun _ _ _ _ _ h => by cases h) h hseen
  | succ depth ih => exact walks_of_pass (fun _ _ _ _ _ h => ih h) h hseen

/-- The links whose walks go on. -/
structure Pending (links : Links ν) (depth n : Nat) (seen : Seen ν) (open_ : List (Location ν)) :
    Prop where
  lookup (place : Location ν) : seen.lookup place = some none ↔ place ∈ open_
  nodup : open_.Nodup
  isLink : ∀ place ∈ open_, place ∈ links.map Prod.fst
  room : links.length ≤ open_.length + depth
  /-- What is still to be walked is a part of each of these walks. -/
  inside : ∀ p name route m q, p ++ [name] ∈ open_ → readlink links (p ++ [name]) = some route →
    WalksIn links m (route.start p) route.steps q → n ≤ m

theorem mem_of_readlink {place : Location ν} (h : readlink links place = some route) :
    place ∈ links.map Prod.fst := by
  unfold readlink at h
  induction links with
  | nil => cases h
  | cons e links ih =>
    rw [List.lookup_cons] at h
    split at h
    · rename_i heq
      rw [beq_iff_eq.mp heq]
      exact List.mem_cons_self
    · exact List.mem_cons_of_mem _ (ih h)

section pending

variable {open_ : List (Location ν)}

theorem Pending.shorter (h : Pending links depth n seen open_) (hm : m ≤ n) :
    Pending links depth m seen open_ :=
  ⟨h.lookup, h.nodup, h.isLink, h.room, fun p name route k q hopen hlink hwalk =>
    hm.trans (h.inside p name route k q hopen hlink hwalk)⟩

/-- A link that is met for the first time leaves room for its own walk. -/
theorem Pending.enter (h : Pending links depth n seen open_)
    (hlink : readlink links (p ++ [name]) = some route) (hnew : seen.lookup (p ++ [name]) = none)
    (hwalk : WalksIn links m (route.start p) route.steps target) (hm : m ≤ n) :
    ∃ depth', depth = depth' + 1 ∧
      Pending links depth' m ((p ++ [name], none) :: seen) ((p ++ [name]) :: open_) := by
  have hnotMem : p ++ [name] ∉ open_ := fun hmem => by
    rw [(h.lookup _).mpr hmem] at hnew
    cases hnew
  have hnodup : ((p ++ [name]) :: open_).Nodup := List.nodup_cons.mpr ⟨hnotMem, h.nodup⟩
  have hisLink : ∀ place ∈ (p ++ [name]) :: open_, place ∈ links.map Prod.fst := by
    intro place hplace
    rcases List.mem_cons.mp hplace with rfl | hplace
    · exact mem_of_readlink hlink
    · exact h.isLink place hplace
  have hcount : open_.length + 1 ≤ links.length := by
    simpa using (List.subperm_of_subset hnodup hisLink).length_le
  have hroom := h.room
  obtain ⟨depth', rfl⟩ : ∃ depth', depth = depth' + 1 := ⟨depth - 1, by omega⟩
  refine ⟨depth', rfl, ?_, hnodup, hisLink, ?_, ?_⟩
  · intro place
    rw [List.lookup_cons]
    split
    · rename_i heq
      simp [beq_iff_eq.mp heq]
    · rename_i heq
      rw [h.lookup, List.mem_cons, or_iff_right]
      exact fun heq' => by simp [heq'] at heq
  · rw [List.length_cons]
    omega
  · intro p' name' route' m' q' hopen hlink' hwalk'
    rcases List.mem_cons.mp hopen with heq | hopen
    · obtain ⟨rfl, hname⟩ := List.append_inj' heq rfl
      cases hname
      rw [hlink] at hlink'
      cases hlink'
      rw [(hwalk.unique hwalk').1]
    · exact hm.trans (h.inside _ _ _ _ _ hopen hlink' hwalk')

/-- When the walk of the link has ended, its place is noted. -/
theorem Pending.leave (h : Pending links depth n seen open_) (hnotMem : p ++ [name] ∉ open_)
    (hlookup : ∀ place, seen'.lookup place = some none ↔ place ∈ (p ++ [name]) :: open_) :
    Pending links depth n ((p ++ [name], some target) :: seen') open_ := by
  refine ⟨fun place => ?_, h.nodup, h.isLink, h.room, h.inside⟩
  rw [List.lookup_cons]
  split
  · rename_i heq
    rw [beq_iff_eq.mp heq]
    simp [hnotMem]
  · rename_i heq
    rw [hlookup, List.mem_cons, or_iff_right]
    exact fun heq' => by simp [heq'] at heq

/-- A walk is found, with room for the links in it. -/
theorem search_of_walks (h : WalksIn links n p steps q) (hseen : Known links seen)
    (hopen : Pending links depth n seen open_) :
    ∃ seen', search links depth p steps seen = some (q, seen') ∧ Known links seen' ∧
      ∀ place, seen'.lookup place = some none ↔ place ∈ open_ := by
  induction h generalizing depth seen open_ with
  | here p => exact ⟨seen, search_nil, hseen, hopen.lookup⟩
  | up _ ih =>
    rw [search_up]
    exact ih hseen (hopen.shorter (Nat.le_succ _))
  | into hname _ ih =>
    rw [search_into hname]
    exact ih hseen (hopen.shorter (Nat.le_succ _))
  | @follow n m p target q name steps route hlink hwalk _ ih₁ ih₂ =>
    rcases hlookup : seen.lookup (p ++ [name]) with _ | _ | target'
    · obtain ⟨depth, rfl, hopen₁⟩ := hopen.enter hlink hlookup hwalk (by omega)
      obtain ⟨seen₁, hsearch₁, hseen₁, hlookup₁⟩ := ih₁ (hseen.pending _) hopen₁
      rw [search_new hlink hlookup, hsearch₁, Option.bind_some]
      apply ih₂ (hseen₁.note hlink ⟨m, hwalk⟩)
      exact (hopen.shorter (by omega)).leave (List.nodup_cons.mp hopen₁.nodup).1 hlookup₁
    · -- the walk of this link would be a part of itself
      have hinside := hopen.inside _ _ _ _ _ ((hopen.lookup _).mp hlookup) hlink hwalk
      omega
    · rw [search_known hlink hlookup]
      obtain rfl := (hseen.walks hlink hlookup).unique ⟨m, hwalk⟩
      exact ih₂ hseen (hopen.shorter (by omega))

end pending

theorem destination_eq_some_iff :
    destination links p steps = some q ↔ Walks links p steps q := by
  unfold destination
  rw [Option.map_eq_some_iff]
  constructor
  · rintro ⟨⟨q, seen'⟩, hsearch, rfl⟩
    exact (walks_of_search hsearch (.nil links)).1
  · rintro ⟨n, hwalk⟩
    have hopen : Pending links links.length n [] [] :=
      ⟨by simp, List.nodup_nil, by simp, by simp, by simp⟩
    obtain ⟨seen', hsearch, _⟩ := search_of_walks hwalk (.nil links) hopen
    exact ⟨(q, seen'), hsearch, rfl⟩

end search

end path_walk
