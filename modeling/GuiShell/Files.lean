-- Files whose operations can fail. An operation either takes full effect or none, and a
-- program that stops at an operation leaves the files as a failure there leaves them.
import Mathlib.Logic.Function.Basic

namespace files

/-! ## The files -/

/-- What a file holds. A broken file goes on with a line that is not UTF-8. -/
structure Content where
  chars : List Char
  broken : Bool
  deriving DecidableEq

def Content.text (chars : List Char) : Content := ⟨chars, false⟩

/-- What is written after a broken line is never read. -/
def Content.append (content : Content) (chars : List Char) : Content :=
  if content.broken then content else .text (content.chars ++ chars)

@[simp] theorem Content.append_text (chars more : List Char) :
    (Content.text chars).append more = .text (chars ++ more) := rfl

abbrev Disk (φ : Type) := φ → Option Content

inductive Op where
  | createDir | ensure | read | append | create | write | sync | rename
  deriving DecidableEq

/-- The operations that fail, each with the text of its error. -/
abbrev Faults (φ : Type) := Op → φ → Option String

def noFaults {φ : Type} : Faults φ := fun _ _ => none

abbrev FileM (φ ε : Type) := EStateM ε (Disk φ)

variable {φ ε ε' α β : Type}

/-! ## Programs -/

/-- The same run with other errors. -/
def mapError (f : ε → ε') (x : FileM φ ε α) : FileM φ ε' α := fun disk =>
  match x disk with
  | .ok a disk => .ok a disk
  | .error e disk => .error (f e) disk

/-- An outcome that no file has a part in. -/
def outcome : Except ε α → FileM φ ε α
  | .ok a => pure a
  | .error e => throw e

def fileExists (path : φ) : FileM φ ε Bool := do
  let disk ← get
  return (disk path).isSome

/-! ### Weakest preconditions -/

section wp

variable {disk : Disk φ} {x : FileM φ ε α} {Q Q' : α → Disk φ → Prop} {E E' : Disk φ → Prop}

/-- The run from `disk` ends in `Q`, or it fails and ends in `E`. -/
def wp (x : FileM φ ε α) (Q : α → Disk φ → Prop) (E : Disk φ → Prop) (disk : Disk φ) : Prop :=
  match x disk with
  | .ok a disk => Q a disk
  | .error _ disk => E disk

theorem wp.mono (h : wp x Q E disk) (hQ : ∀ a d, Q a d → Q' a d) (hE : ∀ d, E d → E' d) :
    wp x Q' E' disk := by
  unfold wp at h ⊢
  split at h
  · exact hQ _ _ h
  · exact hE _ h

theorem wp.and (h : wp x Q E disk) (h' : wp x Q' E' disk) :
    wp x (fun a d => Q a d ∧ Q' a d) (fun d => E d ∧ E' d) disk := by
  unfold wp at h h' ⊢
  split at h
  · rename_i hx
    rw [hx] at h'
    exact ⟨h, h'⟩
  · rename_i hx
    rw [hx] at h'
    exact ⟨h, h'⟩

theorem wp.of_ok {a : α} {disk' : Disk φ} (h : wp x Q E disk) (hx : x disk = .ok a disk') :
    Q a disk' := by
  unfold wp at h
  rwa [hx] at h

theorem wp.of_error {e : ε} {disk' : Disk φ} (h : wp x Q E disk) (hx : x disk = .error e disk') :
    E disk' := by
  unfold wp at h
  rwa [hx] at h

/-- A program with no way to fail gives a result. -/
theorem wp.total (h : wp x Q (fun _ => False) disk) :
    ∃ a disk', x disk = .ok a disk' ∧ Q a disk' := by
  unfold wp at h
  split at h
  · exact ⟨_, _, by assumption, h⟩
  · exact h.elim

theorem pure_run (a : α) : (pure a : FileM φ ε α) disk = .ok a disk := rfl

@[simp] theorem wp_pure (a : α) : wp (pure a : FileM φ ε α) Q E disk ↔ Q a disk := Iff.rfl

@[simp] theorem wp_throw (e : ε) : wp (throw e : FileM φ ε α) Q E disk ↔ E disk := Iff.rfl

@[simp] theorem wp_bind {R : β → Disk φ → Prop} {f : α → FileM φ ε β} :
    wp (x >>= f) R E disk ↔ wp x (fun a => wp (f a) R E) E disk := by
  unfold wp
  simp only [bind, EStateM.bind]
  cases x disk <;> rfl

@[simp] theorem wp_mapError {f : ε → ε'} : wp (mapError f x) Q E disk ↔ wp x Q E disk := by
  unfold wp mapError
  cases x disk <;> rfl

@[simp] theorem wp_outcome_ok (a : α) : wp (outcome (.ok a) : FileM φ ε α) Q E disk ↔ Q a disk :=
  Iff.rfl

@[simp] theorem wp_outcome_error (e : ε) :
    wp (outcome (.error e) : FileM φ ε α) Q E disk ↔ E disk := Iff.rfl

@[simp] theorem wp_get {R : Disk φ → Disk φ → Prop} :
    wp (get : FileM φ ε (Disk φ)) R E disk ↔ R disk disk := Iff.rfl

@[simp] theorem wp_fileExists {R : Bool → Disk φ → Prop} (path : φ) :
    wp (fileExists path : FileM φ ε Bool) R E disk ↔ R (disk path).isSome disk := Iff.rfl

end wp

/-! ## Operations -/

/-- Nothing but the chance to fail. -/
def attempt (faults : Faults φ) (op : Op) (path : φ) : FileM φ String Unit :=
  match faults op path with
  | none => pure ()
  | some error => throw error

/-- The text of the error for a file that is not there. -/
def notFound : String := "No such file or directory (os error 2)"

/-- The text of the error for bytes that are not UTF-8. -/
def notUtf8 : String := "stream did not contain valid UTF-8"

def read (faults : Faults φ) (path : φ) : FileM φ String Content := do
  attempt faults .read path
  let disk ← get
  match disk path with
  | some content => return content
  | none => throw notFound

def readToString (faults : Faults φ) (path : φ) : FileM φ String (List Char) := do
  let content ← read faults path
  if content.broken then throw notUtf8 else return content.chars

section writes

variable [DecidableEq φ]

def put (path : φ) (content : Option Content) : FileM φ ε Unit :=
  modify fun disk => Function.update disk path content

/-- Opens a file for appending, and makes it if it is not there. -/
def ensure (faults : Faults φ) (path : φ) : FileM φ String Unit := do
  attempt faults .ensure path
  let disk ← get
  put path (some ((disk path).getD (.text [])))

/-- Appends a line, as one operation. -/
def appendLine (faults : Faults φ) (path : φ) (line : List Char) : FileM φ String Unit := do
  attempt faults .append path
  let disk ← get
  put path (some (((disk path).getD (.text [])).append (line ++ ['\n'])))

/-- Makes an empty file. -/
def create (faults : Faults φ) (path : φ) : FileM φ String Unit := do
  attempt faults .create path
  put path (some (.text []))

/-- Writes a whole file. -/
def write (faults : Faults φ) (path : φ) (chars : List Char) : FileM φ String Unit := do
  attempt faults .write path
  put path (some (.text chars))

def rename (faults : Faults φ) (source target : φ) : FileM φ String Unit := do
  attempt faults .rename target
  let disk ← get
  match disk source with
  | some content =>
    put target (some content)
    put source none
  | none => throw notFound

end writes

/-! ### What an operation does -/

section operations

variable {faults : Faults φ} {disk : Disk φ} {path : φ} {Q : Unit → Disk φ → Prop}
  {E : Disk φ → Prop}

theorem wp_attempt {op : Op} (hok : faults op path = none → Q () disk)
    (hfail : faults op path ≠ none → E disk) : wp (attempt faults op path) Q E disk := by
  unfold attempt
  split
  · rename_i h
    exact hok h
  · rename_i h
    exact hfail (by simp [h])

theorem wp_read {R : Content → Disk φ → Prop} {content : Content} (hc : disk path = some content)
    (hok : faults .read path = none → R content disk) (hfail : faults .read path ≠ none → E disk) :
    wp (read faults path) R E disk := by
  rw [read, wp_bind]
  refine wp_attempt (fun h => ?_) hfail
  rw [wp_bind, wp_get, hc]
  exact hok h

/-- A file that is there is read, unless the operation fails or the file is broken. -/
theorem wp_readToString_content {R : List Char → Disk φ → Prop} {content : Content}
    (hc : disk path = some content)
    (hok : faults .read path = none → content.broken = false → R content.chars disk)
    (hfail : ¬ (faults .read path = none ∧ content.broken = false) → E disk) :
    wp (readToString faults path) R E disk := by
  rw [readToString, wp_bind]
  refine wp_read hc (fun hread => ?_) fun hf => hfail fun h => hf h.1
  by_cases hbroken : content.broken = true
  · rw [if_pos hbroken]
    exact hfail fun h => by rw [hbroken] at h; cases h.2
  · rw [if_neg hbroken]
    exact hok hread (Bool.eq_false_iff.mpr hbroken)

theorem wp_readToString {R : List Char → Disk φ → Prop} {chars : List Char}
    (hc : disk path = some (.text chars)) (hok : faults .read path = none → R chars disk)
    (hfail : faults .read path ≠ none → E disk) : wp (readToString faults path) R E disk := by
  rw [readToString, wp_bind]
  exact wp_read hc (fun h => hok h) hfail

variable [DecidableEq φ]

@[simp] theorem wp_put (content : Option Content) :
    wp (put path content : FileM φ ε Unit) Q E disk ↔ Q () (Function.update disk path content) :=
  Iff.rfl

theorem wp_ensure
    (hok : faults .ensure path = none →
      Q () (Function.update disk path (some ((disk path).getD (.text [])))))
    (hfail : faults .ensure path ≠ none → E disk) : wp (ensure faults path) Q E disk := by
  rw [ensure, wp_bind]
  exact wp_attempt hok hfail

theorem wp_appendLine {line : List Char}
    (hok : faults .append path = none → Q () (Function.update disk path
      (some (((disk path).getD (.text [])).append (line ++ ['\n'])))))
    (hfail : faults .append path ≠ none → E disk) : wp (appendLine faults path line) Q E disk := by
  rw [appendLine, wp_bind]
  exact wp_attempt hok hfail

theorem wp_create
    (hok : faults .create path = none → Q () (Function.update disk path (some (.text []))))
    (hfail : faults .create path ≠ none → E disk) : wp (create faults path) Q E disk := by
  rw [create, wp_bind]
  exact wp_attempt hok hfail

theorem wp_write {chars : List Char}
    (hok : faults .write path = none → Q () (Function.update disk path (some (.text chars))))
    (hfail : faults .write path ≠ none → E disk) : wp (write faults path chars) Q E disk := by
  rw [write, wp_bind]
  exact wp_attempt hok hfail

theorem wp_rename {source : φ} {content : Content} (hs : disk source = some content)
    (hok : faults .rename path = none →
      Q () (Function.update (Function.update disk path (some content)) source none))
    (hfail : faults .rename path ≠ none → E disk) : wp (rename faults source path) Q E disk := by
  rw [rename, wp_bind]
  refine wp_attempt (fun h => ?_) hfail
  rw [wp_bind, wp_get, hs]
  exact hok h

end operations

/-! ## What a program leaves alone -/

/-- The disk that a run leaves. -/
def after (x : FileM φ ε α) (disk : Disk φ) : Disk φ :=
  match x disk with
  | .ok _ disk => disk
  | .error _ disk => disk

/-- The program does not change a file, whether it fails or not. -/
def Leaves (path : φ) (x : FileM φ ε α) : Prop := ∀ disk, after x disk path = disk path

section leaves

variable {path : φ} {x : FileM φ ε α} {faults : Faults φ}

theorem leaves_iff_wp : Leaves path x ↔
    ∀ disk, wp x (fun _ d => d path = disk path) (fun d => d path = disk path) disk := by
  unfold Leaves after wp
  constructor
  · intro h disk
    have hpath := h disk
    rcases hx : x disk with ⟨a, d⟩ | ⟨e, d⟩
    · rw [hx] at hpath
      exact hpath
    · rw [hx] at hpath
      exact hpath
  · intro h disk
    have hpath := h disk
    rcases hx : x disk with ⟨a, d⟩ | ⟨e, d⟩
    · rw [hx] at hpath
      exact hpath
    · rw [hx] at hpath
      exact hpath

theorem leaves_pure (a : α) : Leaves path (pure a : FileM φ ε α) := fun _ => rfl

theorem leaves_throw (e : ε) : Leaves path (throw e : FileM φ ε α) := fun _ => rfl

theorem leaves_bind {f : α → FileM φ ε β} (hx : Leaves path x) (hf : ∀ a, Leaves path (f a)) :
    Leaves path (x >>= f) := by
  rw [leaves_iff_wp] at hx ⊢
  intro disk
  rw [wp_bind]
  refine (hx disk).mono (fun a d hd => ?_) fun _ hd => hd
  exact (leaves_iff_wp.mp (hf a) d).mono (fun _ _ h => h.trans hd) fun _ h => h.trans hd

/-- A step of a run that leaves a file as it is. -/
theorem wp_bind_of_leaves {f : α → FileM φ ε β} {R : β → Disk φ → Prop} {E : Disk φ → Prop}
    {disk : Disk φ} {content : Option Content} (hx : Leaves path x) (h : disk path = content)
    (hf : ∀ a d, d path = content → wp (f a) R E d) (hE : ∀ d, d path = content → E d) :
    wp (x >>= f) R E disk := by
  rw [wp_bind]
  exact (leaves_iff_wp.mp hx disk).mono (fun a d hd => hf a d (hd.trans h))
    fun d hd => hE d (hd.trans h)

theorem leaves_mapError {f : ε → ε'} (hx : Leaves path x) : Leaves path (mapError f x) := by
  rw [leaves_iff_wp] at hx ⊢
  intro disk
  rw [wp_mapError]
  exact hx disk

theorem leaves_outcome (r : Except ε α) : Leaves path (outcome r : FileM φ ε α) := by
  cases r with
  | error e => exact leaves_throw e
  | ok a => exact leaves_pure a

theorem leaves_fileExists (p : φ) : Leaves path (fileExists p : FileM φ ε Bool) := fun _ => rfl

theorem leaves_get : Leaves path (get : FileM φ ε (Disk φ)) := fun _ => rfl

theorem leaves_attempt (op : Op) (p : φ) : Leaves path (attempt faults op p) := by
  unfold attempt
  split
  · exact leaves_pure ()
  · exact leaves_throw _

theorem leaves_read (p : φ) : Leaves path (read faults p) := by
  refine leaves_bind (leaves_attempt .read p) fun _ => leaves_bind leaves_get fun disk => ?_
  split
  · exact leaves_pure _
  · exact leaves_throw _

theorem leaves_readToString (p : φ) : Leaves path (readToString faults p) := by
  refine leaves_bind (leaves_read p) fun content => ?_
  split
  · exact leaves_throw _
  · exact leaves_pure _

variable [DecidableEq φ] {p : φ}

theorem leaves_put (h : path ≠ p) (content : Option Content) :
    Leaves path (put p content : FileM φ ε Unit) := fun _ => Function.update_of_ne h ..

theorem leaves_ensure (h : path ≠ p) : Leaves path (ensure faults p) :=
  leaves_bind (leaves_attempt .ensure p) fun _ => leaves_bind leaves_get fun _ => leaves_put h _

theorem leaves_appendLine (h : path ≠ p) (line : List Char) :
    Leaves path (appendLine faults p line) :=
  leaves_bind (leaves_attempt .append p) fun _ => leaves_bind leaves_get fun _ => leaves_put h _

theorem leaves_write (h : path ≠ p) (chars : List Char) : Leaves path (write faults p chars) :=
  leaves_bind (leaves_attempt .write p) fun _ => leaves_put h _

theorem leaves_create (h : path ≠ p) : Leaves path (create faults p) :=
  leaves_bind (leaves_attempt .create p) fun _ => leaves_put h _

theorem leaves_rename {source : φ} (hs : path ≠ source) (h : path ≠ p) :
    Leaves path (rename faults source p) := by
  refine leaves_bind (leaves_attempt .rename p) fun _ => leaves_bind leaves_get fun disk => ?_
  split
  · exact leaves_bind (leaves_put h _) fun _ => leaves_put hs _
  · exact leaves_throw _

end leaves

end files
