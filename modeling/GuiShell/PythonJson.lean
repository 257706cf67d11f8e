-- The json module of Python on any text: what `json.loads` reads, one character after the other,
-- and what `json.dumps` writes. A string may hold surrogates, a float may be infinite or no
-- number, and an integer of too many digits raises another error than a broken text does.
import GuiShell.Dict
import GuiShell.Json.Escapers
import Mathlib.Data.List.Lex

namespace python_json

/-! ## Values -/

abbrev CodePoint := Fin 0x110000

/-- A `str`. Surrogates may stand alone in it. -/
abbrev Str := List CodePoint

def codePoint (c : Char) : CodePoint := ⟨c.toNat, json.toNat_lt c⟩

def str (s : String) : Str := s.toList.map codePoint

inductive PyValue (Float : Type) where
  | none
  | bool (b : Bool)
  | int (i : Int)
  | float (x : Float)
  | str (s : Str)
  | list (items : List (PyValue Float))
  | dict (items : List (Str × PyValue Float))

abbrev PyDict (Float : Type) := List (Str × PyValue Float)

mutual
/-- Every dict in a value has each of its keys once. -/
def DistinctKeys {Float : Type} : PyValue Float → Prop
  | .list items => DistinctKeysOfItems items
  | .dict items => (items.map Prod.fst).Nodup ∧ DistinctKeysOfFields items
  | _ => True
def DistinctKeysOfItems {Float : Type} : List (PyValue Float) → Prop
  | [] => True
  | v :: items => DistinctKeys v ∧ DistinctKeysOfItems items
def DistinctKeysOfFields {Float : Type} : List (Str × PyValue Float) → Prop
  | [] => True
  | (_, v) :: items => DistinctKeys v ∧ DistinctKeysOfFields items
end

/-- ASCII without the control characters. -/
def Printable (text : List Char) : Prop := ∀ c ∈ text, 0x20 ≤ c.toNat ∧ c.toNat ≤ 0x7e

instance (text : List Char) : Decidable (Printable text) :=
  decidable_of_iff (text.all (fun c => decide (0x20 ≤ c.toNat ∧ c.toNat ≤ 0x7e)) = true)
    (by simp [Printable])

/-- What is left open of an interpreter: its floats, and how deep a value can be nested. -/
structure Interpreter where
  Float : Type
  /-- `float` of the text of a number. -/
  parse_float : List Char → Float
  nan : Float
  inf : Float
  neg_inf : Float
  repr : Float → List Char
  repr_chars : ∀ x, Printable (repr x)
  is_zero : Float → Bool
  /-- The integer that a float is equal to, if there is one. -/
  integer : Float → Option Int
  /-- `==`, where NaN is not equal to itself. -/
  eq_float : Float → Float → Bool
  /-- `is` or `==`, as lists, dicts and sets compare. -/
  same_float : Float → Float → Bool
  /-- How many containers can stand inside each other before `json.loads`, `json.dumps` and
  `copy.deepcopy` raise a RecursionError. -/
  loads_depth : Nat
  dumps_depth : Nat
  copy_depth : Nat
  loads_pos : 0 < loads_depth
  dumps_pos : 0 < dumps_depth
  copy_pos : 0 < copy_depth

/-- An integer of more digits is neither read nor written. -/
def MAX_STR_DIGITS : Nat := 4300

/-! ## Reading -/

/-- What `json.loads` comes to: a value, a JSONDecodeError or an error of another type. -/
inductive Loaded (Float : Type) where
  | value (v : PyValue Float)
  | decode_error
  | raises

/-- A container that is open, and the key of a dict that waits for its value. -/
inductive Frame (Float : Type) where
  | list (items : List (PyValue Float))
  | dict (items : PyDict Float) (key : Option Str)

/-- What can come next between the tokens. -/
inductive Place where
  | value | firstItem | firstKey | key | colon | next

/-- How much of a number has been read. -/
inductive NumberPart where
  | minus | zero | whole | point | fraction | exponent | sign | power
  deriving DecidableEq

/-- What has been read so far. -/
inductive Scan (Float : Type) where
  | expect (place : Place) (stack : List (Frame Float))
  | text (isKey : Bool) (stack : List (Frame Float)) (chars : Str) (high : Bool)
  | escape (isKey : Bool) (stack : List (Frame Float)) (chars : Str) (high : Bool)
  | unicode (isKey : Bool) (stack : List (Frame Float)) (chars : Str) (high : Bool)
      (digits : List Nat)
  | number (stack : List (Frame Float)) (part : NumberPart) (read : List Char)
  | word (stack : List (Frame Float)) (left : List Char) (v : PyValue Float)
  | done (v : PyValue Float)
  | decode_error
  | raises

section scan

variable {Float : Type}

/-- A value has ended. -/
def complete : List (Frame Float) → PyValue Float → Scan Float
  | [], v => .done v
  | .list items :: stack, v => .expect .next (.list (items ++ [v]) :: stack)
  | .dict items (some key) :: stack, v =>
    .expect .next (.dict (dict.setItem key v items) none :: stack)
  | .dict _ none :: _, _ => .decode_error

/-! ### Numbers -/

def NumberPart.next (part : NumberPart) (c : Char) : Option NumberPart :=
  match part with
  | .minus => if c = '0' then some .zero else if c.isDigit then some .whole else none
  | .zero => afterWhole
  | .whole => if c.isDigit then some .whole else afterWhole
  | .point => if c.isDigit then some .fraction else none
  | .fraction => if c.isDigit then some .fraction else beforePower
  | .exponent => if c.isDigit then some .power else if c = '+' ∨ c = '-' then some .sign else none
  | .sign | .power => if c.isDigit then some .power else none
where
  beforePower := if c = 'e' ∨ c = 'E' then some .exponent else none
  afterWhole := if c = '.' then some .point else beforePower

/-- The digits before the point or the exponent. -/
def digitsOf (read : List Char) : List Char :=
  (read.takeWhile fun c => c.isDigit || c = '-').filter Char.isDigit

def intOf (read : List Char) : Int :=
  let n : Nat := Nat.ofDigitChars 10 (digitsOf read) 0
  if read.head? = some '-' then -n else n

/-- A number has ended. Where only a part of it makes a number, that part is read before the rest
is found to be no JSON. -/
def endNumber (parse_float : List Char → Float) (stack : List (Frame Float)) (part : NumberPart)
    (read : List Char) : Scan Float :=
  match part with
  | .minus => .decode_error
  | .zero | .whole =>
    if MAX_STR_DIGITS < (digitsOf read).length then .raises else complete stack (.int (intOf read))
  | .fraction | .power => complete stack (.float (parse_float read))
  | .point | .exponent | .sign =>
    if '.' ∉ read.dropLast ∧ MAX_STR_DIGITS < (digitsOf read).length then .raises
    else .decode_error

/-! ### Strings -/

def endText (isKey : Bool) (stack : List (Frame Float)) (chars : Str) : Scan Float :=
  if isKey then
    match stack with
    | .dict items _ :: rest => .expect .colon (.dict items (some chars) :: rest)
    | _ => .decode_error
  else complete stack (.str chars)

def simpleEscape (c : Char) : Option Char :=
  if c = '"' ∨ c = '\\' ∨ c = '/' then some c
  else if c = 'b' then some '\x08'
  else if c = 'f' then some '\x0c'
  else if c = 'n' then some '\n'
  else if c = 'r' then some '\r'
  else if c = 't' then some '\t'
  else none

/-- The four digits of an escape. A low surrogate joins a high one that was escaped just before. -/
def endUnicode (isKey : Bool) (stack : List (Frame Float)) (chars : Str) (high : Bool)
    (digits : List Nat) : Scan Float :=
  let code := digits.foldl (fun n d => 16 * n + d) 0
  if high ∧ 0xdc00 ≤ code ∧ code ≤ 0xdfff then
    let before := ((chars.getLast?.map Fin.val).getD 0) - 0xd800
    .text isKey stack
      (chars.dropLast ++ [Fin.ofNat _ (0x10000 + 0x400 * before + (code - 0xdc00))]) false
  else .text isKey stack (chars ++ [Fin.ofNat _ code]) (0xd800 ≤ code ∧ code ≤ 0xdbff)

end scan

section step

variable (python : Interpreter)

/-- The first character of a value. -/
def startValue (stack : List (Frame python.Float)) (c : Char) : Scan python.Float :=
  if c = '"' then .text false stack [] false
  else if c = '{' then opens .firstKey (.dict [] none)
  else if c = '[' then opens .firstItem (.list [])
  else if c = 'n' then .word stack "ull".toList .none
  else if c = 't' then .word stack "rue".toList (.bool true)
  else if c = 'f' then .word stack "alse".toList (.bool false)
  else if c = 'N' then .word stack "aN".toList (.float python.nan)
  else if c = 'I' then .word stack "nfinity".toList (.float python.inf)
  else if c = '-' then .number stack .minus [c]
  else if c = '0' then .number stack .zero [c]
  else if c.isDigit then .number stack .whole [c]
  else .decode_error
where
  opens (place : Place) (frame : Frame python.Float) : Scan python.Float :=
    if stack.length < python.loads_depth then .expect place (frame :: stack) else .raises

def stepAt (place : Place) (stack : List (Frame python.Float)) (c : Char) : Scan python.Float :=
  if json.isSpace c then .expect place stack
  else
    match place, stack with
    | .value, _ => startValue python stack c
    | .firstItem, _ :: rest =>
      if c = ']' then complete rest (.list []) else startValue python stack c
    | .firstKey, _ :: rest =>
      if c = '}' then complete rest (.dict [])
      else if c = '"' then .text true stack [] false else .decode_error
    | .key, _ => if c = '"' then .text true stack [] false else .decode_error
    | .colon, _ => if c = ':' then .expect .value stack else .decode_error
    | .next, .list items :: rest =>
      if c = ',' then .expect .value stack
      else if c = ']' then complete rest (.list items) else .decode_error
    | .next, .dict items _ :: rest =>
      if c = ',' then .expect .key stack
      else if c = '}' then complete rest (.dict items) else .decode_error
    | _, [] => .decode_error

/-- A character after a value. -/
def stepAfter (scan : Scan python.Float) (c : Char) : Scan python.Float :=
  match scan with
  | .expect place stack => stepAt python place stack c
  | .done v => if json.isSpace c then .done v else .decode_error
  | other => other

def step (scan : Scan python.Float) (c : Char) : Scan python.Float :=
  match scan with
  | .text isKey stack chars high =>
    if c = '"' then endText isKey stack chars
    else if c = '\\' then .escape isKey stack chars high
    else if c.toNat < 0x20 then .decode_error
    else .text isKey stack (chars ++ [codePoint c]) false
  | .escape isKey stack chars high =>
    if c = 'u' then .unicode isKey stack chars high []
    else
      match simpleEscape c with
      | some c => .text isKey stack (chars ++ [codePoint c]) false
      | none => .decode_error
  | .unicode isKey stack chars high digits =>
    match hex.value c with
    | none => .decode_error
    | some d =>
      if digits.length = 3 then endUnicode isKey stack chars high (digits ++ [d])
      else .unicode isKey stack chars high (digits ++ [d])
  | .number stack part read =>
    if part = .minus ∧ c = 'I' then .word stack "nfinity".toList (.float python.neg_inf)
    else
      match part.next c with
      | some part => .number stack part (read ++ [c])
      | none => stepAfter python (endNumber python.parse_float stack part read) c
  | .word stack left v =>
    match left with
    | [] => .decode_error
    | [last] => if c = last then complete stack v else .decode_error
    | first :: left => if c = first then .word stack left v else .decode_error
  | scan => stepAfter python scan c

def finish (scan : Scan python.Float) : Loaded python.Float :=
  match scan with
  | .done v => .value v
  | .raises => .raises
  | .number stack part read =>
    match endNumber python.parse_float stack part read with
    | .done v => .value v
    | .raises => .raises
    | _ => .decode_error
  | _ => .decode_error

/-- The scan of a text, from what was read before it. -/
def scanFrom (scan : Scan python.Float) (text : List Char) : Scan python.Float :=
  text.foldl (step python) scan

/-- `json.loads` -/
def loads (text : List Char) : Loaded python.Float :=
  finish python (scanFrom python (.expect .value []) text)

example : loads python "NaN".toList = .value (.float python.nan) := rfl

/-- A surrogate that stands alone. -/
example : loads python "\"\\ud83d\"".toList = .value (.str [0xd83d]) := rfl

end step

/-! ## Writing -/

section write

variable (python : Interpreter)

/-- A character of a string in ASCII. A surrogate is written by its number. -/
def escapeOf (c : CodePoint) : List Char :=
  if c.val.isValidChar then json.asciiEscape (Char.ofNat c.val)
  else '\\' :: 'u' :: json.hex4 c.val

def quoted (s : Str) : List Char := '"' :: (s.flatMap escapeOf ++ ['"'])

def intText (i : Int) : Option (List Char) :=
  let digits := Nat.toDigits 10 i.natAbs
  if MAX_STR_DIGITS < digits.length then none
  else some (if i < 0 then '-' :: digits else digits)

/-- The texts of some items with what stands between them. -/
def joined (separator : List Char) : List (List Char) → List Char
  | [] => []
  | [text] => text
  | text :: texts => text ++ (separator ++ joined separator texts)

/-- The items between two brackets, or the brackets only. -/
def enclosed (L : json.Layout) (depth : Nat) (before after : Char) (texts : List (List Char)) :
    List Char :=
  if texts = [] then [before, after]
  else before :: (L.afterOpen (depth + 1) ++
    (joined (',' :: L.afterComma (depth + 1)) texts ++ (L.beforeClose depth ++ [after])))

mutual
/-- The text of a value in a layout, with sorted keys, or none for an integer of too many
digits. -/
def dumpsIn (L : json.Layout) (depth : Nat) : PyValue python.Float → Option (List Char)
  | .none => some "null".toList
  | .bool b => some (if b then "true".toList else "false".toList)
  | .int i => intText i
  | .float x => some (python.repr x)
  | .str s => some (quoted s)
  | .list items => (dumpsItems L (depth + 1) items).map (enclosed L depth '[' ']')
  | .dict items => (dumpsFields L (depth + 1) items).map fun fields =>
    enclosed L depth '{' '}' ((sorted_map.ofList fields).map fun e =>
      quoted e.1 ++ (':' :: (L.afterColon ++ e.2)))
def dumpsItems (L : json.Layout) (depth : Nat) :
    List (PyValue python.Float) → Option (List (List Char))
  | [] => some []
  | v :: items => do
    let text ← dumpsIn L depth v
    let texts ← dumpsItems L depth items
    some (text :: texts)
def dumpsFields (L : json.Layout) (depth : Nat) :
    PyDict python.Float → Option (List (Str × List Char))
  | [] => some []
  | (key, v) :: items => do
    let text ← dumpsIn L depth v
    let fields ← dumpsFields L depth items
    some ((key, text) :: fields)
end

mutual
/-- How deep the containers of a value stand in each other. -/
def depth {Float : Type} : PyValue Float → Nat
  | .list items => depthOfItems items + 1
  | .dict items => depthOfFields items + 1
  | _ => 0
def depthOfItems {Float : Type} : List (PyValue Float) → Nat
  | [] => 0
  | v :: items => max (depth v) (depthOfItems items)
def depthOfFields {Float : Type} : PyDict Float → Nat
  | [] => 0
  | (_, v) :: items => max (depth v) (depthOfFields items)
end

/-- `json.dumps(value, sort_keys=True)` in a layout, or none where it raises. -/
def dumpsAs (L : json.Layout) (v : PyValue python.Float) : Option (List Char) :=
  if depth v ≤ python.dumps_depth then dumpsIn python L 0 v else none

/-- `json.dumps(value, sort_keys=True, separators=(",", ":"))` -/
def dumps (v : PyValue python.Float) : Option (List Char) := dumpsAs python json.compact v

/-- `json.dumps(value, sort_keys=True, indent=2)` -/
def dumps_indented (v : PyValue python.Float) : Option (List Char) :=
  dumpsAs python json.pretty v

/-- `copy.deepcopy` of a value, which is equal to it, comes to an end. -/
def copies (v : PyValue python.Float) : Bool := depth v ≤ python.copy_depth

end write

/-! ## Comparing -/

section compare

variable (python : Interpreter)

/-- `bool` of a value. -/
def truthy : PyValue python.Float → Bool
  | .none => false
  | .bool b => b
  | .int i => i ≠ 0
  | .float x => !python.is_zero x
  | .str s => !s.isEmpty
  | .list items => !items.isEmpty
  | .dict items => !items.isEmpty

/-- A value that can stand in a set. -/
def hashable {Float : Type} : PyValue Float → Bool
  | .list _ | .dict _ => false
  | _ => true

/-- A number, where True is 1 and False is 0. -/
def asNumber : PyValue python.Float → Option (Int ⊕ python.Float)
  | .int i => some (.inl i)
  | .bool b => some (.inl (if b then 1 else 0))
  | .float x => some (.inr x)
  | _ => none

def sameNumber : Int ⊕ python.Float → Int ⊕ python.Float → Bool
  | .inl i, .inl j => i = j
  | .inr x, .inr y => python.same_float x y
  | .inl i, .inr x | .inr x, .inl i => python.integer x = some i

mutual
/-- `is` or `==`. Dicts are equal whatever the order of their keys. -/
def same : PyValue python.Float → PyValue python.Float → Bool
  | .none, .none => true
  | .str s, .str t => s = t
  | .list items, .list items' => sameItems items items'
  | .dict items, .dict items' => items.length = items'.length && sameFields items items'
  | v, w =>
    match asNumber python v, asNumber python w with
    | some a, some b => sameNumber python a b
    | _, _ => false
def sameItems : List (PyValue python.Float) → List (PyValue python.Float) → Bool
  | [], [] => true
  | v :: items, w :: items' => same v w && sameItems items items'
  | _, _ => false
def sameFields : PyDict python.Float → PyDict python.Float → Bool
  | [], _ => true
  | (key, v) :: items, items' =>
    (match sorted_map.get key items' with
      | some w => same v w
      | none => false) && sameFields items items'
end

/-- `==` -/
def eq : PyValue python.Float → PyValue python.Float → Bool
  | .float x, .float y => python.eq_float x y
  | v, w => same python v w

end compare

/-! ## What is written -/

section written

variable {python : Interpreter} {L : json.Layout} {P : Char → Prop} {text : List Char}

/-- What stands in a text of the layout: printable characters and the spaces of the layout. -/
structure Allows (L : json.Layout) (P : Char → Prop) : Prop where
  printable : ∀ c : Char, 0x20 ≤ c.toNat ∧ c.toNat ≤ 0x7e → P c
  spaces : ∀ d, ∀ c ∈ L.afterOpen d ++ L.afterComma d ++ L.beforeClose d ++ L.afterColon, P c

theorem Allows.of_printable (h : Allows L P) (hprint : Printable text) : ∀ c ∈ text, P c :=
  fun c hc => h.printable c (hprint c hc)

theorem printable_cons {c : Char} :
    Printable (c :: text) ↔ (0x20 ≤ c.toNat ∧ c.toNat ≤ 0x7e) ∧ Printable text :=
  List.forall_mem_cons

theorem printable_escapeOf (c : CodePoint) : Printable (escapeOf c) := by
  unfold escapeOf
  split
  · exact json.asciiEscape_range _
  · exact printable_cons.mpr ⟨by decide, printable_cons.mpr ⟨by decide, json.hex4_range _⟩⟩

theorem printable_quoted (s : Str) : Printable (quoted s) := by
  unfold quoted
  refine printable_cons.mpr ⟨by decide, List.forall_mem_append.mpr ⟨?_, ?_⟩⟩
  · intro c hc
    obtain ⟨point, -, hc⟩ := List.mem_flatMap.mp hc
    exact printable_escapeOf point c hc
  · exact List.forall_mem_singleton.mpr (by decide)

theorem printable_of_isDigit {c : Char} (h : c.isDigit = true) :
    0x20 ≤ c.toNat ∧ c.toNat ≤ 0x7e := by
  simp only [Char.isDigit, Bool.and_eq_true, decide_eq_true_eq] at h
  have hlow : (48 : UInt32) ≤ c.val := h.1
  have hhigh : c.val ≤ (57 : UInt32) := h.2
  rw [UInt32.le_iff_toNat_le] at hlow hhigh
  have h48 : (48 : UInt32).toNat = 48 := rfl
  have h57 : (57 : UInt32).toNat = 57 := rfl
  have hc : c.toNat = c.val.toNat := rfl
  omega

theorem printable_intText {i : Int} (h : intText i = some text) : Printable text := by
  have hdigits : Printable (Nat.toDigits 10 i.natAbs) := fun c hc =>
    printable_of_isDigit (Nat.isDigit_of_mem_toDigits (by decide) (by decide) hc)
  unfold intText at h
  dsimp only at h
  split at h
  · cases h
  · split at h
    · cases h
      exact printable_cons.mpr ⟨by decide, hdigits⟩
    · cases h
      exact hdigits

theorem joined_chars {separator : List Char} {texts : List (List Char)}
    (hseparator : ∀ c ∈ separator, P c) (h : ∀ text ∈ texts, ∀ c ∈ text, P c) :
    ∀ c ∈ joined separator texts, P c := by
  fun_induction joined separator texts with
  | case1 => simp
  | case2 text => exact h text List.mem_cons_self
  | case3 text texts _ ih =>
    refine List.forall_mem_append.mpr ⟨h text List.mem_cons_self, ?_⟩
    exact List.forall_mem_append.mpr
      ⟨hseparator, ih fun t ht => h t (List.mem_cons_of_mem _ ht)⟩

theorem enclosed_chars (hL : Allows L P) {depth : Nat} {before after : Char}
    {texts : List (List Char)} (hbrackets : Printable [before, after])
    (h : ∀ text ∈ texts, ∀ c ∈ text, P c) : ∀ c ∈ enclosed L depth before after texts, P c := by
  have hspaces := fun d => hL.spaces d
  simp only [List.forall_mem_append] at hspaces
  obtain ⟨hbefore, hafter⟩ := List.forall_mem_cons.mp (hL.of_printable hbrackets)
  have hcomma : ∀ c ∈ ',' :: L.afterComma (depth + 1), P c :=
    List.forall_mem_cons.mpr ⟨hL.printable ',' (by decide), (hspaces (depth + 1)).1.1.2⟩
  unfold enclosed
  split
  · exact hL.of_printable hbrackets
  · refine List.forall_mem_cons.mpr ⟨hbefore, List.forall_mem_append.mpr ⟨?_, ?_⟩⟩
    · exact (hspaces (depth + 1)).1.1.1
    · refine List.forall_mem_append.mpr ⟨joined_chars hcomma h, ?_⟩
      exact List.forall_mem_append.mpr ⟨(hspaces depth).1.2, hafter⟩

mutual
theorem dumpsIn_chars (hL : Allows L P) {depth : Nat} {v : PyValue python.Float}
    {text : List Char} (h : dumpsIn python L depth v = some text) : ∀ c ∈ text, P c := by
  match v with
  | .none =>
    cases h
    exact hL.of_printable (by decide)
  | .bool true | .bool false =>
    cases h
    exact hL.of_printable (by decide)
  | .int i => exact hL.of_printable (printable_intText h)
  | .float x =>
    cases h
    exact hL.of_printable (python.repr_chars x)
  | .str s =>
    cases h
    exact hL.of_printable (printable_quoted s)
  | .list items =>
    rw [dumpsIn] at h
    obtain ⟨texts, htexts, rfl⟩ := Option.map_eq_some_iff.mp h
    exact enclosed_chars hL (by decide) (dumpsItems_chars hL htexts)
  | .dict items =>
    rw [dumpsIn] at h
    obtain ⟨fields, hfields, rfl⟩ := Option.map_eq_some_iff.mp h
    refine enclosed_chars hL (by decide) fun text htext => ?_
    obtain ⟨e, he, rfl⟩ := List.mem_map.mp htext
    have hcolon := hL.spaces 0
    simp only [List.forall_mem_append] at hcolon
    have hvalue := dumpsFields_chars hL hfields e (sorted_map.mem_of_mem_ofList he)
    refine List.forall_mem_append.mpr ⟨hL.of_printable (printable_quoted e.1), ?_⟩
    refine List.forall_mem_cons.mpr ⟨hL.printable ':' (by decide), ?_⟩
    exact List.forall_mem_append.mpr ⟨hcolon.2, hvalue⟩
theorem dumpsItems_chars (hL : Allows L P) {depth : Nat} {items : List (PyValue python.Float)}
    {texts : List (List Char)} (h : dumpsItems python L depth items = some texts) :
    ∀ text ∈ texts, ∀ c ∈ text, P c := by
  match items with
  | [] =>
    cases h
    exact fun _ ht => absurd ht List.not_mem_nil
  | v :: items =>
    rw [dumpsItems] at h
    obtain ⟨first, hfirst, h⟩ := Option.bind_eq_some_iff.mp h
    obtain ⟨rest, hrest, h⟩ := Option.bind_eq_some_iff.mp h
    cases h
    exact List.forall_mem_cons.mpr ⟨dumpsIn_chars hL hfirst, dumpsItems_chars hL hrest⟩
theorem dumpsFields_chars (hL : Allows L P) {depth : Nat} {items : PyDict python.Float}
    {fields : List (Str × List Char)} (h : dumpsFields python L depth items = some fields) :
    ∀ e ∈ fields, ∀ c ∈ e.2, P c := by
  match items with
  | [] =>
    cases h
    exact fun _ ht => absurd ht List.not_mem_nil
  | (key, v) :: items =>
    rw [dumpsFields] at h
    obtain ⟨first, hfirst, h⟩ := Option.bind_eq_some_iff.mp h
    obtain ⟨rest, hrest, h⟩ := Option.bind_eq_some_iff.mp h
    cases h
    exact List.forall_mem_cons.mpr ⟨dumpsIn_chars hL hfirst, dumpsFields_chars hL hrest⟩
end

theorem dumpsAs_eq_some {v : PyValue python.Float} (h : dumpsAs python L v = some text) :
    dumpsIn python L 0 v = some text := by
  unfold dumpsAs at h
  split at h
  · exact h
  · cases h

theorem allows_compact : Allows json.compact fun c => 0x20 ≤ c.toNat ∧ c.toNat ≤ 0x7e where
  printable _ h := h
  spaces _ c hc := by simp at hc

/-- A line of JSON is written in printable ASCII. -/
theorem printable_dumps {v : PyValue python.Float} (h : dumps python v = some text) :
    Printable text := dumpsIn_chars allows_compact (dumpsAs_eq_some h)

theorem return_not_mem_dumps_indented {v : PyValue python.Float}
    (h : dumps_indented python v = some text) : '\r' ∉ text := by
  have hallows : Allows json.pretty (· ≠ '\r') := by
    constructor
    · rintro c hc rfl
      exact absurd hc (by decide)
    · rintro d c hc rfl
      simp [json.pretty, json.newLine] at hc
  exact fun hmem => dumpsIn_chars hallows (dumpsAs_eq_some h) '\r' hmem rfl

/-- With a string for one of its keys a dict is no deeper. -/
theorem depthOfFields_setItem_str {Float : Type} (key s : Str) (items : PyDict Float) :
    depthOfFields (dict.setItem key (.str s) items) ≤ depthOfFields items := by
  induction items with
  | nil => exact le_rfl
  | cons e items ih =>
    rw [dict.setItem]
    split
    · show max (depth (.str s)) (depthOfFields items) ≤ max (depth e.2) (depthOfFields items)
      exact max_le_max_right _ (Nat.zero_le _)
    · exact max_le_max_left _ ih

theorem dumpsFields_setItem_str {level : Nat} {items : PyDict python.Float} (key s : Str)
    (h : (dumpsFields python L level items).isSome = true) :
    (dumpsFields python L level (dict.setItem key (.str s) items)).isSome = true := by
  induction items with
  | nil => rfl
  | cons e items ih =>
    obtain ⟨k, v⟩ := e
    rw [dumpsFields] at h
    obtain ⟨texts, htexts⟩ := Option.isSome_iff_exists.mp h
    obtain ⟨text, htext, htexts⟩ := Option.bind_eq_some_iff.mp htexts
    obtain ⟨rest, hrest, -⟩ := Option.bind_eq_some_iff.mp htexts
    rw [dict.setItem]
    split
    · rw [dumpsFields, hrest]
      rfl
    · obtain ⟨rest', hrest'⟩ := Option.isSome_iff_exists.mp (ih (by rw [hrest]; rfl))
      rw [dumpsFields, htext, hrest']
      rfl

/-- A dict that is written is also written with a string for one of its keys. -/
theorem dumps_setItem_str {items : PyDict python.Float} (key s : Str)
    (h : dumps python (.dict items) = some text) :
    ∃ text', dumps python (.dict (dict.setItem key (.str s) items)) = some text' := by
  have hin := dumpsAs_eq_some h
  rw [dumpsIn] at hin
  obtain ⟨fields, hfields, -⟩ := Option.map_eq_some_iff.mp hin
  obtain ⟨fields', hfields'⟩ := Option.isSome_iff_exists.mp
    (dumpsFields_setItem_str (L := json.compact) key s (by rw [hfields]; rfl))
  have hdepth : depth (.dict (dict.setItem key (.str s) items)) ≤ python.dumps_depth := by
    unfold dumps dumpsAs at h
    split at h
    · rename_i hdepth
      exact (Nat.succ_le_succ (depthOfFields_setItem_str key s items)).trans hdepth
    · cases h
  refine Option.isSome_iff_exists.mp ?_
  unfold dumps dumpsAs
  rw [if_pos hdepth, dumpsIn, hfields']
  rfl

theorem dumps_dict {items : PyDict python.Float} (h : dumps python (.dict items) = some text) :
    ∃ inner, text = '{' :: inner := by
  have hdict := dumpsAs_eq_some h
  rw [dumpsIn] at hdict
  obtain ⟨fields, -, rfl⟩ := Option.map_eq_some_iff.mp hdict
  unfold enclosed
  split
  · exact ⟨_, rfl⟩
  · exact ⟨_, rfl⟩

end written

/-! ## Texts that go on -/

section goes_on

variable {python : Interpreter} {scan : Scan python.Float} {text more : List Char}

theorem scanFrom_append :
    scanFrom python scan (text ++ more) = scanFrom python (scanFrom python scan text) more :=
  List.foldl_append ..

theorem scanFrom_decode_error : scanFrom python .decode_error text = .decode_error := by
  induction text with
  | nil => rfl
  | cons c text ih => exact ih

theorem complete_ne_dict {stack : List (Frame python.Float)} {v : PyValue python.Float}
    {items : PyDict python.Float} (hv : ∀ items, v ≠ .dict items) :
    complete stack v ≠ .done (.dict items) := by
  intro h
  unfold complete at h
  split at h
  · exact hv items (Scan.done.inj h)
  · cases h
  · cases h
  · cases h

theorem endNumber_ne_dict {stack : List (Frame python.Float)} {part : NumberPart}
    {read : List Char} {items : PyDict python.Float} :
    endNumber python.parse_float stack part read ≠ .done (.dict items) := by
  have hint : ∀ i, complete stack (.int i : PyValue python.Float) ≠ .done (.dict items) :=
    fun _ => complete_ne_dict fun _ h => by cases h
  have hfloat : ∀ x, complete stack (.float x : PyValue python.Float) ≠ .done (.dict items) :=
    fun _ => complete_ne_dict fun _ h => by cases h
  intro h
  cases part with
  | minus => cases h
  | zero | whole =>
    rw [endNumber] at h
    split at h
    · cases h
    · exact hint _ h
  | fraction | power => exact hfloat _ h
  | point | exponent | sign =>
    rw [endNumber] at h
    split at h
    · cases h
    · cases h

/-- After the text of a dict nothing but spaces can come. -/
theorem loads_append_brace {items : PyDict python.Float}
    (h : loads python text = .value (.dict items)) (more : List Char) :
    loads python (text ++ '{' :: more) = .decode_error := by
  have hdone : scanFrom python (.expect .value []) text = .done (.dict items) := by
    unfold loads finish at h
    split at h
    · rename_i v hv
      cases h
      exact hv
    · cases h
    · split at h
      · rename_i v hv
        cases h
        exact absurd hv endNumber_ne_dict
      · cases h
      · cases h
    · cases h
  unfold loads
  rw [scanFrom_append, hdone]
  have hstep : scanFrom python (.done (.dict items)) ('{' :: more) =
      scanFrom python .decode_error more := rfl
  rw [hstep, scanFrom_decode_error]
  rfl

theorem scanFrom_spaces {place : Place} {stack : List (Frame python.Float)}
    (h : text.all json.isSpace = true) :
    scanFrom python (.expect place stack) text = .expect place stack := by
  induction text with
  | nil => rfl
  | cons c text ih =>
    rw [List.all_cons, Bool.and_eq_true] at h
    have hstep : step python (.expect place stack) c = .expect place stack := by
      show stepAt python place stack c = _
      unfold stepAt
      rw [if_pos h.1]
    unfold scanFrom
    rw [List.foldl_cons, hstep]
    exact ih h.2

/-- A character that no value starts with. -/
theorem loads_of_head {spaces rest : List Char} {c : Char}
    (hspaces : spaces.all json.isSpace = true) (hspace : json.isSpace c = false)
    (hc : ¬ (0x20 ≤ c.toNat ∧ c.toNat ≤ 0x7e)) :
    loads python (spaces ++ c :: rest) = .decode_error := by
  have hne : ∀ d : Char, (0x20 ≤ d.toNat ∧ d.toNat ≤ 0x7e) → c ≠ d := by
    rintro d hd rfl
    exact hc hd
  have hdigit : ¬ c.isDigit = true := fun h => hc (printable_of_isDigit h)
  have hstep : step python (.expect .value []) c = .decode_error := by
    show stepAt python .value [] c = _
    unfold stepAt
    rw [if_neg (by simp [hspace])]
    simp [startValue, hdigit, hne '"' (by decide), hne '{' (by decide), hne '[' (by decide),
      hne 'n' (by decide), hne 't' (by decide), hne 'f' (by decide), hne 'N' (by decide),
      hne 'I' (by decide), hne '-' (by decide), hne '0' (by decide)]
  unfold loads
  rw [scanFrom_append, scanFrom_spaces hspaces]
  have hrest : scanFrom python (.expect .value []) (c :: rest) =
      scanFrom python (step python (.expect .value []) c) rest := rfl
  rw [hrest, hstep, scanFrom_decode_error]
  rfl

end goes_on

end python_json
