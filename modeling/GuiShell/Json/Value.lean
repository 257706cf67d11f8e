-- JSON values. The fields of an object keep the order in which a text or a program
-- lists them; a sorted map of a language is an object with `Sorted` fields.
import GuiShell.Bytes
import GuiShell.SortedMap
import Mathlib.Data.List.Forall2

namespace json

/-! ## Numbers -/

/-- Decimal digits with no leading zero. -/
def isNatText : List Char → Bool
  | [] => false
  | ['0'] => true
  | c :: rest => c ≠ '0' && c.isDigit && rest.all Char.isDigit

/-- The integer that a canonical decimal text names. `-0` is no integer text. -/
def readInt : List Char → Option Int
  | '-' :: ds =>
    if isNatText ds && ds ≠ ['0'] then some (-(Nat.ofDigitChars 10 ds 0 : Int)) else none
  | ds => if isNatText ds then some (Nat.ofDigitChars 10 ds 0 : Int) else none

def intText : Int → List Char
  | .ofNat n => Nat.toDigits 10 n
  | .negSucc n => '-' :: Nat.toDigits 10 (n + 1)

/-- One digit or more, and nothing after them. -/
def isDigits (l : List Char) : Bool := l ≠ [] && l.all Char.isDigit

/-- The exponent of a number text, after the `e`. -/
def isExponent : List Char → Bool
  | '+' :: ds => isDigits ds
  | '-' :: ds => isDigits ds
  | ds => isDigits ds

def isExponentMark (c : Char) : Bool := c = 'e' || c = 'E'

def dropSign : List Char → List Char
  | '-' :: rest => rest
  | l => l

/-- The text of a number by the JSON grammar, after the sign: an integer part, and then a
fraction and an exponent if there are any. -/
def isUnsignedText (l : List Char) : Bool :=
  let mantissa := l.takeWhile fun c => !isExponentMark c
  isNatText (mantissa.takeWhile fun c => c ≠ '.') &&
    (match mantissa.dropWhile fun c => c ≠ '.' with
      | [] => true
      | _ :: fraction => isDigits fraction) &&
    (match l.dropWhile fun c => !isExponentMark c with
      | [] => true
      | _ :: exponent => isExponent exponent)

def isNumberText (l : List Char) : Bool := isUnsignedText (dropSign l)

/-- A number text that names no integer. A finite double is known by the one text that
its language prints for it. -/
structure FloatText where
  chars : List Char
  shaped : (isNumberText chars && (readInt chars).isNone) = true
  deriving DecidableEq

inductive Number where
  | int (i : Int)
  | float (t : FloatText)
  deriving DecidableEq

def Number.text : Number → List Char
  | .int i => intText i
  | .float t => t.chars

/-! ## Values -/

inductive Value where
  | null
  | bool (b : Bool)
  | number (n : Number)
  | string (s : String)
  | array (items : List Value)
  | object (fields : List (String × Value))

/-- Induction on a value, with the hypothesis for every item and for every field. -/
@[elab_as_elim]
theorem Value.induct {P : Value → Prop} (null : P .null) (bool : ∀ b, P (.bool b))
    (number : ∀ n, P (.number n)) (string : ∀ s, P (.string s))
    (array : ∀ items, (∀ v ∈ items, P v) → P (.array items))
    (object : ∀ fields, (∀ k v, (k, v) ∈ fields → P v) → P (.object fields)) (v : Value) :
    P v := by
  refine Value.rec (motive_1 := P) (motive_2 := fun items => ∀ v ∈ items, P v)
    (motive_3 := fun fields => ∀ k v, (k, v) ∈ fields → P v) (motive_4 := fun e => P e.2)
    null bool number string array object ?_ ?_ ?_ ?_ ?_ v
  · simp
  · intro v items hv hi w hw
    rcases List.mem_cons.mp hw with hw | hw
    · exact hw ▸ hv
    · exact hi w hw
  · simp
  · intro e fields he hf k w hw
    rcases List.mem_cons.mp hw with hw | hw
    · subst hw; exact he
    · exact hf k w hw
  · intro k v hv
    exact hv

mutual
def Value.decEq : (a b : Value) → Decidable (a = b)
  | .null, .null => isTrue rfl
  | .bool a, .bool b => decidable_of_iff (a = b) (by simp)
  | .number a, .number b => decidable_of_iff (a = b) (by simp)
  | .string a, .string b => decidable_of_iff (a = b) (by simp)
  | .array a, .array b => @decidable_of_iff _ (a = b) (by simp) (decEqItems a b)
  | .object a, .object b => @decidable_of_iff _ (a = b) (by simp) (decEqFields a b)
  | .null, .bool _ | .null, .number _ | .null, .string _ | .null, .array _ | .null, .object _
  | .bool _, .null | .bool _, .number _ | .bool _, .string _ | .bool _, .array _
  | .bool _, .object _ | .number _, .null | .number _, .bool _ | .number _, .string _
  | .number _, .array _ | .number _, .object _ | .string _, .null | .string _, .bool _
  | .string _, .number _ | .string _, .array _ | .string _, .object _ | .array _, .null
  | .array _, .bool _ | .array _, .number _ | .array _, .string _ | .array _, .object _
  | .object _, .null | .object _, .bool _ | .object _, .number _ | .object _, .string _
  | .object _, .array _ => isFalse (by simp)
def Value.decEqItems : (a b : List Value) → Decidable (a = b)
  | [], [] => isTrue rfl
  | [], _ :: _ => isFalse (by simp)
  | _ :: _, [] => isFalse (by simp)
  | a :: as, b :: bs =>
    @decidable_of_iff _ (a = b ∧ as = bs) (by simp)
      (@instDecidableAnd _ _ (Value.decEq a b) (decEqItems as bs))
def Value.decEqFields : (a b : List (String × Value)) → Decidable (a = b)
  | [], [] => isTrue rfl
  | [], _ :: _ => isFalse (by simp)
  | _ :: _, [] => isFalse (by simp)
  | (k, a) :: as, (l, b) :: bs =>
    @decidable_of_iff _ (k = l ∧ a = b ∧ as = bs) (by simp [and_assoc])
      (@instDecidableAnd _ _ (instDecidableEqString k l)
        (@instDecidableAnd _ _ (Value.decEq a b) (decEqFields as bs)))
end

instance : DecidableEq Value := Value.decEq

namespace Value

/-! ### The accessors of a value -/

def as_str : Value → Option String
  | .string s => some s
  | _ => none

def as_bool : Value → Option Bool
  | .bool b => some b
  | _ => none

def as_array : Value → Option (List Value)
  | .array items => some items
  | _ => none

def as_object : Value → Option (List (String × Value))
  | .object fields => some fields
  | _ => none

theorem as_str_eq_some {v : Value} {s : String} (h : v.as_str = some s) : v = .string s := by
  cases v <;> simp [as_str] at h
  rw [h]

theorem as_object_eq_some {v : Value} {object : List (String × Value)}
    (h : v.as_object = some object) : v = .object object := by
  cases v <;> simp [as_object] at h
  rw [h]

/-- The field `k` of an object, and none for every other value. -/
def get (v : Value) (k : String) : Option Value :=
  match v with
  | .object fields => sorted_map.get k fields
  | _ => none

/-- The object with these fields, as a sorted map. -/
def mkObject (fields : List (String × Value)) : Value := .object (sorted_map.ofList fields)

theorem get_mkObject (fields : List (String × Value)) (k : String) :
    (mkObject fields).get k = sorted_map.get k fields.reverse := sorted_map.get_ofList k fields

/-! ### Objects as sorted maps -/

mutual
/-- The value with every object sorted by key. Of two fields with one key the later one
stays. -/
def sortKeys : Value → Value
  | .array items => .array (sortItems items)
  | .object fields => .object (sorted_map.ofList (sortFields fields))
  | v => v
def sortItems : List Value → List Value
  | [] => []
  | v :: items => v.sortKeys :: sortItems items
def sortFields : List (String × Value) → List (String × Value)
  | [] => []
  | (k, v) :: fields => (k, v.sortKeys) :: sortFields fields
end

theorem sortItems_eq (items : List Value) : sortItems items = items.map sortKeys := by
  induction items with
  | nil => rfl
  | cons v items ih => simp [sortItems, ih]

theorem sortFields_eq (fields : List (String × Value)) :
    sortFields fields = fields.map fun e => (e.1, e.2.sortKeys) := by
  induction fields with
  | nil => rfl
  | cons e fields ih => simp [sortFields, ih]

mutual
/-- Every object of the value is a sorted map. -/
def Sorted : Value → Prop
  | .array items => SortedItems items
  | .object fields => sorted_map.Sorted fields ∧ SortedFields fields
  | _ => True
def SortedItems : List Value → Prop
  | [] => True
  | v :: items => v.Sorted ∧ SortedItems items
def SortedFields : List (String × Value) → Prop
  | [] => True
  | (_, v) :: fields => v.Sorted ∧ SortedFields fields
end

theorem sortedItems_iff (items : List Value) : SortedItems items ↔ ∀ v ∈ items, v.Sorted := by
  induction items with
  | nil => simp [SortedItems]
  | cons v items ih => simp [SortedItems, ih]

theorem sortedFields_iff (fields : List (String × Value)) :
    SortedFields fields ↔ ∀ k v, (k, v) ∈ fields → v.Sorted := by
  induction fields with
  | nil => simp [SortedFields]
  | cons e fields ih =>
    obtain ⟨k, v⟩ := e
    simp only [SortedFields, ih, List.mem_cons, Prod.mk.injEq]
    constructor
    · rintro ⟨hv, hf⟩ k' v' (⟨_, rfl⟩ | h)
      · exact hv
      · exact hf k' v' h
    · exact fun h => ⟨h k v (Or.inl ⟨rfl, rfl⟩), fun k' v' h' => h k' v' (Or.inr h')⟩

mutual
def decSorted : (v : Value) → Decidable v.Sorted
  | .null | .bool _ | .number _ | .string _ => isTrue trivial
  | .array items => decSortedItems items
  | .object fields => @instDecidableAnd _ _ inferInstance (decSortedFields fields)
def decSortedItems : (items : List Value) → Decidable (SortedItems items)
  | [] => isTrue trivial
  | v :: items => @instDecidableAnd _ _ (decSorted v) (decSortedItems items)
def decSortedFields : (fields : List (String × Value)) → Decidable (SortedFields fields)
  | [] => isTrue trivial
  | (_, v) :: fields => @instDecidableAnd _ _ (decSorted v) (decSortedFields fields)
end

instance : DecidablePred Sorted := decSorted

/-- A sorted value is its own sorting. -/
theorem Sorted.sortKeys_eq {v : Value} (h : v.Sorted) : v.sortKeys = v := by
  induction v using Value.induct with
  | null | bool _ | number _ | string _ => rfl
  | array items ih =>
    rw [Sorted, sortedItems_iff] at h
    rw [sortKeys, sortItems_eq, List.map_congr_left fun v hv => ih v hv (h v hv), List.map_id']
  | object fields ih =>
    obtain ⟨hs, hf⟩ := h
    rw [sortedFields_iff] at hf
    have : (fields.map fun e => (e.1, e.2.sortKeys)) = fields := by
      rw [List.map_congr_left (g := id) fun e he => by
        rw [ih e.1 e.2 he (hf e.1 e.2 he)]; rfl, List.map_id]
    rw [sortKeys, sortFields_eq, this, hs.ofList_eq]

end Value

end json
