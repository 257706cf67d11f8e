-- Records of texts and counts: what `json.dumps` writes for them in a layout, and that
-- `json.loads` reads it back.
import GuiShell.Json.RoundTrip
import GuiShell.PythonJson
import Mathlib.Data.List.TakeWhile

namespace python_json

/-! ## Records -/

/-- ASCII that a string holds as it stands in its text. -/
def Plain (s : String) : Prop :=
  ∀ c ∈ s.toList, (0x20 ≤ c.toNat ∧ c.toNat ≤ 0x7e) ∧ c ≠ '"' ∧ c ≠ '\\'

instance (s : String) : Decidable (Plain s) :=
  decidable_of_iff (s.toList.all (fun c =>
    decide ((0x20 ≤ c.toNat ∧ c.toNat ≤ 0x7e) ∧ c ≠ '"' ∧ c ≠ '\\')) = true)
    (by simp only [Plain, List.all_eq_true, decide_eq_true_eq])

inductive Leaf where
  | null
  | count (n : Nat)
  | text (s : String)

namespace Leaf

variable {F : Type}

def value : Leaf → PyValue F
  | .null => .none
  | .count n => .int n
  | .text s => .str (str s)

def chars : Leaf → List Char
  | .null => "null".toList
  | .count n => Nat.toDigits 10 n
  | .text s => '"' :: (s.toList ++ ['"'])

/-- The text of the value holds it as it stands. -/
def Writes : Leaf → Prop
  | .null => True
  | .count n => n < 10 ^ MAX_STR_DIGITS
  | .text s => Plain s

end Leaf

abbrev Fields := List (String × Leaf)

def record {F : Type} (fields : Fields) : PyDict F :=
  fields.map fun e => (str e.1, e.2.value)

def Fields.Writes (fields : Fields) : Prop := ∀ e ∈ fields, Plain e.1 ∧ e.2.Writes

def fieldText (L : json.Layout) (e : String × Leaf) : List Char :=
  '"' :: (e.1.toList ++ ('"' :: ':' :: (L.afterColon ++ e.2.chars)))

/-- The text of a record. -/
def recordText (L : json.Layout) (fields : Fields) : List Char :=
  enclosed L 0 '{' '}' (fields.map (fieldText L))

variable {python : Interpreter} {L : json.Layout} {fields : Fields}

/-! ## Writing -/

theorem escapeOf_plain {c : Char} (hc : (0x20 ≤ c.toNat ∧ c.toNat ≤ 0x7e) ∧ c ≠ '"' ∧ c ≠ '\\') :
    escapeOf (codePoint c) = [c] := by
  obtain ⟨⟨hlow, hhigh⟩, hquote, hback⟩ := hc
  have hne : ∀ d : Char, d.toNat < 0x20 → c ≠ d := by
    rintro d hd rfl
    omega
  have hshort : json.shortEscape c = none := by
    simp [json.shortEscape, hquote, hback, hne '\x08' (by decide), hne '\x0c' (by decide),
      hne '\n' (by decide), hne '\r' (by decide), hne '\t' (by decide)]
  have hvalid : (codePoint c).val.isValidChar := c.valid
  have hchar : Char.ofNat (codePoint c).val = c := Char.ofNat_toNat c
  unfold escapeOf
  rw [if_pos hvalid, hchar, json.asciiEscape, hshort]
  exact if_neg (by omega)

theorem quoted_plain {s : String} (h : Plain s) : quoted (str s) = '"' :: (s.toList ++ ['"']) := by
  have hflat : (str s).flatMap escapeOf = s.toList := by
    unfold str
    rw [List.flatMap_map]
    unfold Plain at h
    generalize s.toList = l at h
    induction l with
    | nil => rfl
    | cons c l ih =>
      rw [List.forall_mem_cons] at h
      rw [List.flatMap_cons, escapeOf_plain h.1, ih h.2]
      rfl
  rw [quoted, hflat]

theorem dumpsIn_leaf {leaf : Leaf} (h : leaf.Writes) (depth : Nat) :
    dumpsIn python L depth leaf.value = some leaf.chars := by
  cases leaf with
  | null => rfl
  | count n =>
    have hlength : (Nat.toDigits 10 n).length ≤ MAX_STR_DIGITS :=
      (Nat.length_toDigits_le_iff (by decide) (by decide)).mpr h
    have hpos : ¬ ((n : Int) < 0) := by omega
    show intText (n : Int) = _
    unfold intText
    rw [Int.natAbs_natCast, if_neg (not_lt.mpr hlength), if_neg hpos]
    rfl
  | text s =>
    show some (quoted (str s)) = _
    rw [quoted_plain h]
    rfl

theorem dumpsFields_record (h : fields.Writes) (depth : Nat) :
    dumpsFields python L depth (record fields) =
      some (fields.map fun e => (str e.1, e.2.chars)) := by
  induction fields with
  | nil => rfl
  | cons e fields ih =>
    have he := h e List.mem_cons_self
    have hrest := ih fun e he => h e (List.mem_cons_of_mem _ he)
    show dumpsFields python L depth ((str e.1, e.2.value) :: record fields) = _
    rw [dumpsFields, dumpsIn_leaf he.2, hrest]
    rfl

/-! ## Reading -/

section reading

variable {stack : List (Frame python.Float)}

theorem scan_chars {isKey : Bool} {l : List Char} {chars : Str}
    (h : ∀ c ∈ l, (0x20 ≤ c.toNat ∧ c.toNat ≤ 0x7e) ∧ c ≠ '"' ∧ c ≠ '\\') :
    scanFrom python (.text isKey stack chars false) l =
      .text isKey stack (chars ++ l.map codePoint) false := by
  induction l generalizing chars with
  | nil => simp [scanFrom]
  | cons c l ih =>
    rw [List.forall_mem_cons] at h
    obtain ⟨⟨⟨hlow, -⟩, hquote, hback⟩, hrest⟩ := h
    have hstep : step python (.text isKey stack chars false) c =
        .text isKey stack (chars ++ [codePoint c]) false := by
      simp [step, hquote, hback, not_lt.mpr hlow]
    unfold scanFrom at ih ⊢
    rw [List.foldl_cons, hstep, ih hrest]
    simp

/-- After its opening quote a plain text is read to its end. -/
theorem scan_quoted {isKey : Bool} {s : String} (h : Plain s) (rest : List Char) :
    scanFrom python (.text isKey stack [] false) (s.toList ++ '"' :: rest) =
      scanFrom python (endText isKey stack (str s)) rest := by
  rw [scanFrom_append, scan_chars h, List.nil_append]
  rfl

/-- A character that ends a number in a record. -/
def Delimits (c : Char) : Prop := c = ',' ∨ c = '}' ∨ json.isSpace c = true

theorem step_complete (v : PyValue python.Float) (c : Char) :
    step python (complete stack v) c = stepAfter python (complete stack v) c := by
  unfold complete
  split <;> rfl

theorem Delimits.not_in_number {c : Char} (h : Delimits c) :
    NumberPart.next .zero c = none ∧ NumberPart.next .whole c = none := by
  rcases h with rfl | rfl | h
  · exact ⟨rfl, rfl⟩
  · exact ⟨rfl, rfl⟩
  · simp only [json.isSpace, Bool.or_eq_true, decide_eq_true_eq] at h
    rcases h with ((rfl | rfl) | rfl) | rfl
    · exact ⟨rfl, rfl⟩
    · exact ⟨rfl, rfl⟩
    · exact ⟨rfl, rfl⟩
    · exact ⟨rfl, rfl⟩

theorem scan_digits {l : List Char} {read : List Char} (h : ∀ c ∈ l, c.isDigit = true) :
    scanFrom python (.number stack .whole read) l = .number stack .whole (read ++ l) := by
  induction l generalizing read with
  | nil => simp [scanFrom]
  | cons c l ih =>
    rw [List.forall_mem_cons] at h
    have hstep : step python (.number stack .whole read) c =
        .number stack .whole (read ++ [c]) := by
      simp [step, NumberPart.next, h.1]
    unfold scanFrom at ih ⊢
    rw [List.foldl_cons, hstep, ih h.2]
    simp

theorem digitsOf_digits {l : List Char} (h : ∀ c ∈ l, c.isDigit = true) : digitsOf l = l := by
  have htake : l.takeWhile (fun c => c.isDigit || c = '-') = l :=
    List.takeWhile_eq_self_iff.mpr fun c hc => by simp [h c hc]
  unfold digitsOf
  rw [htake]
  exact List.filter_eq_self.mpr h

/-- The digits of a count, and what ends them, are read as the count. -/
theorem scan_count {n : Nat} (hn : n < 10 ^ MAX_STR_DIGITS) {c : Char} (hc : Delimits c)
    (rest : List Char) :
    scanFrom python (.expect .value stack) (Nat.toDigits 10 n ++ c :: rest) =
      scanFrom python (complete stack (.int n)) (c :: rest) := by
  have hdigits : ∀ d ∈ Nat.toDigits 10 n, d.isDigit = true := fun d hd =>
    Nat.isDigit_of_mem_toDigits (by decide) (by decide) hd
  have hlength : (Nat.toDigits 10 n).length ≤ MAX_STR_DIGITS :=
    (Nat.length_toDigits_le_iff (by decide) (by decide)).mpr hn
  obtain ⟨first, more, hl⟩ := List.exists_cons_of_ne_nil (Nat.toDigits_ne_nil (b := 10) (n := n))
  have hstart : ∃ part, scanFrom python (.expect .value stack) (Nat.toDigits 10 n) =
      .number stack part (Nat.toDigits 10 n) ∧ (part = .zero ∨ part = .whole) := by
    have hspace : json.isSpace first = false :=
      json.isSpace_of_isDigit (hdigits first (by simp [hl]))
    by_cases hfirst : first = '0'
    · obtain rfl : n = 0 := json.head_toDigits n (by rw [hl, hfirst]; rfl)
      exact ⟨.zero, rfl, .inl rfl⟩
    · refine ⟨.whole, ?_, .inr rfl⟩
      have hne : ∀ d : Char, d.isDigit = false → first ≠ d := by
        rintro d hd rfl
        rw [hdigits first (by simp [hl])] at hd
        cases hd
      have hstep : step python (.expect .value stack) first = .number stack .whole [first] := by
        show stepAt python .value stack first = _
        unfold stepAt
        rw [if_neg (by simp [hspace])]
        simp [startValue, hfirst, hdigits first (by simp [hl]), hne '"' (by decide),
          hne '{' (by decide), hne '[' (by decide), hne 'n' (by decide), hne 't' (by decide),
          hne 'f' (by decide), hne 'N' (by decide), hne 'I' (by decide), hne '-' (by decide)]
      have hmore : ∀ d ∈ more, d.isDigit = true := fun d hd => hdigits d (by simp [hl, hd])
      rw [hl]
      unfold scanFrom
      rw [List.foldl_cons, hstep]
      exact scan_digits hmore
  obtain ⟨part, hpart, hkind⟩ := hstart
  have hint : intOf (Nat.toDigits 10 n) = n := by
    have hhead : (Nat.toDigits 10 n).head? ≠ some '-' := by
      rw [hl, List.head?_cons]
      rintro hminus
      cases hminus
      exact absurd (hdigits '-' (by simp [hl])) (by decide)
    unfold intOf
    rw [digitsOf_digits hdigits, Nat.ofDigitChars_ten_toDigits]
    exact if_neg hhead
  have hend : endNumber python.parse_float stack part (Nat.toDigits 10 n) =
      complete stack (.int n) := by
    rcases hkind with rfl | rfl <;>
      rw [endNumber, digitsOf_digits hdigits, if_neg (not_lt.mpr hlength), hint]
  have hstep : step python (.number stack part (Nat.toDigits 10 n)) c =
      step python (complete stack (.int n)) c := by
    have hnext : part.next c = none := by
      rcases hkind with rfl | rfl
      · exact hc.not_in_number.1
      · exact hc.not_in_number.2
    have hminus : ¬ (part = .minus ∧ c = 'I') := by
      rcases hkind with rfl | rfl <;> simp
    rw [step_complete, ← hend]
    unfold step
    dsimp only
    rw [if_neg hminus, hnext]
  rw [scanFrom_append, hpart]
  unfold scanFrom
  rw [List.foldl_cons, List.foldl_cons, hstep]

theorem scan_leaf {leaf : Leaf} (h : leaf.Writes) {c : Char} (hc : Delimits c) (rest : List Char) :
    scanFrom python (.expect .value stack) (leaf.chars ++ c :: rest) =
      scanFrom python (complete stack leaf.value) (c :: rest) := by
  cases leaf with
  | null => rfl
  | count n => exact scan_count h hc rest
  | text s =>
    have htext : (Leaf.text s).chars ++ c :: rest = '"' :: (s.toList ++ '"' :: (c :: rest)) := by
      simp [Leaf.chars]
    rw [htext]
    exact scan_quoted h (c :: rest)

/-- A field is read into the dict that is open. -/
theorem scan_field {items : PyDict python.Float} {place : Place} {key : Option Str}
    (hplace : place = .firstKey ∨ place = .key) {e : String × Leaf} (he : Plain e.1 ∧ e.2.Writes)
    {c : Char} (hc : Delimits c) (rest : List Char) :
    scanFrom python (.expect place (.dict items key :: stack)) (fieldText L e ++ c :: rest) =
      scanFrom python
        (.expect .next (.dict (dict.setItem (str e.1) e.2.value items) none :: stack))
        (c :: rest) := by
  have htext : fieldText L e ++ c :: rest =
      '"' :: (e.1.toList ++ '"' :: (':' :: (L.afterColon ++ (e.2.chars ++ c :: rest)))) := by
    simp [fieldText]
  have hopen : step python (.expect place (.dict items key :: stack)) '"' =
      .text true (.dict items key :: stack) [] false := by
    rcases hplace with rfl | rfl <;> rfl
  have hkey : scanFrom python (.expect place (.dict items key :: stack))
      (fieldText L e ++ c :: rest) =
      scanFrom python (.text true (.dict items key :: stack) [] false)
        (e.1.toList ++ '"' :: (':' :: (L.afterColon ++ (e.2.chars ++ c :: rest)))) := by
    rw [htext]
    unfold scanFrom
    rw [List.foldl_cons, hopen]
  have hcolon : scanFrom python
      (endText true (.dict items key :: stack) (str e.1))
      (':' :: (L.afterColon ++ (e.2.chars ++ c :: rest))) =
      scanFrom python (.expect .value (.dict items (some (str e.1)) :: stack))
        (L.afterColon ++ (e.2.chars ++ c :: rest)) := rfl
  rw [hkey, scan_quoted he.1, hcolon, scanFrom_append, scanFrom_spaces L.afterColon_space,
    scan_leaf he.2 hc]
  rfl

/-- What can stand after a field: a comma, or the spaces and the bracket at the end. -/
theorem delimits_close : ∃ c rest, L.beforeClose 0 ++ ['}'] = c :: rest ∧ Delimits c := by
  rcases hclose : L.beforeClose 0 with _ | ⟨c, rest⟩
  · exact ⟨'}', [], rfl, .inr (.inl rfl)⟩
  · have hspace := L.beforeClose_space 0
    rw [hclose, List.all_cons, Bool.and_eq_true] at hspace
    exact ⟨c, rest ++ ['}'], rfl, .inr (.inr hspace.1)⟩

theorem scan_fields {items : PyDict python.Float} {place : Place} {key : Option Str}
    (hplace : place = .firstKey ∨ place = .key) (hne : fields ≠ []) (hwrites : fields.Writes)
    (hnodup : ((items ++ record fields).map Prod.fst).Nodup) :
    scanFrom python (.expect place (.dict items key :: stack))
        (joined (',' :: L.afterComma 1) (fields.map (fieldText L)) ++ (L.beforeClose 0 ++ ['}'])) =
      complete stack (.dict (items ++ record fields)) := by
  induction fields generalizing items place key with
  | nil => exact absurd rfl hne
  | cons e fields ih =>
    have he := hwrites e List.mem_cons_self
    have hrecord : record (e :: fields) =
        (str e.1, e.2.value) :: record (F := python.Float) fields := rfl
    have hnew : str e.1 ∉ items.map Prod.fst := by
      rw [hrecord, List.map_append, List.map_cons, List.nodup_append] at hnodup
      exact fun hmem => hnodup.2.2 _ hmem _ List.mem_cons_self rfl
    have hset := dict.setItem_of_notMem hnew (e.2.value : PyValue python.Float)
    rcases fields with _ | ⟨e', fields⟩
    · obtain ⟨c, rest, hclose, hc⟩ := @delimits_close L
      show scanFrom python _ (fieldText L e ++ (L.beforeClose 0 ++ ['}'])) = _
      rw [hclose, scan_field hplace he hc, ← hclose, hset, scanFrom_append,
        scanFrom_spaces (L.beforeClose_space 0)]
      rfl
    · have hjoined : joined (',' :: L.afterComma 1) ((e :: e' :: fields).map (fieldText L)) ++
          (L.beforeClose 0 ++ ['}']) = fieldText L e ++ ',' :: (L.afterComma 1 ++
            (joined (',' :: L.afterComma 1) ((e' :: fields).map (fieldText L)) ++
              (L.beforeClose 0 ++ ['}']))) := by
        simp [joined]
      have hitems : items ++ record (e :: e' :: fields) =
          (items ++ [(str e.1, e.2.value)]) ++ record (F := python.Float) (e' :: fields) := by
        rw [hrecord]
        simp
      have hcomma : ∀ rest, scanFrom python
          (.expect .next (.dict (items ++ [(str e.1, e.2.value)]) none :: stack)) (',' :: rest) =
          scanFrom python
            (.expect .key (.dict (items ++ [(str e.1, e.2.value)]) none :: stack)) rest :=
        fun _ => rfl
      rw [hitems] at hnodup ⊢
      rw [hjoined, scan_field hplace he (.inl rfl), hset, hcomma, scanFrom_append,
        scanFrom_spaces (L.afterComma_space 1)]
      exact ih (.inr rfl) (by simp) (fun f hf => hwrites f (List.mem_cons_of_mem _ hf)) hnodup

theorem scanFrom_done {after : List Char} (h : after.all json.isSpace = true)
    (v : PyValue python.Float) : scanFrom python (.done v) after = .done v := by
  induction after with
  | nil => rfl
  | cons c after ih =>
    rw [List.all_cons, Bool.and_eq_true] at h
    have hstep : step python (.done v) c = .done v := if_pos h.1
    unfold scanFrom at ih ⊢
    rw [List.foldl_cons, hstep]
    exact ih h.2

/-- A record is read back from its text, with spaces before and after it. -/
theorem loads_recordText {before after : List Char} (hbefore : before.all json.isSpace = true)
    (hafter : after.all json.isSpace = true) (hne : fields ≠ []) (hwrites : fields.Writes)
    (hnodup : ((record (F := python.Float) fields).map Prod.fst).Nodup) :
    loads python (before ++ (recordText L fields ++ after)) = .value (.dict (record fields)) := by
  have htexts : fields.map (fieldText L) ≠ [] := by simpa using hne
  have htext : recordText L fields ++ after = '{' :: (L.afterOpen 1 ++
      ((joined (',' :: L.afterComma 1) (fields.map (fieldText L)) ++
        (L.beforeClose 0 ++ ['}'])) ++ after)) := by
    simp [recordText, enclosed, htexts]
  have hopen : ∀ rest, scanFrom python (.expect .value []) ('{' :: rest) =
      scanFrom python (.expect .firstKey [.dict [] none]) rest := by
    intro rest
    have hstep : step python (.expect .value []) '{' = .expect .firstKey [.dict [] none] := by
      show startValue.opens python [] .firstKey (.dict [] none) = _
      exact if_pos python.loads_pos
    unfold scanFrom
    rw [List.foldl_cons, hstep]
  unfold loads
  rw [scanFrom_append, scanFrom_spaces hbefore, htext, hopen, scanFrom_append,
    scanFrom_spaces (L.afterOpen_space 1), scanFrom_append,
    scan_fields (.inl rfl) hne hwrites (by simpa using hnodup)]
  show finish python (scanFrom python (.done _) after) = _
  rw [scanFrom_done hafter]
  rfl

end reading

/-! ## Records as dicts -/

theorem str_inj {s t : String} : str s = str t ↔ s = t := by
  constructor
  · intro h
    have hinj : Function.Injective codePoint := by
      intro c d hcd
      have hnat : c.toNat = d.toNat := congrArg (fun point : CodePoint => point.val) hcd
      rw [← Char.ofNat_toNat c, ← Char.ofNat_toNat d, hnat]
    exact String.toList_inj.mp (List.map_injective_iff.mpr hinj h)
  · rintro rfl
    rfl

theorem get_record {F : Type} (field : String) (fields : Fields) :
    sorted_map.get (str field) (record (F := F) fields) =
      (sorted_map.get field fields).map Leaf.value := by
  induction fields with
  | nil => rfl
  | cons e fields ih =>
    have hrecord : record (e :: fields) = (str e.1, e.2.value) :: record (F := F) fields := rfl
    rw [hrecord, sorted_map.get_cons, sorted_map.get_cons, ih]
    by_cases h : e.1 = field
    · simp [h]
    · simp [h, str_inj]

theorem distinctKeys_record {F : Type} (h : (fields.map Prod.fst).Nodup) :
    DistinctKeys (.dict (record (F := F) fields)) := by
  constructor
  · have hkeys : (record (F := F) fields).map Prod.fst = (fields.map Prod.fst).map str := by
      simp [record]
    rw [hkeys]
    exact h.map fun s t hst => str_inj.mp hst
  · clear h
    induction fields with
    | nil => trivial
    | cons e fields ih =>
      refine ⟨?_, ih⟩
      cases e.2 <;> trivial

theorem depth_record {F : Type} (fields : Fields) :
    depth (.dict (record (F := F) fields)) = 1 := by
  have hfields : depthOfFields (record (F := F) fields) = 0 := by
    induction fields with
    | nil => rfl
    | cons e fields ih =>
      show max (depth e.2.value) (depthOfFields (record fields)) = 0
      rw [ih]
      cases e.2 <;> rfl
  rw [depth, hfields]

theorem copies_record (fields : Fields) : copies python (.dict (record fields)) = true := by
  unfold copies
  rw [depth_record]
  exact decide_eq_true python.copy_pos

/-- A record is written with its keys in order. -/
theorem dumpsAs_record {fields' : Fields} (hperm : fields'.Perm fields) (hwrites : fields.Writes)
    (hsorted : sorted_map.Sorted (record (F := python.Float) fields)) :
    dumpsAs python L (.dict (record fields')) = some (recordText L fields) := by
  have hwrites' : fields'.Writes := fun e he => hwrites e (hperm.mem_iff.mp he)
  have hsorted' : sorted_map.Sorted (fields.map fun e => (str e.1, e.2.chars)) := by
    unfold sorted_map.Sorted record at *
    rw [List.pairwise_map] at hsorted ⊢
    exact hsorted
  have htexts : (fields.map ((fun e : Str × List Char =>
      quoted e.1 ++ (':' :: (L.afterColon ++ e.2))) ∘ fun e => (str e.1, e.2.chars))) =
      fields.map (fieldText L) := by
    refine List.map_congr_left fun e he => ?_
    rw [Function.comp_apply, quoted_plain (hwrites e he).1]
    simp [fieldText]
  have hdepth : 1 ≤ python.dumps_depth := python.dumps_pos
  unfold dumpsAs
  rw [depth_record, if_pos hdepth, dumpsIn, dumpsFields_record hwrites',
    Option.map_some, sorted_map.ofList_eq_of_perm hsorted' (hperm.map _), List.map_map, htexts]
  rfl

/-- A count of too many digits is not written. -/
theorem dumpsAs_long_count {key : String} {n : Nat} (hmem : (key, Leaf.count n) ∈ fields)
    (hn : ¬ n < 10 ^ MAX_STR_DIGITS) : dumpsAs python L (.dict (record fields)) = none := by
  have hint : intText (n : Int) = none := by
    have hlength : MAX_STR_DIGITS < (Nat.toDigits 10 n).length := by
      rw [← not_le, Nat.length_toDigits_le_iff (by decide) (by decide)]
      exact hn
    unfold intText
    rw [Int.natAbs_natCast]
    exact if_pos hlength
  have hfields : ∀ depth, dumpsFields python L depth (record fields) = none := by
    intro depth
    induction fields with
    | nil => exact absurd hmem List.not_mem_nil
    | cons e fields ih =>
      have hcons : dumpsFields python L depth (record (e :: fields)) =
          (dumpsIn python L depth e.2.value).bind fun text =>
            (dumpsFields python L depth (record fields)).bind fun texts =>
              some ((str e.1, text) :: texts) := rfl
      rw [hcons]
      rcases List.mem_cons.mp hmem with rfl | hmem
      · have hcount : dumpsIn python L depth (Leaf.count n).value = none := hint
        rw [hcount]
        rfl
      · rw [ih hmem]
        cases dumpsIn python L depth e.2.value <;> rfl
  have hdepth : 1 ≤ python.dumps_depth := python.dumps_pos
  unfold dumpsAs
  rw [depth_record, if_pos hdepth, dumpsIn, hfields]
  rfl

theorem same_leaf (leaf : Leaf) : same python leaf.value leaf.value = true := by
  cases leaf with
  | null => rfl
  | count n => simp [Leaf.value, same, asNumber, sameNumber]
  | text s => simp [Leaf.value, same]

theorem eq_leaf (leaf : Leaf) : eq python leaf.value leaf.value = true := by
  have heq : eq python leaf.value leaf.value = same python leaf.value leaf.value := by
    cases leaf <;> rfl
  rw [heq, same_leaf]

/-- Records with the same fields are equal. -/
theorem eq_record {fields' : Fields} (hperm : fields.Perm fields')
    (hnodup : (fields'.map Prod.fst).Nodup) :
    eq python (.dict (record fields)) (.dict (record fields')) = true := by
  have hfields : ∀ part : Fields, (∀ e ∈ part, e ∈ fields') →
      sameFields python (record part) (record fields') = true := by
    intro part hpart
    induction part with
    | nil => rfl
    | cons e part ih =>
      rw [List.forall_mem_cons] at hpart
      have hget : sorted_map.get (str e.1) (record (F := python.Float) fields') =
          some e.2.value := by
        rw [get_record, sorted_map.get_of_mem hnodup hpart.1]
        rfl
      have hcons : record (e :: part) = (str e.1, e.2.value) :: record (F := python.Float) part :=
        rfl
      rw [hcons, sameFields, hget, ih hpart.2, Bool.and_true]
      exact same_leaf e.2
  have hlength : (record (F := python.Float) fields).length =
      (record (F := python.Float) fields').length := by
    simp [record, hperm.length_eq]
  show same python (.dict (record fields)) (.dict (record fields')) = true
  rw [same, hfields fields fun e he => hperm.mem_iff.mp he, hlength]
  simp

end python_json
