-- The reader reads back what the printer prints, for every layout and every escaper.
import GuiShell.Json.Text

namespace json

/-! ## Numbers -/

theorem isNatText_iff (l : List Char) :
    isNatText l = true ↔ l ≠ [] ∧ (∀ c ∈ l, c.isDigit = true) ∧ (l.head? = some '0' → l = ['0']) := by
  unfold isNatText
  split
  · simp
  · simp
  · rename_i c rest hne
    simp only [Bool.and_eq_true, decide_eq_true_eq, List.all_eq_true, ne_eq, List.head?_cons,
      Option.some.injEq, List.mem_cons, forall_eq_or_imp]
    constructor
    · rintro ⟨⟨h0, hc⟩, hr⟩
      exact ⟨by simp, ⟨hc, hr⟩, fun h => absurd h h0⟩
    · rintro ⟨_, ⟨hc, hr⟩, h0⟩
      refine ⟨⟨fun h => ?_, hc⟩, hr⟩
      have := h0 h
      simp only [List.cons.injEq] at this
      exact hne this.1 this.2

theorem head_toDigits (n : Nat) (h : (Nat.toDigits 10 n).head? = some '0') : n = 0 := by
  induction n using Nat.strongRecOn with
  | _ n ih =>
    rw [Nat.toDigits_eq_if (by decide)] at h
    split at h
    · rename_i hlt
      have hdigit : ∀ m < 10, Nat.digitChar m = '0' → m = 0 := by decide
      exact hdigit n hlt (by simpa using h)
    · rename_i hge
      have hne : Nat.toDigits 10 (n / 10) ≠ [] := Nat.toDigits_ne_nil
      rw [List.head?_append_of_ne_nil _ hne] at h
      have := ih (n / 10) (by omega) h
      omega

theorem isNatText_toDigits (n : Nat) : isNatText (Nat.toDigits 10 n) = true := by
  rw [isNatText_iff]
  refine ⟨Nat.toDigits_ne_nil, fun c hc => Nat.isDigit_of_mem_toDigits (by decide) (by decide) hc, ?_⟩
  intro h
  rw [head_toDigits n h]
  rfl

theorem toDigits_ne_minus (n : Nat) (l : List Char) : Nat.toDigits 10 n ≠ '-' :: l := by
  intro h
  have := Nat.isDigit_of_mem_toDigits (b := 10) (n := n) (c := '-') (by decide) (by decide)
    (by rw [h]; exact List.mem_cons_self)
  exact absurd this (by decide)

theorem readInt_of_ne_minus (l : List Char) (h : ∀ t, l ≠ '-' :: t) :
    readInt l = if isNatText l then some (Nat.ofDigitChars 10 l 0 : Int) else none := by
  unfold readInt
  split
  · rename_i ds
    exact absurd rfl (h ds)
  · rfl

theorem readInt_intText (i : Int) : readInt (intText i) = some i := by
  cases i with
  | ofNat n =>
    rw [intText, readInt_of_ne_minus _ (toDigits_ne_minus n), isNatText_toDigits,
      Nat.ofDigitChars_ten_toDigits]
    rfl
  | negSucc n =>
    have hne : Nat.toDigits 10 (n + 1) ≠ ['0'] := by
      intro h
      have := head_toDigits (n + 1) (by rw [h]; rfl)
      omega
    simp only [intText, readInt, isNatText_toDigits, Nat.ofDigitChars_ten_toDigits, Bool.true_and,
      decide_eq_true_eq, ne_eq, hne, not_false_eq_true, if_true]
    rfl

theorem readNumberText_float (t : FloatText) : readNumberText t.chars = some (.float t) := by
  obtain ⟨l, h⟩ := t
  have hn : readInt l = none := by
    rw [Bool.and_eq_true] at h
    simpa using h.2
  unfold readNumberText
  split
  · rename_i i hi
    rw [hn] at hi
    cases hi
  · exact dif_pos h

theorem readNumberText_text (n : Number) : readNumberText n.text = some n := by
  cases n with
  | int i => simp [Number.text, readNumberText, readInt_intText]
  | float t => exact readNumberText_float t

theorem isNumberChar_of_isDigit {c : Char} (h : c.isDigit = true) : isNumberChar c = true := by
  simp [isNumberChar, h]

theorem isNumberChar_of_isDigits {l : List Char} (h : isDigits l = true) :
    ∀ c ∈ l, isNumberChar c = true := by
  simp only [isDigits, Bool.and_eq_true, List.all_eq_true] at h
  exact fun c hc => isNumberChar_of_isDigit (h.2 c hc)

theorem isNumberChar_of_isExponent {l : List Char} (h : isExponent l = true) :
    ∀ c ∈ l, isNumberChar c = true := by
  unfold isExponent at h
  split at h
  · intro c hc
    rcases List.mem_cons.mp hc with rfl | hc
    · rfl
    · exact isNumberChar_of_isDigits h c hc
  · intro c hc
    rcases List.mem_cons.mp hc with rfl | hc
    · rfl
    · exact isNumberChar_of_isDigits h c hc
  · exact isNumberChar_of_isDigits h

/-- The head of what `dropWhile` leaves fails the test. -/
theorem dropWhile_head {p : Char → Bool} {l : List Char} {c : Char} {t : List Char}
    (h : l.dropWhile p = c :: t) : p c = false := by
  have := List.head?_dropWhile_not p l
  rw [h] at this
  exact this

theorem isNumberChar_of_isUnsignedText {l : List Char} (h : isUnsignedText l = true) :
    ∀ c ∈ l, isNumberChar c = true := by
  simp only [isUnsignedText, Bool.and_eq_true] at h
  obtain ⟨⟨hwhole, hfraction⟩, hexponent⟩ := h
  intro c hc
  rw [← List.takeWhile_append_dropWhile (p := fun c => !isExponentMark c) (l := l)] at hc
  rcases List.mem_append.mp hc with hc | hc
  · rw [← List.takeWhile_append_dropWhile (p := fun c => decide (c ≠ '.'))
      (l := l.takeWhile fun c => !isExponentMark c)] at hc
    rcases List.mem_append.mp hc with hc | hc
    · exact isNumberChar_of_isDigit (((isNatText_iff _).mp hwhole).2.1 c hc)
    · split at hfraction
      · rename_i heq
        rw [heq] at hc
        simp at hc
      · rename_i x fraction heq
        rw [heq] at hc
        rcases List.mem_cons.mp hc with rfl | hc
        · have := dropWhile_head heq
          simp only [ne_eq, decide_not, Bool.not_eq_false', decide_eq_true_eq] at this
          simp [isNumberChar, this]
        · exact isNumberChar_of_isDigits hfraction c hc
  · split at hexponent
    · rename_i heq
      rw [heq] at hc
      simp at hc
    · rename_i x exponent heq
      rw [heq] at hc
      rcases List.mem_cons.mp hc with rfl | hc
      · have := dropWhile_head heq
        simp only [Bool.not_eq_false', isExponentMark, Bool.or_eq_true, decide_eq_true_eq] at this
        rcases this with rfl | rfl <;> rfl
      · exact isNumberChar_of_isExponent hexponent c hc

theorem dropSign_cases (l : List Char) : l = dropSign l ∨ l = '-' :: dropSign l := by
  unfold dropSign
  split <;> simp

theorem isNumberChar_of_isNumberText {l : List Char} (h : isNumberText l = true) :
    ∀ c ∈ l, isNumberChar c = true := by
  have hu := isNumberChar_of_isUnsignedText h
  rcases dropSign_cases l with hl | hl
  · rw [hl]; exact hu
  · rw [hl]
    intro c hc
    rcases List.mem_cons.mp hc with rfl | hc
    · rfl
    · exact hu c hc

theorem isUnsignedText_head {l : List Char} (h : isUnsignedText l = true) :
    ∃ c t, l = c :: t ∧ c.isDigit = true := by
  simp only [isUnsignedText, Bool.and_eq_true] at h
  obtain ⟨hne, hd, _⟩ := (isNatText_iff _).mp h.1.1
  rcases hw : (l.takeWhile fun c => !isExponentMark c).takeWhile (fun c => decide (c ≠ '.')) with
    _ | ⟨c, t⟩
  · exact absurd hw hne
  · obtain ⟨u, hu⟩ : ∃ u, l = c :: u := by
      have h1 := List.takeWhile_prefix (fun c => decide (c ≠ '.'))
        (l := l.takeWhile fun c => !isExponentMark c)
      have h2 := h1.trans (List.takeWhile_prefix (fun c => !isExponentMark c))
      rw [hw] at h2
      obtain ⟨u, hu⟩ := h2
      exact ⟨t ++ u, by rw [← hu]; rfl⟩
    exact ⟨c, u, hu, hd c (by rw [hw]; exact List.mem_cons_self)⟩

/-- A number text starts with a sign or a digit. -/
theorem isNumberText_head {l : List Char} (h : isNumberText l = true) :
    ∃ c t, l = c :: t ∧ (c = '-' ∨ c.isDigit = true) := by
  rcases dropSign_cases l with hl | hl
  · obtain ⟨c, t, ht, hc⟩ := isUnsignedText_head h
    exact ⟨c, t, hl.trans ht, Or.inr hc⟩
  · exact ⟨'-', dropSign l, hl, Or.inl rfl⟩

theorem Number.text_chars (n : Number) : ∀ c ∈ n.text, isNumberChar c = true := by
  cases n with
  | int i =>
    cases i with
    | ofNat n =>
      exact fun c hc => isNumberChar_of_isDigit
        (Nat.isDigit_of_mem_toDigits (by decide) (by decide) hc)
    | negSucc n =>
      intro c hc
      rcases List.mem_cons.mp hc with rfl | hc
      · rfl
      · exact isNumberChar_of_isDigit (Nat.isDigit_of_mem_toDigits (by decide) (by decide) hc)
  | float t =>
    have := t.shaped
    rw [Bool.and_eq_true] at this
    exact isNumberChar_of_isNumberText this.1

theorem Number.text_head (n : Number) :
    ∃ c t, n.text = c :: t ∧ (c = '-' ∨ c.isDigit = true) := by
  cases n with
  | int i =>
    cases i with
    | ofNat n =>
      have hne : Nat.toDigits 10 n ≠ [] := Nat.toDigits_ne_nil
      obtain ⟨c, t, ht⟩ := List.exists_cons_of_ne_nil hne
      refine ⟨c, t, ht, Or.inr ?_⟩
      exact Nat.isDigit_of_mem_toDigits (b := 10) (n := n) (by decide) (by decide)
        (by rw [ht]; exact List.mem_cons_self)
    | negSucc n => exact ⟨'-', _, rfl, Or.inl rfl⟩
  | float t =>
    have := t.shaped
    rw [Bool.and_eq_true] at this
    exact isNumberText_head this.1

/-! ## Spaces -/

theorem skipSpace_append {w : List Char} (hw : w.all isSpace = true) (l : List Char) :
    skipSpace (w ++ l) = skipSpace l :=
  List.dropWhile_append_of_pos (List.all_eq_true.mp hw)

theorem skipSpace_cons {c : Char} (h : isSpace c = false) (l : List Char) :
    skipSpace (c :: l) = c :: l := by
  simp [skipSpace, h]

theorem isSpace_of_isDigit {c : Char} (h : c.isDigit = true) : isSpace c = false := by
  cases hs : isSpace c with
  | false => rfl
  | true =>
    simp only [isSpace, Bool.or_eq_true, decide_eq_true_eq] at hs
    rcases hs with ((rfl | rfl) | rfl) | rfl <;> exact absurd h (by decide)

/-! ## Strings -/

variable (E : Escaper)

theorem Escaper.escape_ne_nil (c : Char) : E.escape c ≠ [] := by
  intro h
  have := E.read_escape c []
  rw [h] at this
  simp [readChar] at this

theorem Escaper.escape_head (c : Char) (l : List Char) :
    (E.escape c ++ l).head? ≠ some '"' := by
  intro h
  have := E.read_escape c l
  obtain ⟨t, ht⟩ : ∃ t, E.escape c ++ l = '"' :: t := by
    rcases hl : E.escape c ++ l with _ | ⟨x, t⟩
    · simp [hl] at h
    · rw [hl] at h
      simp only [List.head?_cons, Option.some.injEq] at h
      exact ⟨t, by rw [h]⟩
  rw [ht] at this
  simp [readChar] at this

theorem readString_escapes (cs : List Char) (fuel : Nat) (rest : List Char)
    (hf : cs.length < fuel) :
    readString fuel (cs.flatMap E.escape ++ '"' :: rest) = some (cs, rest) := by
  induction cs generalizing fuel with
  | nil =>
    cases fuel with
    | zero => omega
    | succ fuel => simp [readString]
  | cons c cs ih =>
    cases fuel with
    | zero => omega
    | succ fuel =>
      simp only [List.length_cons] at hf
      rw [List.flatMap_cons, List.append_assoc, readString, if_neg (E.escape_head c _),
        E.read_escape]
      simp [ih fuel (by omega)]

theorem length_flatMap_escape (cs : List Char) : cs.length ≤ (cs.flatMap E.escape).length := by
  induction cs with
  | nil => simp
  | cons c cs ih =>
    have := List.length_pos_iff.mpr (E.escape_ne_nil c)
    simp only [List.length_cons, List.flatMap_cons, List.length_append]
    omega

/-- What stands after the opening quote of a printed string is read as the string. -/
theorem readString_printString (s : String) (rest : List Char) :
    readString ((s.toList.flatMap E.escape ++ ['"'] ++ rest).length + 1)
      (s.toList.flatMap E.escape ++ ['"'] ++ rest) = some (s.toList, rest) := by
  rw [List.append_assoc]
  refine readString_escapes E s.toList _ rest ?_
  have := length_flatMap_escape E s.toList
  simp only [List.length_append]
  omega

/-! ## Values -/

mutual
/-- The fuel that the reader needs for the text of a value. -/
def Value.size : Value → Nat
  | .array items => 1 + sizeItems items
  | .object fields => 1 + sizeFields fields
  | _ => 1
def sizeItems : List Value → Nat
  | [] => 0
  | v :: items => 1 + v.size + sizeItems items
def sizeFields : List (String × Value) → Nat
  | [] => 0
  | (_, v) :: fields => 1 + v.size + sizeFields fields
end

/-- No character that a number could go on with. -/
def NumberEnd (rest : List Char) : Prop := ∀ c t, rest = c :: t → isNumberChar c = false

theorem numberEnd_nil : NumberEnd [] := by
  intro c t h
  cases h

theorem numberEnd_cons {c : Char} {l : List Char} (h : isNumberChar c = false) :
    NumberEnd (c :: l) := by
  intro c' t h'
  cases h'
  exact h

theorem isNumberChar_of_isSpace {c : Char} (h : isSpace c = true) : isNumberChar c = false := by
  simp only [isSpace, Bool.or_eq_true, decide_eq_true_eq] at h
  rcases h with ((rfl | rfl) | rfl) | rfl <;> rfl

theorem numberEnd_spaces {w : List Char} (hw : w.all isSpace = true) {l : List Char}
    (h : NumberEnd l) : NumberEnd (w ++ l) := by
  cases w with
  | nil => exact h
  | cons c w =>
    rw [List.all_cons, Bool.and_eq_true] at hw
    exact numberEnd_cons (isNumberChar_of_isSpace hw.1)

section spaces

attribute [local simp] readValue readFields

theorem readValue_spaces {w : List Char} (hw : w.all isSpace = true) (fuel : Nat)
    (l : List Char) : readValue fuel (w ++ l) = readValue fuel l := by
  cases fuel with
  | zero => rfl
  | succ fuel => rw [readValue, readValue, skipSpace_append hw]

theorem readFields_spaces {w : List Char} (hw : w.all isSpace = true) (fuel : Nat)
    (l : List Char) : readFields fuel (w ++ l) = readFields fuel l := by
  cases fuel with
  | zero => rfl
  | succ fuel => rw [readFields, readFields, skipSpace_append hw]

end spaces

theorem takeWhile_number (n : Number) {rest : List Char} (h : NumberEnd rest) :
    (n.text ++ rest).takeWhile isNumberChar = n.text ∧
      (n.text ++ rest).dropWhile isNumberChar = rest := by
  rw [List.takeWhile_append_of_pos n.text_chars, List.dropWhile_append_of_pos n.text_chars]
  cases rest with
  | nil => simp
  | cons c t => simp [h c t rfl]

theorem readValue_number (n : Number) (fuel : Nat) {rest : List Char} (h : NumberEnd rest) :
    readValue (fuel + 1) (n.text ++ rest) = some (.number n, rest) := by
  obtain ⟨htake, hdrop⟩ := takeWhile_number n h
  obtain ⟨c, t, ht, hc⟩ := n.text_head
  have hspace : isSpace c = false := by
    rcases hc with rfl | hc
    · rfl
    · exact isSpace_of_isDigit hc
  have hne : c ≠ 'n' ∧ c ≠ 't' ∧ c ≠ 'f' ∧ c ≠ '"' ∧ c ≠ '[' ∧ c ≠ '{' := by
    rcases hc with rfl | hc
    · decide
    · refine ⟨?_, ?_, ?_, ?_, ?_, ?_⟩ <;> (rintro rfl; exact absurd hc (by decide))
  rw [readValue, ht, List.cons_append, skipSpace_cons hspace, ← List.cons_append, ← ht]
  obtain ⟨h1, h2, h3, h4, h5, h6⟩ := hne
  split
  all_goals first
    | (rename_i heq; rw [ht, List.cons_append] at heq; simp_all; done)
    | skip
  rw [htake, hdrop, readNumberText_text]
  rfl

variable (L : Layout)

/-- The text of a value starts with no space, and with no closing bracket. -/
theorem print_head (d : Nat) (v : Value) :
    ∃ c t, print L E d v = c :: t ∧ isSpace c = false ∧ c ≠ ']' := by
  cases v with
  | null => exact ⟨_, _, rfl, rfl, by decide⟩
  | bool b => cases b <;> exact ⟨_, _, rfl, rfl, by decide⟩
  | string s => exact ⟨_, _, rfl, rfl, by decide⟩
  | array items => cases items <;> exact ⟨_, _, rfl, rfl, by decide⟩
  | object fields =>
    cases fields with
    | nil => exact ⟨_, _, rfl, rfl, by decide⟩
    | cons e fields => exact ⟨_, _, rfl, rfl, by decide⟩
  | number n =>
    obtain ⟨c, t, ht, hc⟩ := n.text_head
    refine ⟨c, t, ht, ?_⟩
    rcases hc with rfl | hc
    · exact ⟨rfl, by decide⟩
    · exact ⟨isSpace_of_isDigit hc, fun h => by subst h; exact absurd hc (by decide)⟩

/-- The reader reads the text of `v` back, whatever comes after it. -/
def ReadsBack (v : Value) : Prop :=
  ∀ d fuel rest, v.size ≤ fuel → NumberEnd rest →
    readValue fuel (print L E d v ++ rest) = some (v, rest)

theorem numberEnd_items (d e : Nat) (items : List Value) (rest : List Char) :
    NumberEnd (printItems L E d items ++ (L.beforeClose e ++ (']' :: rest))) := by
  cases items with
  | nil => exact numberEnd_spaces (L.beforeClose_space e) (numberEnd_cons rfl)
  | cons v items => exact numberEnd_cons rfl

theorem numberEnd_fields (d e : Nat) (fields : List (String × Value)) (rest : List Char) :
    NumberEnd (printFields L E d fields ++ (L.beforeClose e ++ ('}' :: rest))) := by
  cases fields with
  | nil => exact numberEnd_spaces (L.beforeClose_space e) (numberEnd_cons rfl)
  | cons f fields => exact numberEnd_cons rfl

theorem readItems_print (d e : Nat) (items : List Value) (ih : ∀ v ∈ items, ReadsBack E L v)
    (v : Value) (hv : ReadsBack E L v) (w : List Char) (hw : w.all isSpace = true)
    (fuel : Nat) (rest : List Char) (hf : 1 + v.size + sizeItems items ≤ fuel) :
    readItems fuel (w ++ (print L E d v ++
      (printItems L E d items ++ (L.beforeClose e ++ (']' :: rest))))) =
      some (v :: items, rest) := by
  induction items generalizing v w fuel with
  | nil =>
    cases fuel with
    | zero => omega
    | succ fuel =>
      rw [readItems, readValue_spaces hw, hv d fuel _ (by simp only [sizeItems] at hf; omega)
        (numberEnd_items E L d e [] rest)]
      simp only [printItems, List.nil_append, Option.bind_eq_bind, Option.bind_some]
      rw [skipSpace_append (L.beforeClose_space e), skipSpace_cons rfl]
      rfl
  | cons v' items hi =>
    cases fuel with
    | zero => omega
    | succ fuel =>
      simp only [sizeItems] at hf
      rw [readItems, readValue_spaces hw, hv d fuel _ (by omega)
        (numberEnd_items E L d e (v' :: items) rest)]
      simp only [printItems, List.cons_append, List.append_assoc, Option.bind_eq_bind,
        Option.bind_some]
      rw [skipSpace_cons rfl]
      simp only
      rw [hi (fun x hx => ih x (List.mem_cons_of_mem _ hx)) v' (ih v' List.mem_cons_self)
        (L.afterComma d) (L.afterComma_space d) fuel (by omega)]
      rfl

theorem readFields_print (d e : Nat) (fields : List (String × Value))
    (ih : ∀ k v, (k, v) ∈ fields → ReadsBack E L v) (k : String) (v : Value)
    (hv : ReadsBack E L v) (w : List Char) (hw : w.all isSpace = true) (fuel : Nat)
    (rest : List Char) (hf : 1 + v.size + sizeFields fields ≤ fuel) :
    readFields fuel (w ++ (printString E k ++ (':' :: (L.afterColon ++ (print L E d v ++
      (printFields L E d fields ++ (L.beforeClose e ++ ('}' :: rest)))))))) =
      some ((k, v) :: fields, rest) := by
  induction fields generalizing k v w fuel with
  | nil =>
    cases fuel with
    | zero => omega
    | succ fuel =>
      rw [readFields_spaces hw, readFields, printString, List.cons_append, skipSpace_cons rfl]
      simp only
      rw [readString_printString]
      simp only [Option.bind_eq_bind, Option.bind_some, skipSpace_cons (c := ':') rfl]
      rw [readValue_spaces L.afterColon_space, hv d fuel _
        (by simp only [sizeFields] at hf; omega) (numberEnd_fields E L d e [] rest)]
      simp only [printFields, List.nil_append, Option.bind_some]
      rw [skipSpace_append (L.beforeClose_space e), skipSpace_cons rfl]
      simp
  | cons f fields hi =>
    obtain ⟨k', v'⟩ := f
    cases fuel with
    | zero => omega
    | succ fuel =>
      simp only [sizeFields] at hf
      rw [readFields_spaces hw, readFields, printString, List.cons_append, skipSpace_cons rfl]
      simp only
      rw [readString_printString]
      simp only [Option.bind_eq_bind, Option.bind_some, skipSpace_cons (c := ':') rfl]
      rw [readValue_spaces L.afterColon_space, hv d fuel _ (by omega)
        (numberEnd_fields E L d e ((k', v') :: fields) rest)]
      simp only [printFields, List.cons_append, List.append_assoc, Option.bind_some]
      rw [skipSpace_cons rfl]
      simp only
      rw [hi (fun l x hx => ih l x (List.mem_cons_of_mem _ hx)) k' v' (ih k' v' List.mem_cons_self)
        (L.afterComma d) (L.afterComma_space d) fuel (by omega)]
      simp

theorem readsBack_array (items : List Value) (ih : ∀ v ∈ items, ReadsBack E L v) :
    ReadsBack E L (.array items) := by
  intro d fuel rest hf _
  cases fuel with
  | zero => simp [Value.size] at hf
  | succ fuel =>
    cases items with
    | nil => simp [readValue, print, skipSpace_cons, isSpace]
    | cons v items =>
      obtain ⟨c, t, ht, hc, hne⟩ := print_head E L (d + 1) v
      have hi := readItems_print E L (d + 1) d items (fun x hx => ih x (List.mem_cons_of_mem _ hx))
        v (ih v List.mem_cons_self) (L.afterOpen (d + 1)) (L.afterOpen_space (d + 1)) fuel rest
        (by simp only [Value.size, sizeItems] at hf; omega)
      simp only [print, readValue, List.cons_append, List.append_assoc, List.nil_append,
        skipSpace_cons (c := '[') rfl]
      rw [skipSpace_append (L.afterOpen_space (d + 1)), ht, List.cons_append, skipSpace_cons hc]
      split
      · rename_i heq
        exact absurd (List.cons.inj heq).1 hne
      · rw [← List.cons_append, ← ht, hi]
        rfl

theorem readsBack_object (fields : List (String × Value))
    (ih : ∀ k v, (k, v) ∈ fields → ReadsBack E L v) : ReadsBack E L (.object fields) := by
  intro d fuel rest hf _
  cases fuel with
  | zero => simp [Value.size] at hf
  | succ fuel =>
    cases fields with
    | nil => simp [readValue, print, skipSpace_cons, isSpace]
    | cons f fields =>
      obtain ⟨k, v⟩ := f
      have hi := readFields_print E L (d + 1) d fields
        (fun l x hx => ih l x (List.mem_cons_of_mem _ hx)) k v (ih k v List.mem_cons_self)
        (L.afterOpen (d + 1)) (L.afterOpen_space (d + 1)) fuel rest
        (by simp only [Value.size, sizeFields] at hf; omega)
      simp only [print, readValue, List.cons_append, List.append_assoc, List.nil_append,
        skipSpace_cons (c := '{') rfl]
      rw [skipSpace_append (L.afterOpen_space (d + 1)), printString, List.cons_append,
        skipSpace_cons rfl, ← List.cons_append, ← printString, hi]
      rfl

theorem readsBack (v : Value) : ReadsBack E L v := by
  induction v using Value.induct with
  | null =>
    intro d fuel rest hf _
    obtain ⟨fuel, rfl⟩ := Nat.exists_eq_succ_of_ne_zero (Nat.ne_zero_of_lt hf)
    simp [print, readValue, skipSpace_cons, isSpace]
  | bool b =>
    intro d fuel rest hf _
    obtain ⟨fuel, rfl⟩ := Nat.exists_eq_succ_of_ne_zero (Nat.ne_zero_of_lt hf)
    cases b <;> simp [print, readValue, skipSpace_cons, isSpace]
  | string s =>
    intro d fuel rest hf _
    obtain ⟨fuel, rfl⟩ := Nat.exists_eq_succ_of_ne_zero (Nat.ne_zero_of_lt hf)
    rw [print, printString, List.cons_append, readValue, skipSpace_cons rfl]
    simp only
    rw [readString_printString]
    simp
  | number n =>
    intro d fuel rest hf hr
    obtain ⟨fuel, rfl⟩ := Nat.exists_eq_succ_of_ne_zero (Nat.ne_zero_of_lt hf)
    exact readValue_number n fuel hr
  | array items ih => exact readsBack_array E L items ih
  | object fields ih => exact readsBack_object E L fields ih

/-! ## Whole texts -/

theorem sizeItems_le (d : Nat) (items : List Value)
    (ih : ∀ v ∈ items, ∀ d, v.size ≤ (print L E d v).length) :
    sizeItems items ≤ (printItems L E d items).length := by
  induction items with
  | nil => simp [sizeItems]
  | cons v items hi =>
    have h1 := ih v List.mem_cons_self d
    have h2 := hi fun x hx => ih x (List.mem_cons_of_mem _ hx)
    simp only [sizeItems, printItems, List.length_cons, List.length_append]
    omega

theorem sizeFields_le (d : Nat) (fields : List (String × Value))
    (ih : ∀ k v, (k, v) ∈ fields → ∀ d, v.size ≤ (print L E d v).length) :
    sizeFields fields ≤ (printFields L E d fields).length := by
  induction fields with
  | nil => simp [sizeFields]
  | cons f fields hi =>
    obtain ⟨k, v⟩ := f
    have h1 := ih k v List.mem_cons_self d
    have h2 := hi fun l x hx => ih l x (List.mem_cons_of_mem _ hx)
    simp only [sizeFields, printFields, List.length_cons, List.length_append]
    omega

/-- The text of a value is at least as long as the fuel that its reading needs. -/
theorem size_le (v : Value) (d : Nat) : v.size ≤ (print L E d v).length := by
  induction v using Value.induct generalizing d with
  | null => simp [Value.size, print]
  | bool b => cases b <;> simp [Value.size, print]
  | string s => simp [Value.size, print, printString]
  | number n =>
    obtain ⟨c, t, ht, _⟩ := n.text_head
    simp [Value.size, print, ht]
  | array items ih =>
    cases items with
    | nil => simp [Value.size, print, sizeItems]
    | cons v items =>
      have h1 := ih v List.mem_cons_self (d + 1)
      have h2 := sizeItems_le E L (d + 1) items fun x hx => ih x (List.mem_cons_of_mem _ hx)
      simp only [Value.size, sizeItems, print, List.length_cons, List.length_append,
        List.length_nil]
      omega
  | object fields ih =>
    cases fields with
    | nil => simp [Value.size, print, sizeFields]
    | cons f fields =>
      obtain ⟨k, v⟩ := f
      have h1 := ih k v List.mem_cons_self (d + 1)
      have h2 := sizeFields_le E L (d + 1) fields
        fun l x hx => ih l x (List.mem_cons_of_mem _ hx)
      simp only [Value.size, sizeFields, print, List.length_cons, List.length_append,
        List.length_nil]
      omega

theorem parse_print (d : Nat) (v : Value) :
    parse (String.ofList (print L E d v)) = some v := by
  have h := readsBack E L v d ((print L E d v).length + 1) [] (by have := size_le E L v d; omega)
    numberEnd_nil
  rw [List.append_nil] at h
  unfold parse
  rw [String.toList_ofList, h]
  rfl

/-- Two values with one text are equal. -/
theorem print_inj {d : Nat} {v w : Value} (h : print L E d v = print L E d w) : v = w := by
  have hv := parse_print E L d v
  rw [h, parse_print] at hv
  exact (Option.some.inj hv).symm

end json
