-- The two ways in which programs escape the strings of a JSON text: only what JSON
-- demands (serde_json, the Dart jsonEncode), or everything outside printable ASCII
-- (the Python json.dumps).
import GuiShell.Json.RoundTrip

namespace json

/-! ## Hexadecimal escapes -/

def hex4 (n : Nat) : List Char :=
  [hex.digit (n / 4096 % 16), hex.digit (n / 256 % 16), hex.digit (n / 16 % 16), hex.digit (n % 16)]

theorem readHex4_hex4 {n : Nat} (h : n < 65536) (rest : List Char) :
    readHex4 (hex4 n ++ rest) = some (n, rest) := by
  have hd : ∀ m : Nat, hex.value (hex.digit (m % 16)) = some (m % 16) := fun m =>
    hex.value_digit _ (Nat.mod_lt _ (by decide))
  simp only [hex4, List.cons_append, List.nil_append, readHex4, hd, Option.bind_eq_bind,
    Option.bind_some, Option.some.injEq, Prod.mk.injEq, and_true]
  omega

theorem toNat_not_surrogate (c : Char) : ¬ (0xd800 ≤ c.toNat ∧ c.toNat ≤ 0xdfff) := by
  have h := c.valid
  simp only [UInt32.isValidChar, Nat.isValidChar] at h
  change ¬ (0xd800 ≤ c.val.toNat ∧ c.val.toNat ≤ 0xdfff)
  omega

theorem toNat_lt (c : Char) : c.toNat < 0x110000 := by
  have h := c.valid
  simp only [UInt32.isValidChar, Nat.isValidChar] at h
  change c.val.toNat < 0x110000
  omega

/-- The `\u` escape of a character, a surrogate pair for a character above U+FFFF. -/
def unicodeEscape (c : Char) : List Char :=
  if c.toNat < 0x10000 then '\\' :: 'u' :: hex4 c.toNat
  else
    '\\' :: 'u' :: (hex4 (0xd800 + (c.toNat - 0x10000) / 0x400) ++
      '\\' :: 'u' :: hex4 (0xdc00 + (c.toNat - 0x10000) % 0x400))

theorem readChar_unicodeEscape (c : Char) (rest : List Char) :
    readChar (unicodeEscape c ++ rest) = some (c, rest) := by
  have hs := toNat_not_surrogate c
  have hc := toNat_lt c
  unfold unicodeEscape
  split
  · rename_i h
    have h1 : ¬ (0xdc00 ≤ c.toNat ∧ c.toNat ≤ 0xdfff) := by omega
    have h2 : ¬ (0xd800 ≤ c.toNat ∧ c.toNat ≤ 0xdbff) := by omega
    simp [readChar, readUnicode, readHex4_hex4 h, h1, h2]
  · rename_i h
    obtain ⟨k, hk⟩ : ∃ k, c.toNat = 0x10000 + k := ⟨c.toNat - 0x10000, by omega⟩
    have hsplit : k = k / 0x400 * 0x400 + k % 0x400 := by omega
    have hhigh : k / 0x400 < 0x400 := by omega
    have hlow : k % 0x400 < 0x400 := by omega
    rw [hk, Nat.add_sub_cancel_left]
    generalize k / 0x400 = hi at *
    generalize k % 0x400 = lo at *
    simp only [List.cons_append, List.append_assoc, readChar, if_true]
    rw [readUnicode, readHex4_hex4 (by omega)]
    simp only [Option.bind_eq_bind, Option.bind_some]
    rw [if_neg (by omega), if_pos (by omega), readHex4_hex4 (by omega)]
    simp only [Option.bind_some]
    rw [if_pos (by omega), Nat.add_sub_cancel_left, Nat.add_sub_cancel_left, Nat.add_assoc, ← hsplit,
      ← hk, Char.ofNat_toNat]

/-! ## The escapers -/

/-- The short escapes that all the encoders share. -/
def shortEscape (c : Char) : Option (List Char) :=
  if c = '"' then some ['\\', '"']
  else if c = '\\' then some ['\\', '\\']
  else if c = '\x08' then some ['\\', 'b']
  else if c = '\x0c' then some ['\\', 'f']
  else if c = '\n' then some ['\\', 'n']
  else if c = '\r' then some ['\\', 'r']
  else if c = '\t' then some ['\\', 't']
  else none

theorem readChar_shortEscape {c : Char} {e : List Char} (h : shortEscape c = some e)
    (rest : List Char) : readChar (e ++ rest) = some (c, rest) := by
  unfold shortEscape at h
  split_ifs at h with h1 h2 h3 h4 h5 h6 h7 <;> cases h <;> subst_vars <;> simp [readChar]

/-- Escapes the quote, the backslash and the control characters, and nothing else. -/
def rawEscape (c : Char) : List Char :=
  match shortEscape c with
  | some e => e
  | none => if c.toNat < 0x20 then unicodeEscape c else [c]

/-- Escapes every character outside `' '` to `'~'` too. -/
def asciiEscape (c : Char) : List Char :=
  match shortEscape c with
  | some e => e
  | none => if c.toNat < 0x20 ∨ 0x7e < c.toNat then unicodeEscape c else [c]

theorem readChar_plain {c : Char} (h : shortEscape c = none) (hc : ¬ c.toNat < 0x20)
    (rest : List Char) : readChar (c :: rest) = some (c, rest) := by
  have h1 : c ≠ '\\' := by rintro rfl; simp [shortEscape] at h
  have h2 : c ≠ '"' := by rintro rfl; simp [shortEscape] at h
  simp [readChar, h1, h2, hc]

def raw : Escaper where
  escape := rawEscape
  read_escape c rest := by
    unfold rawEscape
    split
    · rename_i e he
      exact readChar_shortEscape he rest
    · rename_i hn
      split
      · exact readChar_unicodeEscape c rest
      · rename_i hc
        exact readChar_plain hn hc rest

def ascii : Escaper where
  escape := asciiEscape
  read_escape c rest := by
    unfold asciiEscape
    split
    · rename_i e he
      exact readChar_shortEscape he rest
    · rename_i hn
      split
      · exact readChar_unicodeEscape c rest
      · rename_i hc
        exact readChar_plain hn (by omega) rest

/-- Below U+007F the two escapers write the same. -/
theorem asciiEscape_eq_rawEscape {c : Char} (h : c.toNat < 0x7f) :
    asciiEscape c = rawEscape c := by
  unfold asciiEscape rawEscape
  split
  · rfl
  · have : ¬ 0x7e < c.toNat := by omega
    simp [this]

/-! ## The characters of a text -/

theorem hex4_range (n : Nat) : ∀ c ∈ hex4 n, 0x20 ≤ c.toNat ∧ c.toNat ≤ 0x7e := by
  intro c hc
  simp only [hex4, List.mem_cons, List.not_mem_nil, or_false] at hc
  rcases hc with rfl | rfl | rfl | rfl <;> exact hex.digit_range _ (Nat.mod_lt _ (by decide))

theorem unicodeEscape_range (c : Char) :
    ∀ x ∈ unicodeEscape c, 0x20 ≤ x.toNat ∧ x.toNat ≤ 0x7e := by
  have hback : 0x20 ≤ '\\'.toNat ∧ '\\'.toNat ≤ 0x7e := by decide
  have hu : 0x20 ≤ 'u'.toNat ∧ 'u'.toNat ≤ 0x7e := by decide
  unfold unicodeEscape
  split
  · intro x hx
    simp only [List.mem_cons] at hx
    rcases hx with rfl | rfl | hx
    · exact hback
    · exact hu
    · exact hex4_range _ x hx
  · intro x hx
    simp only [List.mem_cons, List.mem_append] at hx
    rcases hx with rfl | rfl | hx | rfl | rfl | hx
    · exact hback
    · exact hu
    · exact hex4_range _ x hx
    · exact hback
    · exact hu
    · exact hex4_range _ x hx

theorem shortEscape_range {c : Char} {e : List Char} (h : shortEscape c = some e) :
    ∀ x ∈ e, 0x20 ≤ x.toNat ∧ x.toNat ≤ 0x7e := by
  have hall : e.all (fun x => decide (0x20 ≤ x.toNat ∧ x.toNat ≤ 0x7e)) = true := by
    unfold shortEscape at h
    split_ifs at h <;> cases h <;> decide
  exact fun x hx => of_decide_eq_true (List.all_eq_true.mp hall x hx)

theorem asciiEscape_range (c : Char) : ∀ x ∈ asciiEscape c, 0x20 ≤ x.toNat ∧ x.toNat ≤ 0x7e := by
  unfold asciiEscape
  split
  · rename_i e he
    exact shortEscape_range he
  · split
    · exact unicodeEscape_range c
    · intro x hx
      rw [List.mem_singleton] at hx
      subst hx
      omega

theorem rawEscape_range (c : Char) : ∀ x ∈ rawEscape c, 0x20 ≤ x.toNat := by
  unfold rawEscape
  split
  · rename_i e he
    exact fun x hx => (shortEscape_range he x hx).1
  · split
    · exact fun x hx => (unicodeEscape_range c x hx).1
    · intro x hx
      rw [List.mem_singleton] at hx
      subst hx
      omega

theorem isNumberChar_range {c : Char} (h : isNumberChar c = true) :
    0x20 ≤ c.toNat ∧ c.toNat ≤ 0x7e := by
  simp only [isNumberChar, Bool.or_eq_true, decide_eq_true_eq] at h
  rcases h with ((((h | rfl) | rfl) | rfl) | rfl) | rfl
  · simp only [Char.isDigit, Bool.and_eq_true, decide_eq_true_eq, ge_iff_le] at h
    have h1 : (48 : Nat) ≤ c.toNat := h.1
    have h2 : c.toNat ≤ (57 : Nat) := h.2
    omega
  all_goals decide

section chars

variable (E : Escaper) (P : Char → Prop) (hE : ∀ c, ∀ x ∈ E.escape c, P x)
  (hP : ∀ x : Char, 0x20 ≤ x.toNat ∧ x.toNat ≤ 0x7e → P x)

include hE hP

theorem printString_chars (s : String) : ∀ x ∈ printString E s, P x := by
  intro x hx
  simp only [printString, List.mem_cons, List.mem_append, List.mem_flatMap, List.not_mem_nil,
    or_false] at hx
  rcases hx with rfl | ⟨c, _, hx⟩ | rfl
  · exact hP _ (by decide)
  · exact hE c x hx
  · exact hP _ (by decide)

/-- The characters of a text are those of its escapes and of its layout, and printable ones. -/
theorem print_chars (L : Layout)
    (hL : ∀ d, ∀ x ∈ L.afterOpen d ++ L.afterComma d ++ L.beforeClose d ++ L.afterColon, P x)
    (d : Nat) (v : Value) : ∀ x ∈ print L E d v, P x := by
  have fixed : ∀ l : List Char, l.all (fun x => decide (0x20 ≤ x.toNat ∧ x.toNat ≤ 0x7e)) = true →
      ∀ x ∈ l, P x :=
    fun l hl x hx => hP x (of_decide_eq_true (List.all_eq_true.mp hl x hx))
  have hopen : ∀ d, ∀ x ∈ L.afterOpen d, P x := fun d x hx => hL d x (by simp [hx])
  have hcomma : ∀ d, ∀ x ∈ L.afterComma d, P x := fun d x hx => hL d x (by simp [hx])
  have hclose : ∀ d, ∀ x ∈ L.beforeClose d, P x := fun d x hx => hL d x (by simp [hx])
  have hcolon : ∀ x ∈ L.afterColon, P x := fun x hx => hL 0 x (by simp [hx])
  induction v using Value.induct generalizing d with
  | null => exact fixed ['n', 'u', 'l', 'l'] (by decide)
  | bool b =>
    cases b with
    | true => exact fixed ['t', 'r', 'u', 'e'] (by decide)
    | false => exact fixed ['f', 'a', 'l', 's', 'e'] (by decide)
  | string s => exact printString_chars E P hE hP s
  | number n => exact fun x hx => hP x (isNumberChar_range (n.text_chars x hx))
  | array items ih =>
    have htail : ∀ items : List Value, (∀ v ∈ items, ∀ d, ∀ x ∈ print L E d v, P x) →
        ∀ x ∈ printItems L E (d + 1) items, P x := by
      intro items hi
      induction items with
      | nil => simp [printItems]
      | cons v items hind =>
        intro x hx
        simp only [printItems, List.mem_cons, List.mem_append] at hx
        rcases hx with rfl | hx | hx | hx
        · exact hP _ (by decide)
        · exact hcomma _ x hx
        · exact hi v List.mem_cons_self _ x hx
        · exact hind (fun w hw => hi w (List.mem_cons_of_mem _ hw)) x hx
    cases items with
    | nil => exact fixed ['[', ']'] (by decide)
    | cons v items =>
      intro x hx
      simp only [print, List.mem_cons, List.mem_append, List.not_mem_nil, or_false] at hx
      rcases hx with rfl | hx | hx | hx | hx | rfl
      · exact hP _ (by decide)
      · exact hopen _ x hx
      · exact ih v List.mem_cons_self _ x hx
      · exact htail items (fun w hw => ih w (List.mem_cons_of_mem _ hw)) x hx
      · exact hclose _ x hx
      · exact hP _ (by decide)
  | object fields ih =>
    have htail : ∀ fields : List (String × Value),
        (∀ k v, (k, v) ∈ fields → ∀ d, ∀ x ∈ print L E d v, P x) →
        ∀ x ∈ printFields L E (d + 1) fields, P x := by
      intro fields hi
      induction fields with
      | nil => simp [printFields]
      | cons f fields hind =>
        obtain ⟨k, v⟩ := f
        intro x hx
        simp only [printFields, List.mem_cons, List.mem_append] at hx
        rcases hx with rfl | hx | hx | rfl | hx | hx | hx
        · exact hP _ (by decide)
        · exact hcomma _ x hx
        · exact printString_chars E P hE hP k x hx
        · exact hP _ (by decide)
        · exact hcolon x hx
        · exact hi k v List.mem_cons_self _ x hx
        · exact hind (fun l w hw => hi l w (List.mem_cons_of_mem _ hw)) x hx
    cases fields with
    | nil => exact fixed ['{', '}'] (by decide)
    | cons f fields =>
      obtain ⟨k, v⟩ := f
      intro x hx
      simp only [print, List.mem_cons, List.mem_append, List.not_mem_nil, or_false] at hx
      rcases hx with rfl | hx | hx | rfl | hx | hx | hx | hx | rfl
      · exact hP _ (by decide)
      · exact hopen _ x hx
      · exact printString_chars E P hE hP k x hx
      · exact hP _ (by decide)
      · exact hcolon x hx
      · exact ih k v List.mem_cons_self _ x hx
      · exact htail fields (fun l w hw => ih l w (List.mem_cons_of_mem _ hw)) x hx
      · exact hclose _ x hx
      · exact hP _ (by decide)

theorem print_compact_chars (d : Nat) (v : Value) : ∀ x ∈ print compact E d v, P x :=
  print_chars E P hE hP compact (by simp) d v

end chars

/-- A compact text of the raw escaper is one line. -/
theorem newline_not_mem_print (d : Nat) (v : Value) : '\n' ∉ print compact raw d v := by
  intro h
  have := print_compact_chars raw (fun x => 0x20 ≤ x.toNat) rawEscape_range (fun _ h => h.1) d v
    '\n' h
  exact absurd this (by decide)

end json
