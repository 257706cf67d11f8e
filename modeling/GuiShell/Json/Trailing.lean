-- Texts with more after them. What the reader has read it reads again when more comes after
-- the text, so a text that is a whole object is no value once anything but spaces follows it.
import GuiShell.Json.RoundTrip
import Mathlib.Data.List.TakeWhile

namespace json

theorem skipSpace_append_of_ne_nil {l : List Char} (h : skipSpace l ≠ []) (m : List Char) :
    skipSpace (l ++ m) = skipSpace l ++ m := by
  induction l with
  | nil => exact absurd rfl h
  | cons c l ih =>
    by_cases hc : isSpace c = true
    · rw [skipSpace, List.cons_append, List.dropWhile_cons_of_pos hc]
      rw [skipSpace, List.dropWhile_cons_of_pos hc] at h ⊢
      exact ih h
    · rw [skipSpace, skipSpace, List.cons_append, List.dropWhile_cons_of_neg hc,
        List.dropWhile_cons_of_neg hc, List.cons_append]

/-! ## Strings -/

theorem readHex4_append {l rest : List Char} {n : Nat} (h : readHex4 l = some (n, rest))
    (m : List Char) : readHex4 (l ++ m) = some (n, rest ++ m) := by
  unfold readHex4 at h
  split at h
  · simp only [Option.bind_eq_bind, Option.bind_eq_some_iff, Option.some.injEq, Prod.mk.injEq] at h
    obtain ⟨a, ha, b, hb, c, hc, d, hd, hn, hrest⟩ := h
    simp [readHex4, ha, hb, hc, hd, hn, hrest]
  · cases h

theorem readUnicode_append {l rest : List Char} {c : Char} (h : readUnicode l = some (c, rest))
    (m : List Char) : readUnicode (l ++ m) = some (c, rest ++ m) := by
  unfold readUnicode at h ⊢
  simp only [Option.bind_eq_bind, Option.bind_eq_some_iff] at h ⊢
  obtain ⟨⟨n, l'⟩, hn, h⟩ := h
  refine ⟨(n, l' ++ m), readHex4_append hn m, ?_⟩
  dsimp only at h ⊢
  split at h
  · cases h
  · rename_i hlow
    rw [if_neg hlow]
    split at h
    · rename_i hhigh
      rw [if_pos hhigh]
      split at h
      · -- A surrogate pair.
        simp only [Option.bind_eq_some_iff] at h
        obtain ⟨⟨k, l''⟩, hk, h⟩ := h
        simp only [List.cons_append, Option.bind_eq_some_iff]
        refine ⟨(k, l'' ++ m), readHex4_append hk m, ?_⟩
        dsimp only at h ⊢
        split at h
        · rename_i hpair
          rw [if_pos hpair]
          simp only [Option.some.injEq, Prod.mk.injEq] at h ⊢
          exact ⟨h.1, by rw [h.2]⟩
        · cases h
      · cases h
    · rename_i hhigh
      rw [if_neg hhigh]
      simp only [Option.some.injEq, Prod.mk.injEq] at h ⊢
      exact ⟨h.1, by rw [h.2]⟩

theorem readChar_append {l rest : List Char} {c : Char} (h : readChar l = some (c, rest))
    (m : List Char) : readChar (l ++ m) = some (c, rest ++ m) := by
  unfold readChar at h
  split at h
  · cases h
  · rename_i x l
    rw [List.cons_append]
    unfold readChar
    dsimp only
    by_cases hx : x = '\\'
    · rw [if_pos hx] at h ⊢
      split at h
      · cases h
      · rename_i e l
        rw [List.cons_append]
        dsimp only
        by_cases he : e = 'u'
        · rw [if_pos he] at h ⊢
          exact readUnicode_append h m
        · rw [if_neg he] at h ⊢
          repeat' split at h
          all_goals simp_all only [Option.some.injEq, Prod.mk.injEq, if_true, if_false, reduceCtorEq]
    · rw [if_neg hx] at h ⊢
      split at h
      · cases h
      · rename_i hplain
        cases h
        rw [if_neg hplain]

theorem readString_append {fuel fuel' : Nat} {l s rest : List Char}
    (h : readString fuel l = some (s, rest)) (hfuel : fuel ≤ fuel') (m : List Char) :
    readString fuel' (l ++ m) = some (s, rest ++ m) := by
  induction fuel generalizing fuel' l s with
  | zero => cases h
  | succ fuel ih =>
    obtain ⟨fuel', rfl⟩ := Nat.exists_eq_add_of_le' (Nat.lt_of_lt_of_le (Nat.succ_pos fuel) hfuel)
    rw [readString] at h ⊢
    by_cases hquote : l.head? = some '"'
    · rw [if_pos hquote] at h
      cases h
      rcases l with _ | ⟨c, l⟩
      · cases hquote
      · rw [if_pos (by simpa using hquote)]
        rfl
    · rw [if_neg hquote] at h
      simp only [Option.bind_eq_bind, Option.bind_eq_some_iff] at h
      obtain ⟨⟨c, l'⟩, hc, ⟨s', rest'⟩, hs, h⟩ := h
      cases h
      have hhead : (l ++ m).head? ≠ some '"' := by
        rcases l with _ | ⟨x, l⟩
        · simp [readChar] at hc
        · simpa using hquote
      rw [if_neg hhead, readChar_append hc m]
      simp only [Option.bind_eq_bind, Option.bind_some]
      rw [ih hs (by omega)]
      rfl

/-! ## Values -/

theorem readValue_skipSpace (fuel : Nat) (l : List Char) :
    readValue fuel (skipSpace l) = readValue fuel l := by
  have hspaces : (l.takeWhile isSpace).all isSpace = true := List.all_takeWhile
  have hsplit : l.takeWhile isSpace ++ skipSpace l = l := List.takeWhile_append_dropWhile
  rw [← readValue_spaces hspaces, hsplit]

theorem takeWhile_append_of_dropWhile {p : Char → Bool} {l : List Char}
    (h : l.dropWhile p ≠ []) (m : List Char) :
    (l ++ m).takeWhile p = l.takeWhile p ∧ (l ++ m).dropWhile p = l.dropWhile p ++ m := by
  induction l with
  | nil => exact absurd rfl h
  | cons c l ih =>
    by_cases hc : p c = true
    · rw [List.dropWhile_cons_of_pos hc] at h
      rw [List.cons_append, List.takeWhile_cons_of_pos hc, List.takeWhile_cons_of_pos hc,
        List.dropWhile_cons_of_pos hc, List.dropWhile_cons_of_pos hc, (ih h).1, (ih h).2]
      exact ⟨rfl, rfl⟩
    · rw [List.cons_append, List.takeWhile_cons_of_neg hc, List.takeWhile_cons_of_neg hc,
        List.dropWhile_cons_of_neg hc, List.dropWhile_cons_of_neg hc]
      exact ⟨rfl, rfl⟩

theorem readValue_number_head {c : Char} (hc : isNumberChar c = true) (fuel : Nat)
    (t : List Char) :
    readValue (fuel + 1) (c :: t) =
      (readNumberText ((c :: t).takeWhile isNumberChar)).map fun n =>
        (.number n, (c :: t).dropWhile isNumberChar) := by
  have hspace : isSpace c = false := by
    by_contra hspace
    rw [isNumberChar_of_isSpace (by simpa using hspace)] at hc
    cases hc
  have hne : c ≠ 'n' ∧ c ≠ 't' ∧ c ≠ 'f' ∧ c ≠ '"' ∧ c ≠ '[' ∧ c ≠ '{' := by
    refine ⟨?_, ?_, ?_, ?_, ?_, ?_⟩ <;> (rintro rfl; exact absurd hc (by decide))
  obtain ⟨h1, h2, h3, h4, h5, h6⟩ := hne
  rw [readValue, skipSpace_cons hspace]
  split
  all_goals first
    | (rename_i heq; simp_all; done)
    | skip
  cases readNumberText ((c :: t).takeWhile isNumberChar) <;> rfl

/-- A value that is read is read when more comes after it. The end of a number must show. -/
def ValueReadsOn (fuel : Nat) : Prop :=
  ∀ fuel' l v rest, fuel ≤ fuel' → readValue fuel l = some (v, rest) →
    (rest ≠ [] ∨ ∃ fields, v = .object fields) →
    ∀ m, readValue fuel' (l ++ m) = some (v, rest ++ m)

def ItemsReadOn (fuel : Nat) : Prop :=
  ∀ fuel' l items rest, fuel ≤ fuel' → readItems fuel l = some (items, rest) →
    ∀ m, readItems fuel' (l ++ m) = some (items, rest ++ m)

def FieldsReadOn (fuel : Nat) : Prop :=
  ∀ fuel' l fields rest, fuel ≤ fuel' → readFields fuel l = some (fields, rest) →
    ∀ m, readFields fuel' (l ++ m) = some (fields, rest ++ m)

theorem ne_nil_of_skipSpace {l rest : List Char} {c : Char} (h : skipSpace l = c :: rest) :
    l ≠ [] := by
  rintro rfl
  cases h

theorem skipSpace_append_cons {l rest : List Char} {c : Char} (h : skipSpace l = c :: rest)
    (m : List Char) : skipSpace (l ++ m) = c :: (rest ++ m) := by
  rw [skipSpace_append_of_ne_nil (by simp [h]), h, List.cons_append]

/-- What follows the first character that is no space does not change it. -/
theorem head_of_skipSpace_append {l m rest : List Char} {c : Char}
    (h : skipSpace (l ++ m) = c :: rest) : skipSpace l = [] ∨ ∃ t, skipSpace l = c :: t := by
  by_cases hnil : skipSpace l = []
  · exact .inl hnil
  · rw [skipSpace_append_of_ne_nil hnil] at h
    rcases hskip : skipSpace l with _ | ⟨x, t⟩
    · exact absurd hskip hnil
    · rw [hskip, List.cons_append, List.cons.injEq] at h
      exact .inr ⟨t, by rw [h.1]⟩

theorem readValue_blank {l : List Char} (h : skipSpace l = []) (fuel : Nat) :
    readValue fuel l = none := by
  rcases fuel with _ | fuel
  · rfl
  · rw [readValue, h]
    rfl

theorem readItems_blank {l : List Char} (h : skipSpace l = []) (fuel : Nat) :
    readItems fuel l = none := by
  rcases fuel with _ | fuel
  · rfl
  · rw [readItems, readValue_blank h]
    rfl

theorem readFields_blank {l : List Char} (h : skipSpace l = []) (fuel : Nat) :
    readFields fuel l = none := by
  rcases fuel with _ | fuel
  · rfl
  · rw [readFields, h]

theorem itemsReadOn_succ {fuel : Nat} (hvalue : ValueReadsOn fuel) (hitems : ItemsReadOn fuel) :
    ItemsReadOn (fuel + 1) := by
  intro fuel' l items rest hfuel h m
  obtain ⟨fuel', rfl⟩ := Nat.exists_eq_add_of_le' (Nat.lt_of_lt_of_le (Nat.succ_pos fuel) hfuel)
  rw [readItems] at h ⊢
  simp only [Option.bind_eq_bind, Option.bind_eq_some_iff] at h ⊢
  obtain ⟨⟨v, l'⟩, hv, h⟩ := h
  dsimp only at h
  split at h
  · rename_i rest' hskip
    refine ⟨(v, l' ++ m), hvalue _ _ _ _ (by omega) hv (.inl (ne_nil_of_skipSpace hskip)) m, ?_⟩
    dsimp only
    rw [skipSpace_append_cons hskip]
    simp only [Option.bind_eq_some_iff] at h ⊢
    obtain ⟨⟨items', rest''⟩, hi, h⟩ := h
    cases h
    exact ⟨(items', rest'' ++ m), hitems _ _ _ _ (by omega) hi m, rfl⟩
  · rename_i rest' hskip
    refine ⟨(v, l' ++ m), hvalue _ _ _ _ (by omega) hv (.inl (ne_nil_of_skipSpace hskip)) m, ?_⟩
    cases h
    dsimp only
    rw [skipSpace_append_cons hskip]
    rfl
  · cases h

theorem fieldsReadOn_succ {fuel : Nat} (hvalue : ValueReadsOn fuel)
    (hfields : FieldsReadOn fuel) : FieldsReadOn (fuel + 1) := by
  intro fuel' l fields rest hfuel h m
  obtain ⟨fuel', rfl⟩ := Nat.exists_eq_add_of_le' (Nat.lt_of_lt_of_le (Nat.succ_pos fuel) hfuel)
  rw [readFields] at h ⊢
  split at h
  · rename_i l₁ hskip
    rw [skipSpace_append_cons hskip]
    simp only [Option.bind_eq_bind, Option.bind_eq_some_iff] at h ⊢
    obtain ⟨⟨k, l₂⟩, hk, h⟩ := h
    refine ⟨(k, l₂ ++ m), readString_append hk (by simp) m, ?_⟩
    dsimp only at h ⊢
    split at h
    · rename_i l₃ hcolon
      rw [skipSpace_append_cons hcolon]
      simp only [Option.bind_eq_some_iff] at h ⊢
      obtain ⟨⟨v, l₄⟩, hv, h⟩ := h
      dsimp only at h
      split at h
      · rename_i l₅ hcomma
        refine ⟨(v, l₄ ++ m), hvalue _ _ _ _ (by omega) hv (.inl (ne_nil_of_skipSpace hcomma)) m, ?_⟩
        dsimp only
        rw [skipSpace_append_cons hcomma]
        simp only [Option.bind_eq_some_iff] at h ⊢
        obtain ⟨⟨fields', rest'⟩, hf, h⟩ := h
        cases h
        exact ⟨(fields', rest' ++ m), hfields _ _ _ _ (by omega) hf m, rfl⟩
      · rename_i l₅ hclose
        refine ⟨(v, l₄ ++ m), hvalue _ _ _ _ (by omega) hv (.inl (ne_nil_of_skipSpace hclose)) m, ?_⟩
        cases h
        dsimp only
        rw [skipSpace_append_cons hclose]
        rfl
      · cases h
    · cases h
  · cases h

/-- An array shows its own end. -/
theorem readValue_array_append {fuel fuel' : Nat} (hitems : ItemsReadOn fuel)
    (hfuel : fuel + 1 ≤ fuel') {l rest : List Char} {items : List Value}
    (h : readValue (fuel + 1) l = some (.array items, rest)) (m : List Char) :
    readValue fuel' (l ++ m) = some (.array items, rest ++ m) := by
  obtain ⟨fuel', rfl⟩ := Nat.exists_eq_add_of_le' (Nat.lt_of_lt_of_le (Nat.succ_pos fuel) hfuel)
  rw [readValue] at h
  split at h
  · cases h
  · cases h
  · cases h
  · simp only [Option.bind_eq_bind, Option.bind_eq_some_iff] at h
    obtain ⟨_, _, h⟩ := h
    cases h
  · rename_i l' hskip
    rw [readValue, skipSpace_append_cons hskip]
    simp only [Option.bind_eq_bind]
    split at h
    · rename_i rest' hclose
      cases h
      rw [skipSpace_append_cons hclose]
      rfl
    · rename_i hopen
      simp only [Option.bind_eq_bind, Option.bind_eq_some_iff] at h
      obtain ⟨⟨items, rest'⟩, hi, h⟩ := h
      cases h
      split
      · rename_i hclose
        rcases head_of_skipSpace_append hclose with hblank | ⟨t, ht⟩
        · rw [readItems_blank hblank] at hi
          cases hi
        · exact absurd ht (hopen t)
      · rw [hitems _ _ _ _ (by omega) hi m]
        rfl
  · split at h
    · cases h
    · simp only [Option.bind_eq_bind, Option.bind_eq_some_iff] at h
      obtain ⟨_, _, h⟩ := h
      cases h
  · simp only [Option.bind_eq_bind, Option.bind_eq_some_iff] at h
    obtain ⟨_, _, h⟩ := h
    cases h

theorem valueReadsOn_succ {fuel : Nat} (hitems : ItemsReadOn fuel) (hfields : FieldsReadOn fuel) :
    ValueReadsOn (fuel + 1) := by
  intro fuel' l v rest hfuel h hend m
  have hread := h
  obtain ⟨fuel', rfl⟩ := Nat.exists_eq_add_of_le' (Nat.lt_of_lt_of_le (Nat.succ_pos fuel) hfuel)
  rw [readValue] at h
  split at h
  · rename_i l' hskip
    cases h
    rw [readValue, skipSpace_append_cons hskip]
    rfl
  · rename_i l' hskip
    cases h
    rw [readValue, skipSpace_append_cons hskip]
    rfl
  · rename_i l' hskip
    cases h
    rw [readValue, skipSpace_append_cons hskip]
    rfl
  · rename_i l' hskip
    rw [readValue, skipSpace_append_cons hskip]
    simp only [Option.bind_eq_bind, Option.bind_eq_some_iff] at h ⊢
    obtain ⟨⟨s, rest'⟩, hs, h⟩ := h
    cases h
    exact ⟨(s, rest' ++ m), readString_append hs (by simp) m, rfl⟩
  · rename_i hskip
    have harray : ∃ items, v = .array items := by
      split at h
      · cases h
        exact ⟨[], rfl⟩
      · simp only [Option.bind_eq_bind, Option.bind_eq_some_iff] at h
        obtain ⟨⟨items, rest'⟩, hi, h⟩ := h
        cases h
        exact ⟨items, rfl⟩
    obtain ⟨items, rfl⟩ := harray
    exact readValue_array_append hitems hfuel hread m
  · rename_i l' hskip
    rw [readValue, skipSpace_append_cons hskip]
    simp only [Option.bind_eq_bind]
    split at h
    · rename_i rest' hclose
      cases h
      rw [skipSpace_append_cons hclose]
      rfl
    · rename_i hopen
      simp only [Option.bind_eq_bind, Option.bind_eq_some_iff] at h
      obtain ⟨⟨fields, rest'⟩, hf, h⟩ := h
      cases h
      split
      · rename_i hclose
        rcases head_of_skipSpace_append hclose with hblank | ⟨t, ht⟩
        · rw [readFields_blank hblank] at hf
          cases hf
        · exact absurd ht (hopen t)
      · rw [hfields _ _ _ _ (by omega) hf m]
        rfl
  · -- A number ends where a character comes that is none of its own.
    simp only [Option.bind_eq_bind, Option.bind_eq_some_iff] at h
    obtain ⟨n, hn, h⟩ := h
    cases h
    have hrest : (skipSpace l).dropWhile isNumberChar ≠ [] := by
      rcases hend with hrest | ⟨fields, hfields⟩
      · exact hrest
      · cases hfields
    rw [← readValue_skipSpace]
    rcases hl : skipSpace l with _ | ⟨c, t⟩
    · rw [hl] at hrest
      exact absurd rfl hrest
    · rw [skipSpace_append_cons hl]
      rw [hl] at hn hrest
      have hc : isNumberChar c = true := by
        by_contra hc
        rw [List.takeWhile_cons_of_neg hc] at hn
        cases hn
      obtain ⟨htake, hdrop⟩ := takeWhile_append_of_dropWhile hrest m
      rw [readValue_number_head hc, ← List.cons_append, htake, hdrop, hn]
      rfl

theorem readsOn (fuel : Nat) : ValueReadsOn fuel ∧ ItemsReadOn fuel ∧ FieldsReadOn fuel := by
  induction fuel with
  | zero =>
    refine ⟨?_, ?_, ?_⟩
    · intro _ _ _ _ _ h
      cases h
    · intro _ _ _ _ _ h
      cases h
    · intro _ _ _ _ _ h
      cases h
  | succ fuel ih =>
    obtain ⟨hvalue, hitems, hfields⟩ := ih
    exact ⟨valueReadsOn_succ hitems hfields, itemsReadOn_succ hvalue hitems,
      fieldsReadOn_succ hvalue hfields⟩

/-! ## Whole texts -/

theorem parse_append_of_readsOn {l m : List Char} {v : Value}
    (h : parse (.ofList l) = some v) (hm : skipSpace m ≠ [])
    (hon : ∀ rest, readValue (l.length + 1) l = some (v, rest) →
      readValue ((l ++ m).length + 1) (l ++ m) = some (v, rest ++ m)) :
    parse (.ofList (l ++ m)) = none := by
  unfold parse at h ⊢
  rw [String.toList_ofList] at h ⊢
  simp only [Option.bind_eq_bind, Option.bind_eq_some_iff] at h
  obtain ⟨⟨v', rest⟩, hv, h⟩ := h
  dsimp only at h
  split at h
  · rename_i hrest
    cases h
    have hspaces : rest.all isSpace = true :=
      List.all_eq_true.mpr (List.dropWhile_eq_nil_iff.mp hrest)
    rw [hon rest hv]
    simp only [Option.bind_eq_bind, Option.bind_some]
    rw [skipSpace_append hspaces, if_neg hm]
  · cases h

/-- A text that is an object is no value when more than spaces follows it. -/
theorem parse_append_eq_none {l m : List Char} {fields : List (String × Value)}
    (h : parse (.ofList l) = some (.object fields)) (hm : skipSpace m ≠ []) :
    parse (.ofList (l ++ m)) = none :=
  parse_append_of_readsOn h hm fun _ hv =>
    (readsOn _).1 ((l ++ m).length + 1) l _ _ (by simp) hv (.inr ⟨fields, rfl⟩) m

/-- Nor is a text that is an array. -/
theorem parse_array_append_eq_none {l m : List Char} {items : List Value}
    (h : parse (.ofList l) = some (.array items)) (hm : skipSpace m ≠ []) :
    parse (.ofList (l ++ m)) = none :=
  parse_append_of_readsOn h hm fun _ hv =>
    readValue_array_append (readsOn _).2.1 (by simp) hv m

/-- Spaces before a value and after it change nothing. -/
theorem parse_spaces {before after : List Char} (hbefore : before.all isSpace = true)
    (hafter : after.all isSpace = true) (L : Layout) (E : Escaper) (d : Nat) (v : Value) :
    parse (.ofList (before ++ (print L E d v ++ after))) = some v := by
  have hsize := size_le E L v d
  have hend : NumberEnd after := by
    have hspaces := numberEnd_spaces hafter numberEnd_nil
    rwa [List.append_nil] at hspaces
  have hread := readsBack E L v d ((before ++ (print L E d v ++ after)).length + 1) after
    (by simp only [List.length_append]; omega) hend
  have hskip : skipSpace after = [] := List.dropWhile_eq_nil_iff.mpr (List.all_eq_true.mp hafter)
  unfold parse
  rw [String.toList_ofList, readValue_spaces hbefore, hread]
  simp [hskip]

/-- A text that starts with what is no space and no value has no value. -/
theorem parse_eq_none_of_head {w l : List Char} {c : Char} (hw : w.all isSpace = true)
    (hspace : isSpace c = false) (hnumber : isNumberChar c = false)
    (hc : c ≠ 'n' ∧ c ≠ 't' ∧ c ≠ 'f' ∧ c ≠ '"' ∧ c ≠ '[' ∧ c ≠ '{') :
    parse (.ofList (w ++ c :: l)) = none := by
  have hread : readValue ((w ++ c :: l).length + 1) (c :: l) = none := by
    obtain ⟨h1, h2, h3, h4, h5, h6⟩ := hc
    rw [readValue, skipSpace_cons hspace]
    split
    all_goals first
      | (rename_i heq; simp_all; done)
      | skip
    rw [List.takeWhile_cons_of_neg (by simp [hnumber])]
    rfl
  unfold parse
  rw [String.toList_ofList, readValue_spaces hw, hread]
  rfl

end json
