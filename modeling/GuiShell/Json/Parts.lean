-- The strings and the numbers of a JSON value, and what they say of its text: two
-- escapers that agree on the strings write the same text.
import GuiShell.Json.Escapers

namespace json

namespace Value

/-! ## Strings, numbers and depth -/

mutual
/-- Every string of the value, keys among them. -/
def strings : Value → List String
  | .string s => [s]
  | .array items => stringsOfItems items
  | .object fields => stringsOfFields fields
  | _ => []
def stringsOfItems : List Value → List String
  | [] => []
  | v :: items => v.strings ++ stringsOfItems items
def stringsOfFields : List (String × Value) → List String
  | [] => []
  | (k, v) :: fields => k :: (v.strings ++ stringsOfFields fields)
end

mutual
/-- The strings of the value, but for the keys. -/
def stringValues : Value → List String
  | .string s => [s]
  | .array items => stringValuesOfItems items
  | .object fields => stringValuesOfFields fields
  | _ => []
def stringValuesOfItems : List Value → List String
  | [] => []
  | v :: items => v.stringValues ++ stringValuesOfItems items
def stringValuesOfFields : List (String × Value) → List String
  | [] => []
  | (_, v) :: fields => v.stringValues ++ stringValuesOfFields fields
end

mutual
def numbers : Value → List Number
  | .number n => [n]
  | .array items => numbersOfItems items
  | .object fields => numbersOfFields fields
  | _ => []
def numbersOfItems : List Value → List Number
  | [] => []
  | v :: items => v.numbers ++ numbersOfItems items
def numbersOfFields : List (String × Value) → List Number
  | [] => []
  | (_, v) :: fields => v.numbers ++ numbersOfFields fields
end

mutual
/-- The keys of every object of the value, in the order in which they stand. -/
def keyLists : Value → List (List String)
  | .array items => keyListsOfItems items
  | .object fields => fields.map Prod.fst :: keyListsOfFields fields
  | _ => []
def keyListsOfItems : List Value → List (List String)
  | [] => []
  | v :: items => v.keyLists ++ keyListsOfItems items
def keyListsOfFields : List (String × Value) → List (List String)
  | [] => []
  | (_, v) :: fields => v.keyLists ++ keyListsOfFields fields
end

mutual
/-- How deep arrays and objects nest. -/
def depth : Value → Nat
  | .array items => depthOfItems items + 1
  | .object fields => depthOfFields fields + 1
  | _ => 0
def depthOfItems : List Value → Nat
  | [] => 0
  | v :: items => max v.depth (depthOfItems items)
def depthOfFields : List (String × Value) → Nat
  | [] => 0
  | (_, v) :: fields => max v.depth (depthOfFields fields)
end

theorem mem_stringsOfItems {s : String} {items : List Value} :
    s ∈ stringsOfItems items ↔ ∃ v ∈ items, s ∈ v.strings := by
  induction items with
  | nil => simp [stringsOfItems]
  | cons v items ih => simp [stringsOfItems, ih]

theorem mem_stringsOfFields {s : String} {fields : List (String × Value)} :
    s ∈ stringsOfFields fields ↔ ∃ e ∈ fields, s = e.1 ∨ s ∈ e.2.strings := by
  induction fields with
  | nil => simp [stringsOfFields]
  | cons e fields ih => simp [stringsOfFields, ih, or_assoc]

theorem stringValuesOfItems_eq (items : List Value) :
    stringValuesOfItems items = items.flatMap stringValues := by
  induction items with
  | nil => rfl
  | cons v items ih => rw [stringValuesOfItems, ih, List.flatMap_cons]

theorem stringValuesOfFields_eq (fields : List (String × Value)) :
    stringValuesOfFields fields = fields.flatMap fun e => e.2.stringValues := by
  induction fields with
  | nil => rfl
  | cons e fields ih => rw [stringValuesOfFields, ih, List.flatMap_cons]

theorem mem_numbersOfItems {n : Number} {items : List Value} :
    n ∈ numbersOfItems items ↔ ∃ v ∈ items, n ∈ v.numbers := by
  induction items with
  | nil => simp [numbersOfItems]
  | cons v items ih => simp [numbersOfItems, ih]

theorem mem_numbersOfFields {n : Number} {fields : List (String × Value)} :
    n ∈ numbersOfFields fields ↔ ∃ e ∈ fields, n ∈ e.2.numbers := by
  induction fields with
  | nil => simp [numbersOfFields]
  | cons e fields ih => simp [numbersOfFields, ih]

theorem mem_keyListsOfItems {keys : List String} {items : List Value} :
    keys ∈ keyListsOfItems items ↔ ∃ v ∈ items, keys ∈ v.keyLists := by
  induction items with
  | nil => simp [keyListsOfItems]
  | cons v items ih => simp [keyListsOfItems, ih]

theorem mem_keyListsOfFields {keys : List String} {fields : List (String × Value)} :
    keys ∈ keyListsOfFields fields ↔ ∃ e ∈ fields, keys ∈ e.2.keyLists := by
  induction fields with
  | nil => simp [keyListsOfFields]
  | cons e fields ih => simp [keyListsOfFields, ih]

/-- The objects of a sorted value have each key once. -/
theorem Sorted.nodup_keys {v : Value} (h : v.Sorted) : ∀ keys ∈ v.keyLists, keys.Nodup := by
  induction v using Value.induct with
  | null | bool _ | number _ | string _ => simp [keyLists]
  | array items ih =>
    rw [Sorted, sortedItems_iff] at h
    intro keys hkeys
    rw [keyLists, mem_keyListsOfItems] at hkeys
    obtain ⟨v, hv, hkeys⟩ := hkeys
    exact ih v hv (h v hv) keys hkeys
  | object fields ih =>
    obtain ⟨hsorted, hfields⟩ := h
    rw [sortedFields_iff] at hfields
    intro keys hkeys
    rw [keyLists, List.mem_cons, mem_keyListsOfFields] at hkeys
    rcases hkeys with rfl | ⟨e, he, hkeys⟩
    · exact hsorted.nodup
    · exact ih e.1 e.2 he (hfields e.1 e.2 he) keys hkeys

theorem mem_strings_of_key {v : Value} {keys : List String} (hkeys : keys ∈ v.keyLists)
    {key : String} (hkey : key ∈ keys) : key ∈ v.strings := by
  induction v using Value.induct with
  | null | bool _ | number _ | string _ => cases hkeys
  | array items ih =>
    rw [keyLists, mem_keyListsOfItems] at hkeys
    rw [strings, mem_stringsOfItems]
    obtain ⟨v, hv, hkeys⟩ := hkeys
    exact ⟨v, hv, ih v hv hkeys⟩
  | object fields ih =>
    rw [keyLists, List.mem_cons, mem_keyListsOfFields] at hkeys
    rw [strings, mem_stringsOfFields]
    rcases hkeys with rfl | ⟨⟨k, v⟩, hmem, hkeys⟩
    · obtain ⟨field, hfield, rfl⟩ := List.mem_map.mp hkey
      exact ⟨field, hfield, .inl rfl⟩
    · exact ⟨(k, v), hmem, .inr (ih k v hmem hkeys)⟩

theorem mem_strings_of_value {v : Value} {s : String} (h : s ∈ v.stringValues) : s ∈ v.strings := by
  induction v using Value.induct with
  | null | bool _ | number _ => cases h
  | string t => exact h
  | array items ih =>
    rw [stringValues, stringValuesOfItems_eq, List.mem_flatMap] at h
    rw [strings, mem_stringsOfItems]
    obtain ⟨v, hv, h⟩ := h
    exact ⟨v, hv, ih v hv h⟩
  | object fields ih =>
    rw [stringValues, stringValuesOfFields_eq, List.mem_flatMap] at h
    rw [strings, mem_stringsOfFields]
    obtain ⟨⟨k, v⟩, hmem, h⟩ := h
    exact ⟨(k, v), hmem, .inr (ih k v hmem h)⟩

end Value

/-! ## Escapers that agree -/

variable {L : Layout} {E F : Escaper}

theorem printString_congr {s : String} (h : ∀ c ∈ s.toList, E.escape c = F.escape c) :
    printString E s = printString F s := by
  rw [printString, printString, List.flatMap_def, List.flatMap_def, List.map_congr_left h]

theorem printItems_congr {d : Nat} {items : List Value}
    (h : ∀ v ∈ items, print L E d v = print L F d v) :
    printItems L E d items = printItems L F d items := by
  induction items with
  | nil => rfl
  | cons v items ih =>
    rw [printItems, printItems, h v List.mem_cons_self,
      ih fun w hw => h w (List.mem_cons_of_mem _ hw)]

theorem printFields_congr {d : Nat} {fields : List (String × Value)}
    (h : ∀ e ∈ fields, printString E e.1 = printString F e.1 ∧ print L E d e.2 = print L F d e.2) :
    printFields L E d fields = printFields L F d fields := by
  induction fields with
  | nil => rfl
  | cons e fields ih =>
    obtain ⟨k, v⟩ := e
    obtain ⟨hk, hv⟩ := h (k, v) List.mem_cons_self
    rw [printFields, printFields, hk, hv, ih fun w hw => h w (List.mem_cons_of_mem _ hw)]

/-- Escapers that agree on the characters of a value's strings write the same text. -/
theorem print_congr {v : Value} (h : ∀ s ∈ v.strings, ∀ c ∈ s.toList, E.escape c = F.escape c)
    (d : Nat) : print L E d v = print L F d v := by
  induction v using Value.induct generalizing d with
  | null => rfl
  | bool b => cases b <;> rfl
  | number n => rfl
  | string s => exact printString_congr (h s (by simp [Value.strings]))
  | array items ih =>
    have hitem : ∀ v ∈ items, print L E (d + 1) v = print L F (d + 1) v := fun v hv =>
      ih v hv (fun s hs => h s (Value.mem_stringsOfItems.mpr ⟨v, hv, hs⟩)) _
    cases items with
    | nil => rfl
    | cons v items =>
      rw [print, print, hitem v List.mem_cons_self,
        printItems_congr fun w hw => hitem w (List.mem_cons_of_mem _ hw)]
  | object fields ih =>
    have hfield : ∀ e ∈ fields,
        printString E e.1 = printString F e.1 ∧ print L E (d + 1) e.2 = print L F (d + 1) e.2 :=
      fun e he => ⟨printString_congr (h e.1 (Value.mem_stringsOfFields.mpr ⟨e, he, Or.inl rfl⟩)),
        ih e.1 e.2 he (fun s hs => h s (Value.mem_stringsOfFields.mpr ⟨e, he, Or.inr hs⟩)) _⟩
    cases fields with
    | nil => rfl
    | cons e fields =>
      obtain ⟨k, v⟩ := e
      obtain ⟨hk, hv⟩ := hfield (k, v) List.mem_cons_self
      rw [print, print, hk, hv, printFields_congr fun w hw => hfield w (List.mem_cons_of_mem _ hw)]

/-! ## Characters that stand in the text -/

theorem mem_printItems {c : Char} {d : Nat} {items : List Value}
    (h : ∃ v ∈ items, c ∈ print L E d v) : c ∈ printItems L E d items := by
  induction items with
  | nil => simp at h
  | cons v items ih =>
    simp only [List.mem_cons, exists_eq_or_imp] at h
    simp only [printItems, List.mem_cons, List.mem_append]
    rcases h with h | h
    · exact Or.inr (Or.inr (Or.inl h))
    · exact Or.inr (Or.inr (Or.inr (ih h)))

theorem mem_printFields {c : Char} {d : Nat} {fields : List (String × Value)}
    (h : ∃ e ∈ fields, c ∈ printString E e.1 ∨ c ∈ print L E d e.2) :
    c ∈ printFields L E d fields := by
  induction fields with
  | nil => simp at h
  | cons e fields ih =>
    obtain ⟨k, v⟩ := e
    simp only [List.mem_cons, exists_eq_or_imp] at h
    simp only [printFields, List.mem_cons, List.mem_append]
    rcases h with (h | h) | h
    · exact Or.inr (Or.inr (Or.inl h))
    · exact Or.inr (Or.inr (Or.inr (Or.inr (Or.inr (Or.inl h)))))
    · exact Or.inr (Or.inr (Or.inr (Or.inr (Or.inr (Or.inr (ih h))))))

/-- A character that the escaper leaves as it is stands in the text of every value that
has it in a string. -/
theorem mem_print {c : Char} (hc : E.escape c = [c]) {v : Value}
    (h : ∃ s ∈ v.strings, c ∈ s.toList) (d : Nat) : c ∈ print L E d v := by
  have hstring : ∀ s : String, c ∈ s.toList → c ∈ printString E s := by
    intro s hs
    have hf : c ∈ s.toList.flatMap E.escape :=
      List.mem_flatMap.mpr ⟨c, hs, hc ▸ List.mem_singleton_self c⟩
    exact List.mem_cons_of_mem _ (List.mem_append_left _ hf)
  induction v using Value.induct generalizing d with
  | null | bool _ | number _ => simp [Value.strings] at h
  | string s =>
    obtain ⟨s', hs', hcs⟩ := h
    rw [Value.strings, List.mem_singleton] at hs'
    exact hstring s (hs' ▸ hcs)
  | array items ih =>
    obtain ⟨s, hs, hcs⟩ := h
    obtain ⟨v, hv, hs⟩ := Value.mem_stringsOfItems.mp hs
    have hin := ih v hv ⟨s, hs, hcs⟩ (d + 1)
    cases items with
    | nil => simp at hv
    | cons w items =>
      simp only [print, List.mem_cons, List.mem_append]
      rcases List.mem_cons.mp hv with rfl | hv
      · exact Or.inr (Or.inr (Or.inl hin))
      · exact Or.inr (Or.inr (Or.inr (Or.inl (mem_printItems ⟨v, hv, hin⟩))))
  | object fields ih =>
    obtain ⟨s, hs, hcs⟩ := h
    obtain ⟨e, he, hs⟩ := Value.mem_stringsOfFields.mp hs
    have hin : c ∈ printString E e.1 ∨ c ∈ print L E (d + 1) e.2 := by
      rcases hs with rfl | hs
      · exact Or.inl (hstring _ hcs)
      · exact Or.inr (ih e.1 e.2 he ⟨s, hs, hcs⟩ (d + 1))
    cases fields with
    | nil => simp at he
    | cons e' fields =>
      obtain ⟨k, v⟩ := e'
      simp only [print, List.mem_cons, List.mem_append]
      rcases List.mem_cons.mp he with rfl | he
      · rcases hin with hin | hin
        · exact Or.inr (Or.inr (Or.inl hin))
        · exact Or.inr (Or.inr (Or.inr (Or.inr (Or.inr (Or.inl hin)))))
      · exact Or.inr (Or.inr (Or.inr (Or.inr (Or.inr (Or.inr (Or.inl
          (mem_printFields ⟨e, he, hin⟩)))))))

end json
