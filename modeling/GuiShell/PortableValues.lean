-- Values that Rust and Python write alike, part by part. The broker reads such a value as its
-- sorting, and both languages hash it to one hash.
import GuiShell.CanonicalParity
import GuiShell.ShellCore.PythonValues

open json serde_json

namespace canonical_parity

/-- The text is printable ASCII, as far as its escapes go. -/
def AsciiText (s : String) : Prop := ∀ c ∈ s.toList, c.toNat < 0x7f

/-- The value is portable, and its numbers are integers. -/
structure PortableValue (v : Value) : Prop where
  portable : Portable v
  integers : ∀ n ∈ v.numbers, ∃ i, n = .int i

section parts

variable {v : Value}

theorem portableValue_null : PortableValue .null :=
  ⟨⟨fun _ h => absurd h List.not_mem_nil, fun _ h => absurd h List.not_mem_nil⟩,
    fun _ h => absurd h List.not_mem_nil⟩

theorem portableValue_string {s : String} (h : AsciiText s) : PortableValue (.string s) := by
  refine ⟨⟨?_, fun _ h => absurd h List.not_mem_nil⟩, fun _ h => absurd h List.not_mem_nil⟩
  intro t ht
  rw [Value.strings, List.mem_singleton] at ht
  rw [ht]
  exact h

theorem portableValue_array {items : List Value} :
    PortableValue (.array items) ↔ ∀ v ∈ items, PortableValue v := by
  constructor
  · intro h v hv
    refine ⟨⟨fun s hs => h.portable.1 s ?_, fun i hi => h.portable.2 i ?_⟩,
      fun n hn => h.integers n ?_⟩
    · exact Value.mem_stringsOfItems.mpr ⟨v, hv, hs⟩
    · exact Value.mem_numbersOfItems.mpr ⟨v, hv, hi⟩
    · exact Value.mem_numbersOfItems.mpr ⟨v, hv, hn⟩
  · intro h
    refine ⟨⟨fun s hs => ?_, fun i hi => ?_⟩, fun n hn => ?_⟩
    · obtain ⟨v, hv, hs⟩ := Value.mem_stringsOfItems.mp hs
      exact (h v hv).portable.1 s hs
    · obtain ⟨v, hv, hi⟩ := Value.mem_numbersOfItems.mp hi
      exact (h v hv).portable.2 i hi
    · obtain ⟨v, hv, hn⟩ := Value.mem_numbersOfItems.mp hn
      exact (h v hv).integers n hn

theorem portableValue_object {fields : List (String × Value)} :
    PortableValue (.object fields) ↔ ∀ e ∈ fields, AsciiText e.1 ∧ PortableValue e.2 := by
  constructor
  · intro h e he
    refine ⟨h.portable.1 e.1 ?_, ⟨fun s hs => h.portable.1 s ?_, fun i hi => h.portable.2 i ?_⟩,
      fun n hn => h.integers n ?_⟩
    · exact Value.mem_stringsOfFields.mpr ⟨e, he, .inl rfl⟩
    · exact Value.mem_stringsOfFields.mpr ⟨e, he, .inr hs⟩
    · exact Value.mem_numbersOfFields.mpr ⟨e, he, hi⟩
    · exact Value.mem_numbersOfFields.mpr ⟨e, he, hn⟩
  · intro h
    refine ⟨⟨fun s hs => ?_, fun i hi => ?_⟩, fun n hn => ?_⟩
    · obtain ⟨e, he, rfl | hs⟩ := Value.mem_stringsOfFields.mp hs
      · exact (h e he).1
      · exact (h e he).2.portable.1 s hs
    · obtain ⟨e, he, hi⟩ := Value.mem_numbersOfFields.mp hi
      exact (h e he).2.portable.2 i hi
    · obtain ⟨e, he, hn⟩ := Value.mem_numbersOfFields.mp hn
      exact (h e he).2.integers n hn

theorem PortableValue.sortKeys (h : PortableValue v) : PortableValue v.sortKeys := by
  induction v using Value.induct with
  | null | bool _ | number _ | string _ => exact h
  | array items ih =>
    rw [Value.sortKeys, Value.sortItems_eq, portableValue_array]
    rw [portableValue_array] at h
    intro w hw
    obtain ⟨v, hv, rfl⟩ := List.mem_map.mp hw
    exact ih v hv (h v hv)
  | object fields ih =>
    rw [Value.sortKeys, Value.sortFields_eq, portableValue_object]
    rw [portableValue_object] at h
    intro e he
    obtain ⟨e', he', rfl⟩ := List.mem_map.mp (sorted_map.mem_of_mem_ofList he)
    exact ⟨(h e' he').1, ih e'.1 e'.2 he' (h e' he').2⟩

end parts

/-! ## Both languages -/

variable {v : Value}

/-- The broker reads the value. -/
theorem PortableValue.valueOf_eq (h : PortableValue v) {f64 : List Char → Option FloatText} :
    valueOf f64 v = some v.sortKeys := by
  apply valueOf_eq_sortKeys
  intro n hn
  obtain ⟨i, rfl⟩ := h.integers n hn
  rw [numberOf, if_pos (h.portable.2 i hn)]

theorem PortableValue.canonical_json_eq (h : PortableValue v) :
    authority.canonical_json v.sortKeys = print compact ascii 0 v.sortKeys := by
  rw [authority.canonical_json_eq_print _ 0, (shell_core.sorted_sortKeys v).sortKeys_eq,
    print_raw_eq_ascii_iff]
  exact h.sortKeys.portable.1

/-- What the broker reads of the value has the hash that Python gives the value. -/
theorem PortableValue.canonical_hash_eq (h : PortableValue v) (sha256 : Bytes → Bytes) :
    authority.canonical_hash sha256 v.sortKeys =
      shell_core.approval_queue.canonical_hash sha256 v := by
  rw [authority.canonical_hash, h.canonical_json_eq]
  rfl

end canonical_parity
