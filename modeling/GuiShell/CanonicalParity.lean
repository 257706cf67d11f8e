-- The canonical hashes of Rust and of Python, side by side. They write the same bytes for
-- the values whose strings are printable ASCII and whose integers fit 64 bits, and for no
-- other value without floats.
import GuiShell.Broker.Canonical
import GuiShell.ShellCore.CanonicalHash

open json serde_json

namespace canonical_parity

/-! ## The two sides -/

/-- A JSON value with no floats in it, its objects as maps. -/
abbrev FloatFreeValue := { v : Value // v.Sorted ∧ ∀ n ∈ v.numbers, ∃ i, n = .int i }

variable (sha256 : Bytes → Bytes) (f64 : List Char → Option FloatText)

/-- The bytes that the Rust side hashes, once it has read the value. -/
def rustPreimage (v : Value) : Option Bytes :=
  (valueOf f64 v).map fun v => utf8.encode (.ofList (authority.canonical_json v))

def pythonPreimage (v : Value) : Bytes := utf8.encode (shell_core.dumps v)

/-- The two sides hash the same bytes, and so do both Python modules. -/
def HashesAgree (v : Value) : Prop :=
  rustPreimage f64 v = some (pythonPreimage v) ∧
    (valueOf f64 v).map (authority.canonical_hash sha256) =
      some (shell_core.approval_queue.canonical_hash sha256 v) ∧
    (valueOf f64 v).map (authority.canonical_hash sha256) =
      some (shell_core.audit_chain.canonical_hash sha256 v)

/-- Every character of every string and key is below U+007F, and every integer is one of
`i64` or of `u64`. -/
def Portable (v : Value) : Prop :=
  (∀ s ∈ v.strings, ∀ c ∈ s.toList, c.toNat < 0x7f) ∧ ∀ i, .int i ∈ v.numbers → keepsInt i = true

/-! ## The encoders -/

theorem rawEscape_of_le {c : Char} (h : 0x7f ≤ c.toNat) : rawEscape c = [c] := by
  have hs : shortEscape c = none := by
    unfold shortEscape
    split_ifs <;> first | rfl | (subst_vars; exact absurd h (by decide))
  have hc : ¬ c.toNat < 0x20 := by omega
  simp [rawEscape, hs, hc]

/-- The two texts of a value are the same exactly when its strings are printable ASCII. -/
theorem print_raw_eq_ascii_iff (v : Value) :
    print compact raw 0 v = print compact ascii 0 v ↔
      ∀ s ∈ v.strings, ∀ c ∈ s.toList, c.toNat < 0x7f := by
  constructor
  · intro h s hs c hc
    by_contra hlt
    have hin : c ∈ print compact raw 0 v := mem_print (rawEscape_of_le (by omega)) ⟨s, hs, hc⟩ 0
    have hrange : ∀ x ∈ print compact ascii 0 v, 0x20 ≤ x.toNat ∧ x.toNat ≤ 0x7e :=
      print_compact_chars ascii _ asciiEscape_range (fun _ hx => hx) 0 v
    have := hrange c (h ▸ hin)
    omega
  · exact fun h => print_congr (fun s hs c hc => (asciiEscape_eq_rawEscape (h s hs c hc)).symm) 0

variable {sha256 f64}

theorem readsItself_iff {v : Value} (hs : v.Sorted) (hn : ∀ n ∈ v.numbers, ∃ i, n = .int i) :
    valueOf f64 v = some v ↔ ∀ i, .int i ∈ v.numbers → keepsInt i = true := by
  rw [valueOf_eq_self_iff hs]
  constructor
  · intro h i hi
    by_contra hk
    have := h _ hi
    rw [numberOf, if_neg hk] at this
    simp at this
  · intro h n hin
    obtain ⟨i, rfl⟩ := hn n hin
    rw [numberOf, if_pos (h i hin)]

/-- Rust and Python hash a value alike exactly when the value is portable. -/
theorem hashes_agree_iff_portable (sha256 : Bytes → Bytes) (f64 : List Char → Option FloatText)
    (payload : FloatFreeValue) : HashesAgree sha256 f64 payload.val ↔ Portable payload.val := by
  obtain ⟨v, hs, hn⟩ := payload
  have hpython : pythonPreimage v = utf8.encode (.ofList (print compact ascii 0 v)) := by
    rw [pythonPreimage, shell_core.dumps, hs.sortKeys_eq]
  constructor
  · rintro ⟨hpre, _, _⟩
    obtain ⟨w, hw, htext⟩ := Option.map_eq_some_iff.mp hpre
    have hwsort := sorted_valueOf hw
    rw [hpython, authority.canonical_json_eq_print w 0, hwsort.sortKeys_eq] at htext
    have htext := utf8.encode_ofList_inj htext
    -- Both texts read back, so the value that Rust read is the value itself.
    have hwv : w = v := by
      have h1 := parse_print raw compact 0 w
      rw [htext, parse_print ascii compact 0 v] at h1
      exact (Option.some.inj h1).symm
    subst hwv
    exact ⟨(print_raw_eq_ascii_iff w).mp htext, (readsItself_iff hs hn).mp hw⟩
  · rintro ⟨hstrings, hints⟩
    have hv : valueOf f64 v = some v := (readsItself_iff hs hn).mpr hints
    have htext : utf8.encode (.ofList (authority.canonical_json v)) =
        utf8.encode (shell_core.dumps v) := by
      rw [authority.canonical_json_eq_print v 0, shell_core.dumps, hs.sortKeys_eq,
        (print_raw_eq_ascii_iff v).mpr hstrings]
    have hhash : ∀ h : String, h = "sha256:" ++ hex.encode (sha256 (utf8.encode (shell_core.dumps v))) →
        (valueOf f64 v).map (authority.canonical_hash sha256) = some h := by
      rintro h rfl
      rw [hv, Option.map_some, authority.canonical_hash, htext]
      rfl
    refine ⟨?_, hhash _ rfl, hhash _ rfl⟩
    rw [rustPreimage, hv, Option.map_some, htext, pythonPreimage]

/-- The string of one letter with an accent. -/
def accented : FloatFreeValue := ⟨.string "é", trivial, by simp [Value.numbers]⟩

theorem accented_not_portable : ¬ Portable accented.val := by
  intro h
  have := h.1 "é" (by simp [accented, Value.strings]) 'é' (by decide)
  exact absurd this (by decide)

theorem hashes_disagree_on_accented :
    ¬ ∀ (sha256 : Bytes → Bytes) (f64 : List Char → Option FloatText) (payload : FloatFreeValue),
      HashesAgree sha256 f64 payload.val := by
  intro h
  exact accented_not_portable
    ((hashes_agree_iff_portable fips.digest (fun _ => none) accented).mp (h _ _ _))

end canonical_parity
