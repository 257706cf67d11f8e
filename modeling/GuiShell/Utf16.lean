-- Strings in the order of their UTF-16 code units, as Dart compares them. It differs from
-- the order of the code points where a character above U+FFFF meets one from U+E000 on.
import GuiShell.Json.Escapers
import Mathlib.Data.List.Lex

namespace utf16

/-- The code units of a character, a surrogate pair above U+FFFF. -/
def charUnits (c : Char) : List Nat :=
  if c.toNat < 0x10000 then [c.toNat]
  else [0xd800 + (c.toNat - 0x10000) / 0x400, 0xdc00 + (c.toNat - 0x10000) % 0x400]

def codeUnits (s : String) : List Nat := s.toList.flatMap charUnits

/-- The units of the first character give it back, whatever comes after it. -/
theorem charUnits_append_inj {c d : Char} {l m : List Nat}
    (h : charUnits c ++ l = charUnits d ++ m) : c = d ∧ l = m := by
  have hc := json.toNat_not_surrogate c
  have hd := json.toNat_not_surrogate d
  have hcmax := json.toNat_lt c
  have hdmax := json.toNat_lt d
  have heq : c.toNat = d.toNat → c = d := Char.toNat_inj.mp
  unfold charUnits at h
  split at h <;> split at h <;>
    simp only [List.cons_append, List.nil_append, List.cons.injEq] at h
  · exact ⟨heq h.1, h.2⟩
  · omega
  · omega
  · obtain ⟨h1, h2, h3⟩ := h
    exact ⟨heq (by omega), h3⟩

theorem flatMap_charUnits_inj {l m : List Char}
    (h : l.flatMap charUnits = m.flatMap charUnits) : l = m := by
  have hne : ∀ c : Char, charUnits c ≠ [] := fun c => by
    unfold charUnits
    split <;> simp
  induction l generalizing m with
  | nil =>
    cases m with
    | nil => rfl
    | cons d m => simp [hne] at h
  | cons c l ih =>
    cases m with
    | nil => simp [hne] at h
    | cons d m =>
      obtain ⟨rfl, hrest⟩ := charUnits_append_inj h
      rw [ih hrest]

theorem codeUnits_injective : Function.Injective codeUnits := fun _ _ h =>
  String.toList_inj.mp (flatMap_charUnits_inj h)

/-- A string as a key in the order of its code units. -/
@[ext] structure Key where
  val : String
  deriving DecidableEq

theorem Key.units_injective : Function.Injective fun k : Key => codeUnits k.val := fun _ _ h =>
  Key.ext (codeUnits_injective h)

instance : LinearOrder Key := LinearOrder.lift' (fun k => codeUnits k.val) Key.units_injective

theorem Key.lt_iff (a b : Key) : a < b ↔ codeUnits a.val < codeUnits b.val := Iff.rfl

end utf16
