import Mathlib.Data.List.Basic
import Mathlib.Tactic.Ring
import ScopedScript.Machine.Operators

/-!
# Integers as text

The conversions between integers and texts. What a text must look like to be read is said without
the reader: a text spells an integer with digits after at most one sign, and the integer is the sum
of the digits, each times the power of ten of its place. The range of the words is cut off at both
ends, one more below than above; the text of every word lies within it.
-/

namespace ScopedScript

namespace Decimal

/-- The number that digits stand for, the highest place first. -/
def places : List Char → Nat
  | [] => 0
  | c :: cs => digitValue c * 10 ^ cs.length + places cs

/-- One ASCII digit or more. -/
def Digits (cs : List Char) : Prop :=
  cs ≠ [] ∧ ∀ c ∈ cs, '0' ≤ c ∧ c ≤ '9'

/-- The texts of an integer of any size. -/
inductive Spells : List Char → Int → Prop
  | plain {cs : List Char} : Digits cs → Spells cs (places cs)
  | plus {cs : List Char} : Digits cs → Spells ('+' :: cs) (places cs)
  | minus {cs : List Char} : Digits cs → Spells ('-' :: cs) (-places cs)

theorem value_eq_places (cs : List Char) : value cs = places cs := by
  have step : ∀ (cs : List Char) (n : Nat),
      cs.foldl (fun n c => 10 * n + digitValue c) n = n * 10 ^ cs.length + places cs := by
    intro cs
    induction cs with
    | nil => simp [places]
    | cons c cs ih =>
      intro n
      rw [List.foldl_cons, ih, places, List.length_cons, Nat.pow_succ]
      ring
  simpa [value] using step cs 0

theorem isDigit_iff (c : Char) : c.isDigit = true ↔ '0' ≤ c ∧ c ≤ '9' :=
  Char.isDigit_iff_toNat

theorem digits_iff (cs : List Char) : Digits cs ↔ readNat? cs = some (places cs) := by
  simp only [readNat?, value_eq_places, Digits, ← isDigit_iff]
  cases cs <;> simp

theorem readNat?_eq_some {cs : List Char} {n : Nat} (h : readNat? cs = some n) :
    Digits cs ∧ n = places cs := by
  have known : n = places cs := by
    simp only [readNat?, value_eq_places] at h
    split at h
    · cases h
    · exact (Option.some.inj h).symm
  exact ⟨(digits_iff cs).mpr (known ▸ h), known⟩

/-- A sign is no digit, so that digits are read without one. -/
theorem readInt?_digits {cs : List Char} (h : Digits cs) :
    readInt? cs = (readNat? cs).map Int.ofNat := by
  obtain ⟨-, digit⟩ := h
  unfold readInt?
  split
  next => exact absurd (digit '+' (by simp)) (by decide)
  next => exact absurd (digit '-' (by simp)) (by decide)
  next => rfl

/-- The reader takes a text for the integer that it spells. -/
theorem readInt?_iff (cs : List Char) (n : Int) : readInt? cs = some n ↔ Spells cs n := by
  constructor
  · intro h
    unfold readInt? at h
    split at h <;> obtain ⟨k, read, rfl⟩ := Option.map_eq_some_iff.mp h <;>
      obtain ⟨digits, rfl⟩ := readNat?_eq_some read
    · exact .plus digits
    · exact .minus digits
    · exact .plain digits
  · rintro (digits | digits | digits)
    · simp [readInt?_digits digits, (digits_iff _).mp digits]
    · simp [readInt?, (digits_iff _).mp digits]
    · simp [readInt?, (digits_iff _).mp digits]

/-! ### The text of an integer -/

theorem digits_toDigits (n : Nat) : Digits (Nat.toDigits 10 n) :=
  ⟨Nat.toDigits_ne_nil, fun c hc =>
    (isDigit_iff c).mp (Nat.isDigit_of_mem_toDigits (by decide) (by decide) hc)⟩

theorem places_toDigits (n : Nat) : places (Nat.toDigits 10 n) = n := by
  rw [← value_eq_places]
  exact Nat.ofDigitChars_toDigits (by decide) (by decide)

theorem spells_intText (n : Int) : Spells (intText n).toList n := by
  have digits := digits_toDigits n.natAbs
  have whole := places_toDigits n.natAbs
  unfold intText
  split
  next negative =>
    have text : ("-" ++ natText n.natAbs).toList = '-' :: Nat.toDigits 10 n.natAbs := by
      simp [natText]
    have number : n = -(places (Nat.toDigits 10 n.natAbs) : Int) := by omega
    rw [text]
    conv => arg 2; rw [number]
    exact .minus digits
  next nonneg =>
    have text : (natText n.natAbs).toList = Nat.toDigits 10 n.natAbs := by simp [natText]
    have number : n = (places (Nat.toDigits 10 n.natAbs) : Int) := by omega
    rw [text]
    conv => arg 2; rw [number]
    exact .plain digits

theorem toWord?_iff (n : Int) (k : Int64) : toWord? n = some k ↔ k.toInt = n := by
  constructor
  · intro h
    unfold toWord? at h
    split at h
    next bounds =>
      obtain rfl := Option.some.inj h
      have lower : -2 ^ 63 ≤ n := bounds.1
      have upper : n ≤ 2 ^ 63 - 1 := bounds.2
      exact Int64.toInt_ofInt_of_le lower (by omega)
    next => cases h
  · rintro rfl
    exact toWord?_toInt k

/-- The words are the integers from `-2 ^ 63` up to `2 ^ 63`, that one left out. -/
theorem forall_toInt_iff (p : Int → Prop) :
    (∀ k : Int64, ¬p k.toInt) ↔ ∀ z : Int, p z → ¬(-2 ^ 63 ≤ z ∧ z < 2 ^ 63) := by
  constructor
  · rintro none z hz ⟨lower, upper⟩
    exact none (Int64.ofInt z) (by rwa [Int64.toInt_ofInt_of_le lower upper])
  · intro outside k hk
    exact outside k.toInt hk ⟨k.le_toInt, k.toInt_lt⟩

theorem readWord?_iff (cs : List Char) (k : Int64) :
    readWord? cs = some k ↔ Spells cs k.toInt := by
  simp [readWord?, Option.bind_eq_some_iff, readInt?_iff, toWord?_iff]

end Decimal

namespace Text

theorem isBlank_of_digit {c : Char} (h : '0' ≤ c ∧ c ≤ '9') : isBlank c = false := by
  obtain ⟨lower, upper⟩ : 48 ≤ c.toNat ∧ c.toNat ≤ 57 := h
  simp only [isBlank, blankRanges, List.any_cons, List.any_nil, Bool.or_false,
    Bool.or_eq_false_iff, Bool.and_eq_false_iff, decide_eq_false_iff_not]
  omega

/-- A text that spells an integer has no blanks, and it is not empty. -/
theorem solid_of_spells {cs : List Char} {n : Int} (h : Decimal.Spells cs n) :
    cs ≠ [] ∧ ∀ c ∈ cs, isBlank c = false := by
  obtain ⟨nonempty, digit⟩ | ⟨-, digit⟩ | ⟨-, digit⟩ := h
  · exact ⟨nonempty, fun c hc => isBlank_of_digit (digit c hc)⟩
  · refine ⟨List.cons_ne_nil _ _, List.forall_mem_cons.mpr ⟨by decide, ?_⟩⟩
    exact fun c hc => isBlank_of_digit (digit c hc)
  · refine ⟨List.cons_ne_nil _ _, List.forall_mem_cons.mpr ⟨by decide, ?_⟩⟩
    exact fun c hc => isBlank_of_digit (digit c hc)

theorem dropWhile_blanks {w cs : List Char} (blanks : ∀ c ∈ w, isBlank c = true)
    (nonempty : cs ≠ []) (solid : ∀ c ∈ cs, isBlank c = false) (rest : List Char) :
    (w ++ (cs ++ rest)).dropWhile isBlank = cs ++ rest := by
  rw [List.dropWhile_append_of_pos blanks]
  obtain ⟨c, cs, rfl⟩ := List.exists_cons_of_ne_nil nonempty
  exact List.dropWhile_cons_of_neg (by simp [solid c])

/-- Blanks around a text that has none are what trimming removes. -/
theorem trimmed_append {w₁ cs w₂ : List Char} (h₁ : ∀ c ∈ w₁, isBlank c = true)
    (nonempty : cs ≠ []) (solid : ∀ c ∈ cs, isBlank c = false)
    (h₂ : ∀ c ∈ w₂, isBlank c = true) : trimmed (w₁ ++ cs ++ w₂) = cs := by
  have back : (w₂.reverse ++ (cs.reverse ++ [])).dropWhile isBlank = cs.reverse ++ [] :=
    dropWhile_blanks (by simpa using h₂) (by simpa using nonempty) (by simpa using solid) []
  rw [List.append_nil] at back
  rw [trimmed, List.append_assoc, dropWhile_blanks h₁ nonempty solid, List.reverse_append, back,
    List.reverse_reverse]

end Text

namespace Operator

theorem readInt_eq_ok (s : String) (k : Int64) :
    readInt s = .ok (.int k) ↔ Decimal.Spells (Text.trimmed s.toList) k.toInt := by
  rw [← Decimal.readWord?_iff, readInt]
  cases Decimal.readWord? (Text.trimmed s.toList) <;>
    simp [pure, Except.pure, throw, throwThe, MonadExceptOf.throw]

theorem readInt_eq_error (s : String) :
    readInt s = .error (.unreadable s .int) ↔
      ∀ k : Int64, ¬Decimal.Spells (Text.trimmed s.toList) k.toInt := by
  simp only [← Decimal.readWord?_iff, readInt]
  cases Decimal.readWord? (Text.trimmed s.toList) <;>
    simp [pure, Except.pure, throw, throwThe, MonadExceptOf.throw]

theorem convert_string_to_int (m : Module) {v : Value} {s : String} (h : v.unboxed = .string s) :
    convert m .int v = readInt s := by
  simp only [convert, h]

theorem convert_int_to_string (m : Module) {v : Value} {n : Int64} (h : v.unboxed = .int n) :
    convert m .string v = .ok (.string (Decimal.wordText n)) := by
  simp only [convert, h, Value.text]
  rfl

/-- The text of an integer, with any blanks around it, is read as that integer. What is read from a
text, in boxes or in none, is the integer of 64 bits that it spells without the blanks at its ends,
and a text that spells none is refused. -/
theorem integer_text_exact (m : Module) :
    (∀ (n : Int64) (w₁ w₂ : String), (∀ c ∈ w₁.toList, Text.isBlank c) →
      (∀ c ∈ w₂.toList, Text.isBlank c) → ∃ t : String,
        convert m .string (.int n) = .ok (.string t) ∧
          convert m .int (.string (w₁ ++ t ++ w₂)) = .ok (.int n)) ∧
    ∀ (s : String) (v : Value), v.unboxed = .string s →
      (∀ k : Int64, convert m .int v = .ok (.int k) ↔
        Decimal.Spells (Text.trimmed s.toList) k.toInt) ∧
      (convert m .int v = .error (.unreadable s .int) ↔
        ∀ z : Int, Decimal.Spells (Text.trimmed s.toList) z → ¬(-2 ^ 63 ≤ z ∧ z < 2 ^ 63)) := by
  constructor
  · intro n w₁ w₂ h₁ h₂
    refine ⟨_, convert_int_to_string m rfl, ?_⟩
    rw [convert_string_to_int m rfl, readInt_eq_ok]
    have spelled := Decimal.spells_intText n.toInt
    obtain ⟨nonempty, solid⟩ := Text.solid_of_spells spelled
    rw [String.toList_append, String.toList_append]
    exact (Text.trimmed_append h₁ nonempty solid h₂).symm ▸ spelled
  · intro s v h
    rw [convert_string_to_int m h]
    exact ⟨readInt_eq_ok s, (readInt_eq_error s).trans (Decimal.forall_toInt_iff _)⟩

end Operator

end ScopedScript
