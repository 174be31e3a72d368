import LittleScheme.Integer64
import LittleScheme.Text.Decimal
import Mathlib.Data.List.TakeWhile
import Mathlib.Tactic.Common

/-!
# Decimal notation

Integers are printed in plain notation and read back from it (`numeral_decimal`).  A text in plain
notation has the value in lenient notation that it has in plain notation, unless it has too many
digits to be converted; signed 64-bit integers have few enough digits.
-/

namespace LittleScheme.Text

/-- An optional sign, and one ASCII digit or more. -/
def Plain (cs : List Char) : Prop :=
  (splitSign cs).2 ≠ [] ∧ ∀ c ∈ (splitSign cs).2, c.isDigit = true

/-! ## Digits -/

theorem isDigit_iff {c : Char} : c.isDigit = true ↔ 48 ≤ c.toNat ∧ c.toNat ≤ 57 := by
  simp only [Char.isDigit, Bool.and_eq_true, decide_eq_true_eq, ge_iff_le, UInt32.le_iff_toNat_le]
  rfl

theorem digitValue?_of_isDigit {c : Char} (h : c.isDigit = true) :
    digitValue? c = some (c.toNat - 48) := by
  have bounds := isDigit_iff.1 h
  simp [digitValue?, zeros, bounds]

theorem isNumeralChar_of_isDigit {c : Char} (h : c.isDigit = true) : isNumeralChar c = true := by
  simp [isNumeralChar, isDecimalDigit, digitValue?_of_isDigit h]

theorem isPadding_of_isDigit {c : Char} (h : c.isDigit = true) : isPadding c = false := by
  obtain ⟨low, high⟩ := isDigit_iff.1 h
  simp [isPadding, isBlank]
  omega

/-- Digits alone are grouped. -/
theorem isGrouped_of_isDigit {cs : List Char} (digits : ∀ c ∈ cs, c.isDigit = true)
    (afterDigit : Bool) : isGrouped afterDigit cs = (afterDigit || !cs.isEmpty) := by
  induction cs generalizing afterDigit with
  | nil => simp [isGrouped]
  | cons c cs ih =>
    have other : c ≠ '_' := by
      rintro rfl
      exact absurd (digits '_' (by simp)) (by decide)
    simp [isGrouped, other, ih fun c member => digits c (by simp [member])]

theorem foldl_digitValue? {cs : List Char} (digits : ∀ c ∈ cs, c.isDigit = true) (n : Nat) :
    (cs.filterMap digitValue?).foldl (10 * · + ·) n = Nat.ofDigitChars 10 cs n := by
  induction cs generalizing n with
  | nil => rfl
  | cons c cs ih =>
    have value := digitValue?_of_isDigit (digits c (by simp))
    rw [List.filterMap_cons, value, List.foldl_cons, Nat.ofDigitChars_cons]
    exact ih (fun c member => digits c (by simp [member])) _

theorem length_filterMap_digitValue? {cs : List Char} (digits : ∀ c ∈ cs, c.isDigit = true) :
    (cs.filterMap digitValue?).length = cs.length := by
  induction cs with
  | nil => rfl
  | cons c cs ih =>
    have value := digitValue?_of_isDigit (digits c (by simp))
    rw [List.filterMap_cons, value, List.length_cons, List.length_cons,
      ih fun c member => digits c (by simp [member])]

/-! ## Values -/

/-- Nothing stands in front of plain notation that could be taken off. -/
theorem Plain.dropWhile_isPadding {cs : List Char} (plain : Plain cs) :
    cs.dropWhile isPadding = cs := by
  have head : ∃ c rest, cs = c :: rest ∧ isPadding c = false := by
    obtain ⟨nonempty, digits⟩ := plain
    cases cs with
    | nil => simp [splitSign] at nonempty
    | cons c rest =>
      refine ⟨c, rest, rfl, ?_⟩
      by_cases minus : c = '-'
      · subst minus
        decide
      · by_cases plus : c = '+'
        · subst plus
          decide
        · refine isPadding_of_isDigit (digits c ?_)
          simp [splitSign, minus, plus]
  obtain ⟨c, rest, rfl, other⟩ := head
  simp [other]

/-- The lenient value of plain notation. -/
theorem numeral_of_plain {cs : List Char} (plain : Plain cs) :
    numeral cs =
      if digitLimit < (splitSign cs).2.length then .error (.tooLong (splitSign cs).2.length)
      else .ok (signed (splitSign cs).1 (Nat.ofDigitChars 10 (splitSign cs).2 0)) := by
  obtain ⟨nonempty, digits⟩ := id plain
  rw [numeral]
  rw [plain.dropWhile_isPadding]
  generalize splitSign cs = parts at nonempty digits ⊢
  obtain ⟨negative, body⟩ := parts
  have all : ∀ c ∈ body, isNumeralChar c = true :=
    fun c member => isNumeralChar_of_isDigit (digits c member)
  have run : body.takeWhile isNumeralChar = body := List.takeWhile_eq_self_iff.2 all
  have rest : body.dropWhile isNumeralChar = [] := List.dropWhile_eq_nil_iff.2 all
  have grouped : isGrouped false body = true := by
    rw [isGrouped_of_isDigit digits]
    simpa using nonempty
  simp only [run, rest, grouped, length_filterMap_digitValue? digits, foldl_digitValue? digits]
  simp

/-- A text in plain notation is read exactly if it has few enough digits. -/
theorem numeral_eq_ok_iff {cs : List Char} (plain : Plain cs) (value : Int) :
    numeral cs = .ok value ↔
      (splitSign cs).2.length ≤ digitLimit ∧ decimalValue? cs = some value := by
  have digits : decimalValue? cs =
      some (signed (splitSign cs).1 (Nat.ofDigitChars 10 (splitSign cs).2 0)) := by
    have all : (splitSign cs).2.all Char.isDigit = true := List.all_eq_true.2 plain.2
    simp [decimalValue?, unsignedValue?, plain.1, all]
  rw [numeral_of_plain plain, digits]
  split
  · rename_i long
    simp [Nat.not_le.2 long]
  · rename_i short
    simp [Nat.not_lt.1 short]

/-! ## Printed integers -/

theorem isDigit_of_mem_toDigits {n : Nat} {c : Char} (member : c ∈ Nat.toDigits 10 n) :
    c.isDigit = true :=
  Nat.isDigit_of_mem_toDigits (by decide) (by decide) member

/-- Digits have no sign. -/
theorem splitSign_of_isDigit {cs : List Char} (digits : ∀ c ∈ cs, c.isDigit = true) :
    splitSign cs = (false, cs) := by
  cases cs with
  | nil => rfl
  | cons c cs =>
    have digit := digits c (by simp)
    have minus : c ≠ '-' := by
      rintro rfl
      exact absurd digit (by decide)
    have plus : c ≠ '+' := by
      rintro rfl
      exact absurd digit (by decide)
    simp [splitSign, minus, plus]

theorem splitSign_decimal (n : Int) :
    splitSign (decimal n) = (decide (n < 0), Nat.toDigits 10 n.natAbs) := by
  cases n with
  | ofNat n =>
    rw [decimal, splitSign_of_isDigit fun c => isDigit_of_mem_toDigits]
    simp
  | negSucc n => simp [decimal, splitSign]

/-- Integers are printed in plain notation. -/
theorem plain_decimal (n : Int) : Plain (decimal n) := by
  rw [Plain]
  rw [splitSign_decimal]
  exact ⟨Nat.toDigits_ne_nil, fun c => isDigit_of_mem_toDigits⟩

theorem signed_natAbs (n : Int) : signed (decide (n < 0)) n.natAbs = n := by
  by_cases negative : n < 0
  · simp only [signed, negative, decide_true, if_true]
    omega
  · simp only [signed, negative, decide_false]
    simp
    omega

/-- Integers in range are read back as they are printed. -/
theorem numeral_decimal {n : Int} (inRange : Integer64.InRange n) :
    numeral (decimal n) = .ok n := by
  have short : (Nat.toDigits 10 n.natAbs).length ≤ 19 := by
    rw [Nat.length_toDigits_le_iff (by decide) (by decide)]
    rw [Integer64.InRange, Integer64.least, Integer64.greatest] at inRange
    omega
  have converted : ¬digitLimit < (Nat.toDigits 10 n.natAbs).length := by
    rw [digitLimit]
    omega
  rw [numeral_of_plain (plain_decimal n), splitSign_decimal]
  simp only [converted, if_false]
  rw [Nat.ofDigitChars_ten_toDigits, signed_natAbs]

end LittleScheme.Text
