import LittleScheme.Fault
import LittleScheme.Proofs.Text.OneLine

/-!
# What errors say

Most errors are told in the same words for all programs, up to numbers and the names of operators.
`Error.quotes` is the exception: a part of the source, a name, or the description of a value.  The
report of an error stands on one line if what it quotes does.

Faults are sorted as well.  `Fault.isInternal` tells of a value of the wrong kind, and
`Fault.isGeneric` of nothing of the kind; `Fault.reported` is the fault that a line is left with.
-/

namespace LittleScheme

open Text

/-- The texts that the wording of an error quotes. -/
def Error.quotes : Error → List String
  | .illegalCharacter text | .literalOutOfRange text => [text]
  | .unknownToken token => [token.kind.name, token.text]
  | .unbound name => [name]
  | .cannotApply shown | .cannotEvaluate shown | .cannotPrint shown => [shown]
  | _ => []

/-- The texts that the wording of a fault quotes, if it is an error. -/
def Fault.quotes : Fault → List String
  | .error e => e.quotes
  | _ => []

/-- Faults that come of a value of the wrong kind where evaluation and printing rely on the right
one, or of frames that go round where they rely on an outermost one. -/
def Fault.isInternal : Fault → Bool
  | .namelessParameter _ | .endless => true
  | .error (.cannotApply _) | .error (.cannotEvaluate _) | .error (.cannotPrint _) => true
  | _ => false

/-- Faults that evaluation may stop with whatever the program is made of: errors that quote nothing,
and a depth that is used up. -/
def Fault.isGeneric : Fault → Bool
  | .error e => !(Fault.error e).isInternal && e.quotes.isEmpty
  | .tooDeep => true
  | _ => false

theorem Fault.isInternal_of_isGeneric {fault : Fault} (generic : fault.isGeneric = true) :
    fault.isInternal = false := by
  cases fault <;> simp_all [isGeneric, isInternal]

theorem Fault.quotes_of_isGeneric {fault : Fault} (generic : fault.isGeneric = true) :
    fault.quotes = [] := by
  cases fault <;> simp_all [isGeneric, quotes]

theorem Fault.isGeneric_cases {fault : Fault} (generic : fault.isGeneric = true) :
    fault = .tooDeep ∨ ∃ e, fault = .error e := by
  cases fault <;> simp_all [isGeneric]

/-- The fault as it is reported: a depth that is used up is the error `deep`. -/
def Fault.reported (deep : Error) : Fault → Fault
  | .tooDeep => .error deep
  | fault => fault

theorem Fault.reported_eq (fault : Fault) (deep : Error) :
    fault.reported deep = fault ∨ fault.reported deep = .error deep := by
  cases fault <;> simp [reported]

theorem Fault.reported_ne_tooDeep (fault : Fault) (deep : Error) :
    fault.reported deep ≠ .tooDeep := by
  cases fault <;> simp [reported]

theorem Op.oneLine_name (op : Op) : OneLine op.name := by
  cases op with
  | form f => cases f <;> decide +kernel
  | primitive p => cases p <;> decide +kernel

theorem Callee.oneLine_name (callee : Callee) : OneLine callee.name := by
  cases callee with
  | op operator => exact operator.oneLine_name
  | closure => decide +kernel

/-- What an error says stands on one line if what it quotes does. -/
theorem Error.oneLine_message {e : Error} (quoted : ∀ text ∈ e.quotes, OneLine text) :
    OneLine e.message := by
  have number (n : Int) := (oneLine_decimalText n).2
  cases e with
  | illegalCharacter text | literalOutOfRange text =>
    exact OneLine.append (by decide +kernel) (quoted text (by simp [quotes])).2
  | cannotApply shown | cannotEvaluate shown | cannotPrint shown =>
    exact OneLine.append (by decide +kernel) (quoted shown (by simp [quotes])).2
  | unknownToken token =>
    have kind := (quoted token.kind.name (by simp [quotes])).2
    have text := (quoted token.text (by simp [quotes])).2
    exact ((OneLine.append (by decide +kernel) kind).append (by decide +kernel)).append text
  | unbound name => exact (quoted name (by simp [quotes])).append (by decide +kernel)
  | wrongCount callee expected got | tooFew callee expected got =>
    exact (((callee.oneLine_name.append (by decide +kernel)).append (number _)).append
      (by decide +kernel)).append (number _)
  | branchShape n | indexOutOfRange n =>
    exact (OneLine.append (by decide +kernel) (number _)).append (by decide +kernel)
  | pairExpected op => exact op.oneLine_name.append (by decide +kernel)
  | numbersExpected p =>
    have name := (Op.oneLine_name (.primitive p)).2
    exact (OneLine.append (by decide +kernel) name).append (by decide +kernel)
  | indexExpected p => exact (Op.oneLine_name (.primitive p)).append (by decide +kernel)
  | tokenExpected | closeUnexpected | dotUnexpected | unmatchedOpen | closeExpected
  | trailingTokens | nestingTooDeep | parameterExpected | procedureNameExpected | defineShape
  | assignTarget | notCallable | divisionByZero | recursionTooDeep => decide +kernel
  | improperList category =>
    change OneLine "Must be proper list"
    decide +kernel

/-- An error is reported on one line if what it quotes stands on one line. -/
theorem Error.oneLine_report {e : Error} (quoted : ∀ text ∈ e.quotes, OneLine text) :
    OneLine e.report := by
  have label : OneLine e.category.label := by cases e.category <;> decide +kernel
  exact (label.append (by decide +kernel)).append (oneLine_message quoted).2

end LittleScheme
