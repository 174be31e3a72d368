import LittleScheme.Operator
import LittleScheme.Text.Decimal
import LittleScheme.Text.Quoted
import LittleScheme.Token

/-!
# Errors and faults

An `Error` is what a line of a program can do wrong: it is reported under the label of its
`Category`, and the session goes on.  A `Fault` is any way in which a computation comes to no
result: an error, an integer literal or a hand-made value that nothing is prepared for, a depth that
is used up, or `endless`, for a loop that does not end.  The last is told apart from the others so
that theorems can say where a result exists; nobody ever sees it.
-/

namespace LittleScheme

open Text

/-- The categories of errors: malformed source or form, unbound name, misuse of a value. -/
inductive Category
  | grammar | naming | runtime
deriving DecidableEq

/-- The label that an error of the category is reported under. -/
def Category.label : Category → String
  | .grammar => "Syntax error"
  | .naming => "Name error"
  | .runtime => "Runtime error"

/-- What operands are handed to: an operator, or a procedure made by `lambda`. -/
inductive Callee
  | op (operator : Op)
  | closure
deriving DecidableEq

namespace Callee

/-- The name that a message gives the callee. -/
def name : Callee → String
  | .op operator => operator.name
  | .closure => Form.name .lambda

/-- A wrong number of operands is an error of grammar for a form, and of runtime for the rest. -/
def category : Callee → Category
  | .op (.form _) => .grammar
  | .op (.primitive _) => .runtime
  | .closure => .runtime

end Callee

/-- The causes of errors. -/
inductive Error
  /-- A token that is neither a boolean nor a name. -/
  | illegalCharacter (text : String)
  /-- The source ends where a datum must begin. -/
  | tokenExpected
  /-- A literal outside of the signed 64-bit range. -/
  | literalOutOfRange (text : String)
  /-- A closing bracket where a datum must begin. -/
  | closeUnexpected
  /-- A dot where a datum must begin. -/
  | dotUnexpected
  /-- A token of a kind that has no meaning. -/
  | unknownToken (token : Token)
  /-- The source ends inside a list. -/
  | unmatchedOpen
  /-- The datum after a dot is not the last one in its list. -/
  | closeExpected
  /-- The source goes on after one datum. -/
  | trailingTokens
  /-- The brackets and quotes of the source nest too deeply. -/
  | nestingTooDeep
  /-- A list is improper or cyclic; the category is that of whoever asks for the list. -/
  | improperList (category : Category)
  /-- The number of operands is not the one expected. -/
  | wrongCount (callee : Callee) (expected got : Nat)
  /-- The number of operands is less than the least accepted. -/
  | tooFew (callee : Callee) (least got : Nat)
  /-- A conditional with neither two nor three operands. -/
  | branchShape (got : Nat)
  /-- A parameter that is not a symbol. -/
  | parameterExpected
  /-- The definition of a procedure whose name is not a symbol. -/
  | procedureNameExpected
  /-- A definition of something that is neither a symbol nor a proper list. -/
  | defineShape
  /-- An assignment to something that is not a symbol. -/
  | assignTarget
  /-- A name that no frame in scope binds. -/
  | unbound (name : String)
  /-- The head of an application is not a procedure. -/
  | notCallable
  /-- Something that is not a procedure is applied. -/
  | cannotApply (shown : String)
  /-- An expression that has no value. -/
  | cannotEvaluate (shown : String)
  /-- A value that has no printed form. -/
  | cannotPrint (shown : String)
  /-- An operand is not a pair. -/
  | pairExpected (op : Op)
  /-- An operand is not an integer. -/
  | numbersExpected (primitive : Primitive)
  /-- An index is not an integer. -/
  | indexExpected (primitive : Primitive)
  /-- An index into a list that is negative or too large. -/
  | indexOutOfRange (index : Int)
  /-- A divisor is zero. -/
  | divisionByZero
  /-- Evaluation, copying or printing nests too deeply. -/
  | recursionTooDeep
deriving DecidableEq

namespace Error

/-- The category under which an error is reported. -/
def category : Error → Category
  | .illegalCharacter _ | .tokenExpected | .literalOutOfRange _ | .closeUnexpected
  | .dotUnexpected | .unknownToken _ | .unmatchedOpen | .closeExpected | .trailingTokens
  | .nestingTooDeep => .grammar
  | .improperList category => category
  | .wrongCount callee _ _ | .tooFew callee _ _ => callee.category
  | .branchShape _ | .parameterExpected | .procedureNameExpected | .defineShape
  | .assignTarget => .grammar
  | .unbound _ => .naming
  | .notCallable | .cannotApply _ | .cannotEvaluate _ | .cannotPrint _ | .pairExpected _
  | .numbersExpected _ | .indexExpected _ | .indexOutOfRange _ | .divisionByZero
  | .recursionTooDeep => .runtime

/-- The wording of an error. -/
def message : Error → String
  | .illegalCharacter text => "Illegal character " ++ text
  | .tokenExpected => "No token, but expected"
  | .literalOutOfRange text => "Integer literal out of range: " ++ text
  | .closeUnexpected => "Close bracket unexpected"
  | .dotUnexpected => "Dot unexpected"
  | .unknownToken token => "Unknown token: " ++ token.kind.name ++ " " ++ token.text
  | .unmatchedOpen => "Unmatched '('"
  | .closeExpected => "Close bracket expected"
  | .trailingTokens => "Unexpected tokens"
  | .nestingTooDeep => "maximum nesting depth exceeded"
  | .improperList _ => "Must be proper list"
  | .wrongCount callee expected got =>
    callee.name ++ " requires " ++ decimalText expected ++ " argument(s), but got " ++
      decimalText got
  | .tooFew callee least got =>
    callee.name ++ " requires at least " ++ decimalText least ++ " argument(s), but got " ++
      decimalText got
  | .branchShape got =>
    "if requires a condition, a then-branch and an optional else-branch, got " ++
      decimalText got ++ " operands"
  | .parameterExpected => "Symbols expected in parameter list"
  | .procedureNameExpected => "define requires a symbol as procedure name"
  | .defineShape => "Invalid arguments for define"
  | .assignTarget => "set! first argument must be a symbol"
  | .unbound name => name ++ " not found"
  | .notCallable => "Head of application is not callable"
  | .cannotApply shown => "Cannot apply non-procedure " ++ shown
  | .cannotEvaluate shown => "Cannot evaluate " ++ shown
  | .cannotPrint shown => "Unknown object " ++ shown
  | .pairExpected op => op.name ++ " requires a pair"
  | .numbersExpected primitive => "All arguments to " ++ primitive.name ++ " must be numbers"
  | .indexExpected primitive => primitive.name ++ " requires an integer index"
  | .indexOutOfRange index => "list-ref index " ++ decimalText index ++ " out of range"
  | .divisionByZero => "Division by zero"
  | .recursionTooDeep => "maximum recursion depth exceeded"

/-- How an error is reported to the user: its label and its wording. -/
def report (e : Error) : String := e.category.label ++ ": " ++ e.message

end Error

/-- The ways in which a computation comes to no result. -/
inductive Fault
  /-- An error of the program. -/
  | error (error : Error)
  /-- An integer literal with more digits than are converted. -/
  | literalTooLong (digits : Nat)
  /-- A hand-made token whose text does not fit its kind. -/
  | malformedToken (token : Token)
  /-- A parameter of a hand-made procedure is not a symbol, but a value of this kind. -/
  | namelessParameter (kind : String)
  /-- The depth that a computation was given is used up. -/
  | tooDeep
  /-- None: the frames around a scope go round, and going outwards never ends. -/
  | endless
deriving DecidableEq

/-- The most characters of a malformed numeral that are shown. -/
def shownLimit : Nat := 200

/-- The wording of a fault. -/
def Fault.message : Fault → String
  | .error e => e.message
  | .literalTooLong digits =>
    "Exceeds the limit (" ++ decimalText digitLimit ++
      " digits) for integer string conversion: value has " ++ decimalText digits ++
      " digits; use sys.set_int_max_str_digits() to increase the limit"
  | .malformedToken token =>
    match token.kind with
    | .integer =>
      "invalid literal for int() with base 10: " ++
        String.ofList ((quoted token.text).toList.take shownLimit)
    | _ => quoted token.text
  | .namelessParameter kind => "'" ++ kind ++ "' object has no attribute 'name'"
  | .tooDeep => Error.message .recursionTooDeep
  -- it is never said
  | .endless => ""

end LittleScheme
