import LittleScheme.Text.Blank

/-!
# Integers in decimal notation

Integers are written in two notations.  The plain one, `decimalValue?`, is an optional sign and
ASCII digits: integers are printed in it by `decimal`, and literals are made of it.  The lenient
one, `numeral`, is accepted wherever a text is to be read as an integer: it may have blanks around
it, the decimal digits of any script, and single underscores between digits.  No more than
`digitLimit` digits are converted.
-/

namespace LittleScheme.Text

/-- An integer written with more digits than this is refused. -/
def digitLimit : Nat := 4300

/-! ## Plain notation -/

/-- The decimal digits of `n`, behind a minus sign if `n` is negative. -/
def decimal : Int → List Char
  | .ofNat n => Nat.toDigits 10 n
  | .negSucc n => '-' :: Nat.toDigits 10 (n + 1)

/-- The text of `decimal n`. -/
def decimalText (n : Int) : String := String.ofList (decimal n)

/-- The value of ASCII digits, `none` if there is no digit or another character. -/
def unsignedValue? (digits : List Char) : Option Nat :=
  if digits ≠ [] ∧ digits.all Char.isDigit then some (Nat.ofDigitChars 10 digits 0) else none

/-- A plus or minus sign, or none, and the characters behind it. -/
def splitSign : List Char → Bool × List Char
  | '-' :: digits => (true, digits)
  | '+' :: digits => (false, digits)
  | digits => (false, digits)

/-- Attach a sign to a magnitude. -/
def signed (negative : Bool) (magnitude : Nat) : Int :=
  if negative then -(magnitude : Int) else magnitude

/-- Read plain notation: an optional sign and one ASCII digit or more. -/
def decimalValue? (cs : List Char) : Option Int :=
  let (negative, digits) := splitSign cs
  (unsignedValue? digits).map (signed negative)

/-! ## Lenient notation -/

/-- The zeros of the scripts that have decimal digits; the nine other digits follow each of them. -/
def zeros : List Nat :=
  [0x0030, 0x0660, 0x06F0, 0x07C0, 0x0966, 0x09E6, 0x0A66, 0x0AE6, 0x0B66, 0x0BE6, 0x0C66, 0x0CE6,
   0x0D66, 0x0DE6, 0x0E50, 0x0ED0, 0x0F20, 0x1040, 0x1090, 0x17E0, 0x1810, 0x1946, 0x19D0, 0x1A80,
   0x1A90, 0x1B50, 0x1BB0, 0x1C40, 0x1C50, 0xA620, 0xA8D0, 0xA900, 0xA9D0, 0xA9F0, 0xAA50, 0xABF0,
   0xFF10, 0x104A0, 0x10D30, 0x11066, 0x110F0, 0x11136, 0x111D0, 0x112F0, 0x11450, 0x114D0,
   0x11650, 0x116C0, 0x11730, 0x118E0, 0x11950, 0x11C50, 0x11D50, 0x11DA0, 0x16A60, 0x16AC0,
   0x16B50, 0x1D7CE, 0x1D7D8, 0x1D7E2, 0x1D7EC, 0x1D7F6, 0x1E140, 0x1E2F0, 0x1E950, 0x1FBF0]

/-- The value of a decimal digit of any script. -/
def digitValue? (c : Char) : Option Nat :=
  (zeros.find? fun z => z ≤ c.toNat && c.toNat ≤ z + 9).map (c.toNat - ·)

/-- A decimal digit of any script. -/
def isDecimalDigit (c : Char) : Bool := (digitValue? c).isSome

/-- What the digits of a numeral are written with. -/
def isNumeralChar (c : Char) : Bool := isDecimalDigit c || c == '_'

/-- Each underscore stands between two digits, and there is a digit at the end.  The flag says that
a digit stands in front. -/
def isGrouped : (afterDigit : Bool) → List Char → Bool
  | afterDigit, [] => afterDigit
  | afterDigit, c :: cs => if c = '_' then afterDigit && isGrouped false cs else isGrouped true cs

/-- What may stand around a numeral: any blank but the four that separate records of data. -/
def isPadding (c : Char) : Bool := isBlank c && !(0x1C ≤ c.toNat && c.toNat ≤ 0x1F)

/-- Why a text is not read as an integer. -/
inductive NumeralFault
  /-- The text is no numeral. -/
  | malformed
  /-- The numeral has more digits than are converted. -/
  | tooLong (digits : Nat)
deriving DecidableEq

/-- Read lenient notation.  The digits are counted, leading zeros included, before anything that
follows them is looked at. -/
def numeral (cs : List Char) : Except NumeralFault Int :=
  let (negative, body) := splitSign (cs.dropWhile isPadding)
  let run := body.takeWhile isNumeralChar
  let rest := body.dropWhile isNumeralChar
  let digits := run.filterMap digitValue?
  if !isGrouped false run then .error .malformed
  else if digitLimit < digits.length then .error (.tooLong digits.length)
  else if rest.all isPadding then .ok (signed negative (digits.foldl (10 * · + ·) 0))
  else .error .malformed

end LittleScheme.Text
