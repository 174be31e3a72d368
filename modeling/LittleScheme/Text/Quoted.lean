import LittleScheme.Text.Printable

/-!
# Quoted text

`quoted` shows a text as data in a message: in quotes, with escapes for what would not be visible.
Single quotes are used, unless the text holds a single quote and no double quote.
-/

namespace LittleScheme.Text

/-- `n` in hexadecimal, in at least `width` lower-case digits. -/
def hex (width n : Nat) : List Char :=
  let digits := Nat.toDigits 16 n
  List.replicate (width - digits.length) '0' ++ digits

/-- How a character is written between the quotes `mark`.  The escapes of a code point have two,
four or eight digits, whichever is the first to be enough. -/
def escaped (mark c : Char) : List Char :=
  if c = mark ∨ c = '\\' then ['\\', c]
  else if c = '\t' then ['\\', 't']
  else if c = '\n' then ['\\', 'n']
  else if c = '\r' then ['\\', 'r']
  else if isPrintable c then [c]
  else if c.toNat ≤ 0xFF then '\\' :: 'x' :: hex 2 c.toNat
  else if c.toNat ≤ 0xFFFF then '\\' :: 'u' :: hex 4 c.toNat
  else '\\' :: 'U' :: hex 8 c.toNat

/-- The quotes around a text: double if it holds a single quote and no double one. -/
def quoteMark (cs : List Char) : Char :=
  if cs.contains '\'' && !cs.contains '"' then '"' else '\''

/-- The text in quotes, with escapes. -/
def quoted (s : String) : String :=
  let mark := quoteMark s.toList
  String.ofList (mark :: s.toList.flatMap (escaped mark) ++ [mark])

end LittleScheme.Text
