import LittleScheme.Text.Decimal
import LittleScheme.Tree

/-!
# Data

A `Datum` is what a source text denotes: a finite tree of pairs over integers, booleans and symbols.
`Datum.text` prints it in list notation, and `Datum.quote` is the datum `(quote d)` that an
apostrophe in front of `d` stands for.
-/

namespace LittleScheme

open Text

/-- The data that are not lists. -/
inductive Atom
  | integer (value : Int)
  | boolean (value : Bool)
  | symbol (name : String)
deriving DecidableEq

/-- The characters of a boolean. -/
def booleanChars : Bool → List Char
  | true => ['#', 't']
  | false => ['#', 'f']

/-- The characters of an atom. -/
def Atom.chars : Atom → List Char
  | .integer value => decimal value
  | .boolean value => booleanChars value
  | .symbol name => name.toList

/-- A finite tree of pairs over atoms. -/
abbrev Datum := Tree Atom

namespace Datum

/-- The text of a datum. -/
def text (d : Datum) : String := String.ofList (d.chars Atom.chars)

/-- The list of the symbol `quote` and the datum. -/
def quote (d : Datum) : Datum := .pair (.leaf (.symbol "quote")) (.pair d .nil)

end Datum

end LittleScheme
