import LittleScheme.Datum
import LittleScheme.Fault
import LittleScheme.Text.Blank
import LittleScheme.Token.Stream

/-!
# From characters to tokens

`lex` cuts a source text into tokens.  Blanks separate tokens.  Brackets, the apostrophe and the dot
are tokens by themselves.  A digit, or a sign in front of a digit, begins an integer literal, which
ends with its digits.  Any other character begins an atom, which ends at a blank or at one of the
four marks; an atom is a boolean, a symbol, or illegal.

The first character decides what a token is (`Start.of`), and the token goes on as long as the
characters fit: it is that character and a `takeWhile`, and the rest of the source is the
`dropWhile`.
-/

namespace LittleScheme

open Text

/-! ## Characters -/

/-- The marks that are tokens by themselves. -/
def mark? : Char → Option Kind
  | '(' => some .lparen
  | ')' => some .rparen
  | '\'' => some .quote
  | '.' => some .dot
  | _ => none

/-- A character that an atom can go on with. -/
def isAtomChar (c : Char) : Bool := !isBlank c && (mark? c).isNone

/-- A plus or a minus. -/
def isSign (c : Char) : Bool := c == '+' || c == '-'

/-! ## The beginning of a token -/

/-- What a token can be, as its first character decides it. -/
inductive Start
  | mark (kind : Kind)
  | literal
  | atom
deriving DecidableEq

namespace Start

/-- What the token is that begins with `c` in front of `rest`. -/
def of (c : Char) (rest : List Char) : Start :=
  match mark? c with
  | some kind => .mark kind
  | none => if c.isDigit || (isSign c && rest.head?.any Char.isDigit) then .literal else .atom

/-- The characters that the token goes on with. -/
def continues : Start → Char → Bool
  | .mark _, _ => false
  | .literal, c => c.isDigit
  | .atom, c => isAtomChar c

end Start

/-! ## Tokens -/

/-- A character that makes an atom illegal, unless the atom is a boolean. -/
def isIllegal (c : Char) : Bool := c == '#' || c == '"' || !isPrintable c

/-- An atom is a boolean, illegal, or a symbol. -/
def Token.ofAtom (cs : List Char) : Except Error Token :=
  if cs = booleanChars true ∨ cs = booleanChars false then .ok ⟨.boolean, String.ofList cs⟩
  else if cs.any isIllegal then .error (.illegalCharacter (String.ofList cs))
  else .ok ⟨.symbol, String.ofList cs⟩

/-- The token made of the characters `cs`. -/
def Start.token : Start → List Char → Except Error Token
  | .mark kind, cs => .ok ⟨kind, String.ofList cs⟩
  | .literal, cs => .ok ⟨.integer, String.ofList cs⟩
  | .atom, cs => Token.ofAtom cs

/-- What is left after a token is shorter than what was there before it. -/
theorem length_rest_lt {cs rest : List Char} {c : Char} (p q : Char → Bool)
    (h : cs.dropWhile p = c :: rest) : (rest.dropWhile q).length < cs.length := by
  have first := (List.dropWhile_sublist p (l := cs)).length_le
  have second := (List.dropWhile_sublist q (l := rest)).length_le
  rw [h, List.length_cons] at first
  omega

/-- The tokens of a text, and the error of the atom at which they end. -/
def lexChars (cs : List Char) : TokenStream :=
  match _rest : cs.dropWhile isBlank with
  | [] => ⟨[], none⟩
  | c :: rest =>
    let start := Start.of c rest
    match start.token (c :: rest.takeWhile start.continues) with
    | .error e => ⟨[], some e⟩
    | .ok token => (lexChars (rest.dropWhile start.continues)).cons token
termination_by cs.length
decreasing_by exact length_rest_lt _ _ ‹_›

/-- The tokens of a source text. -/
def lex (source : String) : TokenStream := lexChars source.toList

end LittleScheme
