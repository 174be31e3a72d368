import LittleScheme.Token.Lexer

/-!
# Looking ahead in a text

A text need not be cut into tokens before the first of them is read.  In a `Lookahead`, a token is
cut off when a request comes to it, and the one token that has been looked at but not been taken is
kept aside.  An illegal atom is met by the request that comes to it, and with it the rest of the
text is given up.  `Lookahead.stream` has the tokens that are still to be read.
-/

namespace LittleScheme

open Text

/-- The first token of a text and the text behind it; nothing if there are only blanks. -/
def cutToken (cs : List Char) : Except Error (Option (Token × List Char)) :=
  match cs.dropWhile isBlank with
  | [] => .ok none
  | c :: rest =>
    let start := Start.of c rest
    match start.token (c :: rest.takeWhile start.continues) with
    | .error e => .error e
    | .ok token => .ok (some (token, rest.dropWhile start.continues))

/-- The text that is still to be cut, and the token that has been looked at. -/
structure Lookahead where
  rest : List Char
  buffer : Option Token := none
deriving DecidableEq

namespace Lookahead

/-- Requests to a text that is cut as it is read. -/
abbrev Request := EStateM Fault Lookahead

/-- A source text, of which nothing has been read. -/
def ofSource (source : String) : Lookahead := { rest := source.toList }

/-- Cut off a token; at the end and at an illegal atom nothing is left to be cut. -/
def pull : Request (Option Token) := do
  let ahead ← get
  match cutToken ahead.rest with
  | .ok (some (token, rest)) =>
    set { ahead with rest }
    return some token
  | .ok none =>
    set { ahead with rest := [] }
    return none
  | .error e =>
    set { ahead with rest := [] }
    throw (.error e)

/-- The next token, which is kept aside; `none` at the end. -/
def peek : Request (Option Token) := do
  let ahead ← get
  match ahead.buffer with
  | some token => return some token
  | none =>
    let next ← pull
    modify fun ahead => { ahead with buffer := next }
    return next

/-- Take the next token, which may have been kept aside; `none` at the end. -/
def advance : Request (Option Token) := do
  let ahead ← get
  match ahead.buffer with
  | some token =>
    set { ahead with buffer := none }
    return some token
  | none => pull

/-- There is no next token. -/
def atEnd : Request Bool := do
  let next ← peek
  return next.isNone

/-- The tokens that are still to be read: the one that is kept aside and those of the text. -/
def stream (ahead : Lookahead) : TokenStream :=
  match ahead.buffer with
  | some token => (lexChars ahead.rest).cons token
  | none => lexChars ahead.rest

end Lookahead

end LittleScheme
