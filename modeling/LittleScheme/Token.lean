/-!
# Tokens

A `Token` is a kind and the characters that it was made of.
-/

namespace LittleScheme

/-- The kinds of tokens.  `other` is no kind that a source text produces; it stands for a kind
that a hand-made token list may name and that the parser refuses. -/
inductive Kind
  | lparen | rparen | quote | dot | integer | boolean | symbol
  | other (name : String)
deriving DecidableEq

/-- The name of a kind of tokens. -/
def Kind.name : Kind → String
  | .lparen => "lparen"
  | .rparen => "rparen"
  | .quote => "quote"
  | .dot => "dot"
  | .integer => "integer"
  | .boolean => "boolean"
  | .symbol => "symbol"
  | .other name => name

/-- A token: its kind and the characters it was made of. -/
structure Token where
  kind : Kind
  text : String
deriving DecidableEq

end LittleScheme
