import LittleScheme.Fault

/-!
# Streams of tokens

A `TokenStream` has the tokens that are still to be read, and the error in which they end if the
source could not be cut into tokens any further.  The error is raised once, by the first request
that reaches it; after that the stream is at its end.
-/

namespace LittleScheme

/-- Tokens to be read, and the error, if any, that is met after the last of them. -/
structure TokenStream where
  tokens : List Token
  failure? : Option Error := none
deriving DecidableEq

namespace TokenStream

/-- Requests to a stream: they take tokens from it, and may meet its error. -/
abbrev Request := EStateM Fault TokenStream

/-- The stream with nothing left to read. -/
def exhausted : TokenStream := ⟨[], none⟩

/-- Put a token in front. -/
def cons (token : Token) (stream : TokenStream) : TokenStream :=
  { stream with tokens := token :: stream.tokens }

/-- The next token, which stays in the stream; `none` at the end. -/
def peek : Request (Option Token) := do
  let stream ← get
  match stream.tokens, stream.failure? with
  | token :: _, _ => return some token
  | [], none => return none
  | [], some e =>
    set exhausted
    throw (.error e)

/-- Take the next token from the stream; `none` at the end. -/
def advance : Request (Option Token) := do
  let next ← peek
  modify fun stream => { stream with tokens := stream.tokens.tail }
  return next

/-- There is no next token. -/
def atEnd : Request Bool := do
  let next ← peek
  return next.isNone

end TokenStream

end LittleScheme
