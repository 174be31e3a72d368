import LittleScheme.Datum
import LittleScheme.Integer64
import LittleScheme.Token.Lexer

/-!
# From tokens to data

The grammar is

* `datum ::= integer | boolean | symbol | ' datum | ( datum* ) | ( datum+ . datum )`.

`ParserState.step` takes one token.  The state is the stack of what is still open: quotes that wait
for their datum, lists that wait for an item or their end, and dotted lists that wait for their last
datum.  A complete datum settles into what is open around it.  `Datum.read` reads a source that is
exactly one datum, `Datum.parse` one datum from the front of a stream, and `Datum.parseAll` all data
up to its end.

A parse that fails reports, beside the fault, the data that were complete by then: they have been
read, although no datum holds them.
-/

namespace LittleScheme

open Text

/-! ## Atoms -/

/-- The integer that a literal denotes. -/
def Token.literal (token : Token) : Except Fault Int :=
  match numeral token.text.toList with
  | .error .malformed => .error (.malformedToken token)
  | .error (.tooLong digits) => .error (.literalTooLong digits)
  | .ok value =>
    if Integer64.InRange value then .ok value else .error (.error (.literalOutOfRange token.text))

/-- The atom that a token denotes. -/
def Token.atom (token : Token) : Except Fault Atom :=
  match token.kind with
  | .integer => token.literal.map .integer
  | .boolean =>
    if token.text.toList = booleanChars true then .ok (.boolean true)
    else if token.text.toList = booleanChars false then .ok (.boolean false)
    else .error (.malformedToken token)
  | .symbol => .ok (.symbol token.text)
  | _ => .error (.error (.unknownToken token))

/-! ## The state of the parser -/

/-- What waits for a datum.  The items of a list are held with the last of them first. -/
inductive Open
  /-- After an apostrophe. -/
  | quote
  /-- Inside a list, behind these items. -/
  | list (items : List Datum)
  /-- Behind the dot of a list with these items. -/
  | tail (items : List Datum)
deriving DecidableEq

/-- The data that are complete inside of what is open, in the order of the source. -/
def Open.finished : Open → List Datum
  | .quote => []
  | .list items => items.reverse
  | .tail items => items.reverse

/-- What it costs to keep something open. -/
def Open.cost : Open → Nat
  | .quote => 1
  | .list _ => 2
  | .tail _ => 2

/-- What it costs to keep all of a stack open. -/
def openCost (stack : List Open) : Nat := stack.foldl (fun total item => total + item.cost) 0

/-- Where the parser stands. -/
inductive ParserState
  /-- A datum is awaited, or the end of the innermost list. -/
  | datum (stack : List Open)
  /-- The end of a dotted list is awaited. -/
  | close (items : List Datum) (tail : Datum) (stack : List Open)
deriving DecidableEq

/-- What a token does. -/
inductive Move
  /-- The parser goes on. -/
  | next (state : ParserState)
  /-- The datum is complete. -/
  | done (datum : Datum)
  /-- The token is in the wrong place; `keep` says that it is left in the stream. -/
  | fail (fault : Fault) (keep : Bool)
deriving DecidableEq

namespace ParserState

/-- The data that are complete by now, in the order of the source. -/
def finished : ParserState → List Datum
  | .datum stack => stack.reverse.flatMap Open.finished
  | .close items tail stack => stack.reverse.flatMap Open.finished ++ items.reverse ++ [tail]

/-- The error of a source that ends here. -/
def endError : ParserState → Error
  | .datum (.list _ :: _) => .unmatchedOpen
  | .datum _ => .tokenExpected
  | .close _ _ _ => .closeExpected

/-- A complete datum settles into what is open around it. -/
def settle : Datum → List Open → Move
  | d, [] => .done d
  | d, .quote :: stack => settle d.quote stack
  | d, .list items :: stack => .next (.datum (.list (d :: items) :: stack))
  | d, .tail items :: stack => .next (.close items d stack)

/-- Open a quote or a list, if the limit allows for the cost of all that is open then. -/
def enter (limit : Nat) (item : Open) (stack : List Open) : Move :=
  if openCost (item :: stack) ≤ limit then .next (.datum (item :: stack)) else .fail .tooDeep false

/-- What one token does. -/
def step (limit : Nat) : ParserState → Token → Move
  | .close items tail stack, token =>
    match token.kind with
    | .rparen => settle (.listOfReversed items tail) stack
    | _ => .fail (.error .closeExpected) true
  | .datum stack, token =>
    match token.kind, stack with
    | .lparen, _ => enter limit (.list []) stack
    | .quote, _ => enter limit .quote stack
    | .rparen, .list items :: stack => settle (.listOfReversed items .nil) stack
    | .rparen, _ => .fail (.error .closeUnexpected) false
    | .dot, .list (item :: items) :: stack => .next (.datum (.tail (item :: items) :: stack))
    | .dot, _ => .fail (.error .dotUnexpected) false
    | _, _ =>
      match token.atom with
      | .ok atom => settle (.leaf atom) stack
      | .error fault => .fail fault false

end ParserState

/-! ## Parsing -/

/-- The result of a parse, and the stream behind it. -/
inductive Parsed
  | datum (datum : Datum) (rest : TokenStream)
  | failed (fault : Fault) (finished : List Datum) (rest : TokenStream)
deriving DecidableEq

namespace Datum

/-- Read on from a state of the parser.  `failure?` is the error behind the last token. -/
def parseFrom (limit : Nat) (failure? : Option Error) : ParserState → List Token → Parsed
  | state, [] => .failed (.error (failure?.getD state.endError)) state.finished .exhausted
  | state, token :: tokens =>
    match state.step limit token with
    | .next state => parseFrom limit failure? state tokens
    | .done d => .datum d ⟨tokens, failure?⟩
    | .fail fault keep =>
      .failed fault state.finished ⟨if keep then token :: tokens else tokens, failure?⟩

/-- Read one datum from the front of a stream; what is open at a time may cost at most `limit`. -/
def parse (limit : Nat) (stream : TokenStream) : Parsed :=
  parseFrom limit stream.failure? (.datum []) stream.tokens

/-- A datum takes at least one token from the stream. -/
theorem length_rest_parseFrom_lt {limit : Nat} {failure? : Option Error} {state : ParserState}
    {tokens : List Token} {d : Datum} {rest : TokenStream}
    (h : parseFrom limit failure? state tokens = .datum d rest) :
    rest.tokens.length < tokens.length := by
  fun_induction parseFrom with
  | case1 => simp at h
  | case2 _ _ _ _ _ ih => exact Nat.lt_succ_of_lt (ih h)
  | case3 => cases h; simp
  | case4 => simp at h

/-- The result of reading up to the end of a stream: the data, the fault that ended it with the
data that were complete inside of the last, and the stream behind it. -/
structure ParsedAll where
  data : List Datum
  failure? : Option (Fault × List Datum)
  rest : TokenStream
deriving DecidableEq

/-- Read data up to the end of the stream or to the first fault. -/
def parseAll (limit : Nat) (stream : TokenStream) : ParsedAll :=
  match stream.tokens, stream.failure? with
  | [], none => ⟨[], none, .exhausted⟩
  | [], some e => ⟨[], some (.error e, []), .exhausted⟩
  | _ :: _, _ =>
    match _parsed : parse limit stream with
    | .failed fault finished rest => ⟨[], some (fault, finished), rest⟩
    | .datum d rest =>
      let more := parseAll limit rest
      { more with data := d :: more.data }
termination_by stream.tokens.length
decreasing_by exact length_rest_parseFrom_lt ‹_›

/-- Read a source text that is exactly one datum.  On failure, the data that were complete are
reported with the fault. -/
def read (limit : Nat) (source : String) : Except (Fault × List Datum) Datum :=
  match parse limit (lex source) with
  | .failed fault finished _ => .error (fault, finished)
  | .datum d ⟨[], none⟩ => .ok d
  | .datum d ⟨[], some e⟩ => .error (.error e, [d])
  | .datum d ⟨_ :: _, _⟩ => .error (.error .trailingTokens, [d])

end Datum

end LittleScheme
