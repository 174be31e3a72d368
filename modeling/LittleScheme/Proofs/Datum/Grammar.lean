import LittleScheme.Datum.Parser
import Mathlib.Tactic.Common

/-!
# The grammar of data

What a sequence of tokens denotes is said by derivations, without a parser: an atom is a token, an
apostrophe stands in front of a datum, and brackets stand around data, the last of which may be
set off by a dot.  The parser, which goes through the tokens with a stack, accepts exactly the
sequences that have a derivation, as long as the cost of what is open stays within its limit.

In one direction, a derivation is followed from the inside: from any stack, the parser gets through
the tokens of a datum to the point where the datum settles.  In the other, the tokens behind the
parser are accounted for by what is open.

## Main definitions

* `Derives`, `DerivesAll` — sequences of tokens and the data they denote.
* `ParserState.Steps` — all that a token can do.
* `Parsed.TooDeep` — a parse has stopped at its limit.
* `ParserState.Consumed` — the tokens that led to a state of the parser.

## Main statements

* `Datum.parse_eq_datum_iff` — a parse succeeds exactly if the tokens begin with a derivation.
* `Datum.parse_not_tooDeep` — a limit of twice the number of tokens is never reached.
* `Datum.read_eq_ok_iff`, `Datum.parseAll_iff` — whole sources, and data up to the end of a stream.
-/

namespace LittleScheme

open Text

/-! ## Derivations -/

/-- The tokens denote the datum. -/
inductive Derives : List Token → Datum → Prop
  /-- A literal whose value is in range. -/
  | integer {token : Token} {value : Int} (kind : token.kind = .integer)
    (denotes : numeral token.text.toList = .ok value) (inRange : Integer64.InRange value) :
    Derives [token] (.leaf (.integer value))
  | boolean {token : Token} {value : Bool} (kind : token.kind = .boolean)
    (denotes : token.text.toList = booleanChars value) : Derives [token] (.leaf (.boolean value))
  | symbol {token : Token} (kind : token.kind = .symbol) :
    Derives [token] (.leaf (.symbol token.text))
  /-- An apostrophe in front of a datum. -/
  | quote {token : Token} {ts : List Token} {d : Datum} (kind : token.kind = .quote)
    (datum : Derives ts d) : Derives (token :: ts) d.quote
  /-- Data in brackets. -/
  | list {opening closing : Token} {items : List (List Token × Datum)}
    (opens : opening.kind = .lparen) (closes : closing.kind = .rparen)
    (each : ∀ item ∈ items, Derives item.1 item.2) :
    Derives (opening :: (items.flatMap (·.1) ++ [closing]))
      ((items.map (·.2)).foldr .pair .nil)
  /-- Data in brackets, at least one of them in front of a dot and one behind it. -/
  | dotted {opening dot closing : Token} {items : List (List Token × Datum)} {ts : List Token}
    {d : Datum} (opens : opening.kind = .lparen) (divides : dot.kind = .dot)
    (closes : closing.kind = .rparen) (nonempty : items ≠ [])
    (each : ∀ item ∈ items, Derives item.1 item.2) (last : Derives ts d) :
    Derives (opening :: (items.flatMap (·.1) ++ dot :: (ts ++ [closing])))
      ((items.map (·.2)).foldr .pair d)

/-- The tokens denote the data, one after the other. -/
inductive DerivesAll : List Token → List Datum → Prop
  | nil : DerivesAll [] []
  | cons {ts us : List Token} {d : Datum} {ds : List Datum} (first : Derives ts d)
    (rest : DerivesAll us ds) : DerivesAll (ts ++ us) (d :: ds)

/-- The token is an atom. -/
theorem Derives.atom {token : Token} {a : Atom} (h : token.atom = .ok a) :
    Derives [token] (.leaf a) := by
  rw [Token.atom] at h
  split at h
  · rename_i kind
    rw [Token.literal] at h
    split at h
    · cases h
    · cases h
    · rename_i value denotes
      split at h
      · cases h
        exact .integer kind denotes ‹_›
      · cases h
  · rename_i kind
    split at h
    · cases h
      exact .boolean kind ‹_›
    · split at h
      · cases h
        exact .boolean kind ‹_›
      · cases h
  · rename_i kind
    cases h
    exact .symbol kind
  · cases h

/-- A datum has tokens. -/
theorem Derives.ne_nil {ts : List Token} {d : Datum} (h : Derives ts d) : ts ≠ [] := by
  cases h <;> simp

theorem Token.atom_of_integer {token : Token} {value : Int} (kind : token.kind = .integer)
    (denotes : numeral token.text.toList = .ok value) (inRange : Integer64.InRange value) :
    token.atom = .ok (.integer value) := by
  simp [Token.atom, kind, Token.literal, denotes, inRange, Except.map]

theorem Token.atom_of_boolean {token : Token} {value : Bool} (kind : token.kind = .boolean)
    (denotes : token.text.toList = booleanChars value) : token.atom = .ok (.boolean value) := by
  cases value <;> simp [Token.atom, kind, denotes, booleanChars]

theorem Token.atom_of_symbol {token : Token} (kind : token.kind = .symbol) :
    token.atom = .ok (.symbol token.text) := by
  simp [Token.atom, kind]

/-- No token is refused as an atom because of the limit. -/
theorem Token.atom_ne_tooDeep (token : Token) : token.atom ≠ .error .tooDeep := by
  cases kind : token.kind with
  | integer =>
    simp only [Token.atom, kind, Token.literal]
    split
    · simp [Except.map]
    · simp [Except.map]
    · split <;> simp [Except.map]
  | boolean =>
    simp only [Token.atom, kind]
    split
    · simp
    · split <;> simp
  | lparen | rparen | quote | dot | symbol | other => simp [Token.atom, kind]

/-! ## What single tokens do -/

namespace ParserState

variable {limit : Nat} {token : Token} {stack : List Open} {items : List Datum}

/-- A datum settles wherever it is awaited. -/
theorem settle_ne_fail (d : Datum) (stack : List Open) (fault : Fault) (keep : Bool) :
    settle d stack ≠ .fail fault keep := by
  induction stack generalizing d with
  | nil => simp [settle]
  | cons item stack ih =>
    cases item with
    | quote => exact ih _
    | list | tail => simp [settle]

theorem step_lparen (kind : token.kind = .lparen) :
    (datum stack).step limit token = enter limit (.list []) stack := by
  cases token
  cases kind
  rfl

theorem step_quote (kind : token.kind = .quote) :
    (datum stack).step limit token = enter limit .quote stack := by
  cases token
  cases kind
  rfl

theorem step_rparen (kind : token.kind = .rparen) :
    (datum (.list items :: stack)).step limit token =
      settle (.listOfReversed items .nil) stack := by
  cases token
  cases kind
  rfl

theorem step_dot (kind : token.kind = .dot) (nonempty : items ≠ []) :
    (datum (.list items :: stack)).step limit token = .next (.datum (.tail items :: stack)) := by
  cases items with
  | nil => exact absurd rfl nonempty
  | cons item items =>
    cases token
    cases kind
    rfl

theorem step_close (kind : token.kind = .rparen) (tail : Datum) :
    (close items tail stack).step limit token = settle (.listOfReversed items tail) stack := by
  cases token
  cases kind
  rfl

theorem step_atom {a : Atom} (h : token.atom = .ok a) :
    (datum stack).step limit token = settle (.leaf a) stack := by
  cases kind : token.kind with
  | lparen | rparen | quote | dot | other => simp [Token.atom, kind] at h
  | integer | boolean | symbol => simp [step, kind, h]

/-- All that a token can do in a state: it lets a datum settle, opens something, turns a list into a
dotted one, or is refused for another reason than the limit. -/
inductive Steps (limit : Nat) (token : Token) : ParserState → Move → Prop
  | atom {stack : List Open} {a : Atom} (found : token.atom = .ok a) :
    Steps limit token (.datum stack) (settle (.leaf a) stack)
  | lparen {stack : List Open} (kind : token.kind = .lparen) :
    Steps limit token (.datum stack) (enter limit (.list []) stack)
  | quote {stack : List Open} (kind : token.kind = .quote) :
    Steps limit token (.datum stack) (enter limit .quote stack)
  | rparen {items : List Datum} {stack : List Open} (kind : token.kind = .rparen) :
    Steps limit token (.datum (.list items :: stack)) (settle (.listOfReversed items .nil) stack)
  | dot {items : List Datum} {stack : List Open} (kind : token.kind = .dot)
    (nonempty : items ≠ []) :
    Steps limit token (.datum (.list items :: stack)) (.next (.datum (.tail items :: stack)))
  | close {items : List Datum} {tail : Datum} {stack : List Open} (kind : token.kind = .rparen) :
    Steps limit token (.close items tail stack) (settle (.listOfReversed items tail) stack)
  | refused {state : ParserState} {fault : Fault} {keep : Bool} (other : fault ≠ .tooDeep) :
    Steps limit token state (.fail fault keep)

theorem Steps.of_fail {state : ParserState} {fault : Fault} {keep : Bool}
    (h : state.step limit token = .fail fault keep) (other : fault ≠ .tooDeep) :
    Steps limit token state (state.step limit token) :=
  h ▸ .refused other

theorem steps_step (limit : Nat) (token : Token) (state : ParserState) :
    Steps limit token state (state.step limit token) := by
  cases state with
  | close items tail stack =>
    cases kind : token.kind with
    | rparen => exact step_close kind tail ▸ .close kind
    | lparen | quote | dot | integer | boolean | symbol | other =>
      exact @Steps.of_fail _ _ _ (.error .closeExpected) true (by simp [step, kind]) (by simp)
  | datum stack =>
    cases kind : token.kind with
    | lparen => exact step_lparen kind ▸ .lparen kind
    | quote => exact step_quote kind ▸ .quote kind
    | rparen =>
      rcases stack with - | ⟨(- | items | -), stack⟩
      case cons.list => exact step_rparen kind ▸ .rparen kind
      all_goals
        exact @Steps.of_fail _ _ _ (.error .closeUnexpected) false (by simp [step, kind]) (by simp)
    | dot =>
      rcases stack with - | ⟨(- | (- | ⟨item, items⟩) | -), stack⟩
      case cons.list.cons =>
        have nonempty : item :: items ≠ [] := by simp
        exact step_dot kind nonempty ▸ .dot kind nonempty
      all_goals
        exact @Steps.of_fail _ _ _ (.error .dotUnexpected) false (by simp [step, kind]) (by simp)
    | integer | boolean | symbol | other =>
      cases found : token.atom with
      | ok a => exact step_atom found ▸ .atom found
      | error fault =>
        have other : fault ≠ .tooDeep := by
          rintro rfl
          exact Token.atom_ne_tooDeep token found
        exact @Steps.of_fail _ _ _ fault false (by simp [step, kind, found]) other

end ParserState

/-! ## Following a derivation -/

/-- The parse has stopped at its limit. -/
def Parsed.TooDeep : Parsed → Prop
  | .failed .tooDeep _ _ => True
  | _ => False

theorem Parsed.tooDeep_iff {parsed : Parsed} :
    parsed.TooDeep ↔ ∃ finished rest, parsed = .failed .tooDeep finished rest := by
  constructor
  · intro deep
    cases parsed with
    | datum d rest => exact absurd deep id
    | failed fault finished rest =>
      cases fault with
      | tooDeep => exact ⟨finished, rest, rfl⟩
      | error | literalTooLong | malformedToken | namelessParameter | endless =>
        exact absurd deep id
  · rintro ⟨finished, rest, rfl⟩
    trivial

namespace Datum

variable {limit : Nat} {failure? : Option Error}

/-- Go on behind a move. -/
def resume (limit : Nat) (failure? : Option Error) : Move → List Token → Parsed
  | .next state, tokens => parseFrom limit failure? state tokens
  | .done d, tokens => .datum d ⟨tokens, failure?⟩
  | .fail fault _, tokens => .failed fault [] ⟨tokens, failure?⟩

/-- A datum that settles lets the parser go on, or it is the result. -/
theorem parseFrom_cons_settle {state : ParserState} {token : Token} {d : Datum} {stack : List Open}
    (h : state.step limit token = ParserState.settle d stack) (tokens : List Token) :
    parseFrom limit failure? state (token :: tokens) =
      resume limit failure? (ParserState.settle d stack) tokens := by
  rw [parseFrom, h]
  cases moved : ParserState.settle d stack with
  | next state => rfl
  | done d => rfl
  | fail fault keep => exact absurd moved (ParserState.settle_ne_fail d stack fault keep)

theorem parseFrom_cons_next {state state' : ParserState} {token : Token}
    (h : state.step limit token = .next state') (tokens : List Token) :
    parseFrom limit failure? state (token :: tokens) =
      parseFrom limit failure? state' tokens := by
  rw [parseFrom, h]

/-- The limit allows for something to be opened, or it is reached. -/
theorem parseFrom_cons_enter {stack : List Open} {token : Token} {item : Open}
    (h : (ParserState.datum stack).step limit token = ParserState.enter limit item stack)
    (tokens : List Token) :
    parseFrom limit failure? (.datum stack) (token :: tokens) =
        parseFrom limit failure? (.datum (item :: stack)) tokens ∨
      (parseFrom limit failure? (.datum stack) (token :: tokens)).TooDeep := by
  rw [ParserState.enter] at h
  split at h
  · exact .inl (parseFrom_cons_next h tokens)
  · right
    rw [parseFrom, h]
    trivial

/-- From any stack, the parser gets through the tokens of a datum, or to its limit. -/
def Settles (limit : Nat) (failure? : Option Error) (ts : List Token) (d : Datum) : Prop :=
  ∀ stack rest,
    parseFrom limit failure? (.datum stack) (ts ++ rest) =
        resume limit failure? (ParserState.settle d stack) rest ∨
      (parseFrom limit failure? (.datum stack) (ts ++ rest)).TooDeep

theorem settles_atom {token : Token} {a : Atom} (h : token.atom = .ok a) :
    Settles limit failure? [token] (.leaf a) := by
  intro stack rest
  exact .inl (parseFrom_cons_settle (ParserState.step_atom h) rest)

/-- Inside of a list, the parser gets through item after item. -/
theorem parseFrom_items {items : List (List Token × Datum)}
    (each : ∀ item ∈ items, Settles limit failure? item.1 item.2) (before : List Datum)
    (stack : List Open) (rest : List Token) :
    parseFrom limit failure? (.datum (.list before :: stack)) (items.flatMap (·.1) ++ rest) =
        parseFrom limit failure? (.datum (.list ((items.map (·.2)).reverse ++ before) :: stack))
          rest ∨
      (parseFrom limit failure? (.datum (.list before :: stack))
        (items.flatMap (·.1) ++ rest)).TooDeep := by
  induction items generalizing before with
  | nil => exact .inl rfl
  | cons item items ih =>
    rw [List.flatMap_cons, List.append_assoc]
    rcases each item (by simp) (.list before :: stack) (items.flatMap (·.1) ++ rest) with
      through | deep
    · rw [through, List.map_cons, List.reverse_cons, List.append_assoc]
      exact ih (fun item member => each item (by simp [member])) (item.2 :: before)
    · exact .inr deep

theorem listOfReversed_reverse (items : List Datum) (tail : Datum) :
    Tree.listOfReversed items.reverse tail = items.foldr .pair tail := by
  rw [Tree.listOfReversed, List.foldl_reverse]

/-- The parser gets through the tokens of any derivation. -/
theorem settles {ts : List Token} {d : Datum} (h : Derives ts d) :
    Settles limit failure? ts d := by
  induction h with
  | integer kind denotes inRange => exact settles_atom (Token.atom_of_integer kind denotes inRange)
  | boolean kind denotes => exact settles_atom (Token.atom_of_boolean kind denotes)
  | symbol kind => exact settles_atom (Token.atom_of_symbol kind)
  | quote kind _ ih =>
    intro stack rest
    rcases parseFrom_cons_enter (ParserState.step_quote kind) _ with opened | deep
    · rw [List.cons_append, opened]
      exact ih (.quote :: stack) rest
    · exact .inr deep
  | list opens closes _ ih =>
    intro stack rest
    rw [List.cons_append, List.append_assoc]
    rcases parseFrom_cons_enter (ParserState.step_lparen opens) _ with opened | deep
    · rw [opened]
      rcases parseFrom_items ih [] stack _ with through | deep
      · left
        rw [through, List.append_nil, ← listOfReversed_reverse]
        exact parseFrom_cons_settle (ParserState.step_rparen closes) rest
      · exact .inr deep
    · exact .inr deep
  | @dotted opening dot closing items ts d opens divides closes nonempty _ _ ih ihLast =>
    intro stack rest
    rw [List.cons_append, List.append_assoc, List.cons_append, List.append_assoc]
    rcases parseFrom_cons_enter (ParserState.step_lparen opens) _ with opened | deep
    · rw [opened]
      rcases parseFrom_items ih [] stack _ with through | deep
      · have some : (items.map (·.2)).reverse ≠ [] := by simpa using nonempty
        rw [through, List.append_nil, parseFrom_cons_next (ParserState.step_dot divides some)]
        rcases ihLast (.tail (items.map (·.2)).reverse :: stack) ([closing] ++ rest) with
          through' | deep
        · left
          rw [through', ← listOfReversed_reverse]
          exact parseFrom_cons_settle (ParserState.step_close closes d) rest
        · exact .inr deep
      · exact .inr deep
    · exact .inr deep

end Datum

/-! ## Accounting for the tokens behind -/

/-- The tokens behind the parser when this is open. -/
inductive Consumed : List Open → List Token → Prop
  | nil : Consumed [] []
  | quote {stack : List Open} {before : List Token} {token : Token}
    (outside : Consumed stack before) (kind : token.kind = .quote) :
    Consumed (.quote :: stack) (before ++ [token])
  | list {stack : List Open} {before : List Token} {opening : Token}
    {items : List (List Token × Datum)} (outside : Consumed stack before)
    (opens : opening.kind = .lparen) (each : ∀ item ∈ items, Derives item.1 item.2) :
    Consumed (.list (items.map (·.2)).reverse :: stack)
      (before ++ opening :: items.flatMap (·.1))
  | tail {stack : List Open} {before : List Token} {opening dot : Token}
    {items : List (List Token × Datum)} (outside : Consumed stack before)
    (opens : opening.kind = .lparen) (divides : dot.kind = .dot) (nonempty : items ≠ [])
    (each : ∀ item ∈ items, Derives item.1 item.2) :
    Consumed (.tail (items.map (·.2)).reverse :: stack)
      (before ++ opening :: (items.flatMap (·.1) ++ [dot]))

/-- The tokens behind the parser in a state. -/
inductive ParserState.Consumed : ParserState → List Token → Prop
  | datum {stack : List Open} {before : List Token} (opened : LittleScheme.Consumed stack before) :
    ParserState.Consumed (.datum stack) before
  | close {items : List Datum} {tail : Datum} {stack : List Open} {before ts : List Token}
    (opened : LittleScheme.Consumed (.tail items :: stack) before) (last : Derives ts tail) :
    ParserState.Consumed (.close items tail stack) (before ++ ts)

/-- What a move has behind it: the tokens of a state, or those of the result. -/
inductive Move.Accounted : Move → List Token → Prop
  | next {state : ParserState} {before : List Token} (consumed : state.Consumed before) :
    Move.Accounted (.next state) before
  | done {d : Datum} {before : List Token} (derived : Derives before d) :
    Move.Accounted (.done d) before
  | fail {fault : Fault} {keep : Bool} {before : List Token} :
    Move.Accounted (.fail fault keep) before

namespace ParserState

/-- A datum settles with its tokens. -/
theorem accounted_settle {stack : List Open} {before ts : List Token} {d : Datum}
    (opened : LittleScheme.Consumed stack before) (derived : Derives ts d) :
    (settle d stack).Accounted (before ++ ts) := by
  induction opened generalizing ts d with
  | nil => exact .done derived
  | quote _ kind ih =>
    rw [List.append_assoc]
    exact ih (.quote kind derived)
  | @list stack before opening items outside opens each ih =>
    have all : ∀ item ∈ items ++ [(ts, d)], Derives item.1 item.2 := by
      intro item member
      rcases List.mem_append.1 member with old | new
      · exact each item old
      · obtain rfl := List.mem_singleton.1 new
        exact derived
    have consumed := LittleScheme.Consumed.list outside opens all
    simp only [List.map_append, List.reverse_append, List.flatMap_append] at consumed
    simpa [settle] using Move.Accounted.next (.datum consumed)
  | tail outside opens divides nonempty each ih =>
    exact .next (.close (.tail outside opens divides nonempty each) derived)

theorem accounted_enter {limit : Nat} {item : Open} {stack : List Open} {ts : List Token}
    (opened : LittleScheme.Consumed (item :: stack) ts) :
    (enter limit item stack).Accounted ts := by
  rw [enter]
  split
  · exact .next (.datum opened)
  · exact .fail

/-- The next token joins those behind. -/
theorem accounted_step {state : ParserState} {before : List Token}
    (consumed : state.Consumed before) (limit : Nat) (token : Token) :
    (state.step limit token).Accounted (before ++ [token]) := by
  have steps := steps_step limit token state
  generalize state.step limit token = move at steps ⊢
  cases steps with
  | atom found =>
    obtain ⟨opened⟩ := consumed
    exact accounted_settle opened (.atom found)
  | @lparen stack kind =>
    obtain ⟨opened⟩ := consumed
    exact accounted_enter (@Consumed.list stack before token [] opened kind (by simp))
  | quote kind =>
    obtain ⟨opened⟩ := consumed
    exact accounted_enter (.quote opened kind)
  | rparen kind =>
    obtain ⟨_ | _ | ⟨outside, opens, each⟩⟩ := consumed
    rw [Datum.listOfReversed_reverse]
    simpa using accounted_settle outside (.list opens kind each)
  | dot kind nonempty =>
    obtain ⟨_ | _ | ⟨outside, opens, each⟩⟩ := consumed
    simp only [ne_eq, List.reverse_eq_nil_iff, List.map_eq_nil_iff] at nonempty
    simpa using Move.Accounted.next (.datum (.tail outside opens kind nonempty each))
  | close kind =>
    obtain _ | ⟨_ | _ | _ | ⟨outside, opens, divides, nonempty, each⟩, last⟩ := consumed
    rw [Datum.listOfReversed_reverse]
    simpa using accounted_settle outside (.dotted opens divides kind nonempty each last)
  | refused => exact .fail

end ParserState

namespace Datum

variable {limit : Nat} {failure? : Option Error}

/-- The tokens of a result are those behind the parser. -/
theorem derives_of_parseFrom {state : ParserState} {before ts : List Token} {d : Datum}
    {rest : TokenStream} (consumed : state.Consumed before)
    (h : parseFrom limit failure? state ts = .datum d rest) :
    ∃ p, before ++ ts = p ++ rest.tokens ∧ rest.failure? = failure? ∧ Derives p d := by
  induction ts generalizing state before with
  | nil => simp [parseFrom] at h
  | cons token ts ih =>
    have accounted := ParserState.accounted_step consumed limit token
    rw [parseFrom] at h
    cases moved : state.step limit token with
    | next state' =>
      rw [moved] at h accounted
      cases accounted with
      | next consumed' => simpa using ih consumed' h
    | done d' =>
      rw [moved] at h accounted
      cases accounted with
      | done derived =>
        cases h
        exact ⟨before ++ [token], by simp, rfl, derived⟩
    | fail fault keep =>
      rw [moved] at h
      cases h

/-- A parse succeeds exactly if the tokens begin with a derivation. -/
theorem parse_eq_datum_iff {stream : TokenStream} (shallow : ¬(parse limit stream).TooDeep)
    (d : Datum) (rest : TokenStream) :
    parse limit stream = .datum d rest ↔
      rest.failure? = stream.failure? ∧ ∃ p, stream.tokens = p ++ rest.tokens ∧ Derives p d := by
  constructor
  · intro parsed
    obtain ⟨p, split, same, derived⟩ := derives_of_parseFrom (.datum .nil) parsed
    exact ⟨same, p, by simpa using split, derived⟩
  · rintro ⟨same, p, split, derived⟩
    rw [parse, split, ← same] at shallow ⊢
    exact (settles derived [] rest.tokens).resolve_right shallow

end Datum

/-! ## The limit -/

theorem openCost_cons (item : Open) (stack : List Open) :
    openCost (item :: stack) = item.cost + openCost stack := by
  have shift (stack : List Open) (n : Nat) :
      stack.foldl (fun total item => total + item.cost) n = n + openCost stack := by
    induction stack generalizing n with
    | nil => rfl
    | cons item stack ih =>
      simp only [openCost, List.foldl_cons] at ih ⊢
      rw [ih, ih (0 + item.cost)]
      omega
  simp only [openCost, List.foldl_cons]
  rw [shift stack, openCost]
  omega

namespace ParserState

/-- The cost of what is open in a state. -/
def cost : ParserState → Nat
  | .datum stack => openCost stack
  | .close _ _ stack => openCost stack

/-- A datum that settles opens nothing. -/
theorem cost_settle_le {d : Datum} {stack : List Open} {state : ParserState}
    (h : settle d stack = .next state) : state.cost ≤ openCost stack := by
  induction stack generalizing d with
  | nil => simp [settle] at h
  | cons item stack ih =>
    rw [openCost_cons]
    cases item with
    | quote =>
      have := ih h
      omega
    | list items =>
      obtain rfl : datum (.list (d :: items) :: stack) = state := by simpa [settle] using h
      simp only [cost, openCost_cons, Open.cost]
      omega
    | tail items =>
      obtain rfl : close items d stack = state := by simpa [settle] using h
      simp only [cost]
      omega

/-- To open something costs two at most. -/
theorem openCost_enter_le (item : Open) (stack : List Open) :
    openCost (item :: stack) ≤ openCost stack + 2 := by
  rw [openCost_cons]
  cases item <;> simp only [Open.cost] <;> omega

theorem cost_enter_le {limit : Nat} {item : Open} {stack : List Open} {state : ParserState}
    (h : enter limit item stack = .next state) : state.cost ≤ openCost stack + 2 := by
  rw [enter] at h
  split at h
  · cases h
    exact openCost_enter_le item stack
  · cases h

/-- A token opens no more than one thing. -/
theorem cost_step_le {limit : Nat} {state state' : ParserState} {token : Token}
    (h : state.step limit token = .next state') : state'.cost ≤ state.cost + 2 := by
  have steps := steps_step limit token state
  rw [h] at steps
  generalize moved : Move.next state' = move at steps
  cases steps with
  | atom | close => exact Nat.le_trans (cost_settle_le moved.symm) (Nat.le_add_right _ _)
  | lparen | quote => exact cost_enter_le moved.symm
  | @rparen items stack =>
    have settled := cost_settle_le moved.symm
    have whole : (datum (.list items :: stack)).cost = 2 + openCost stack := openCost_cons _ _
    omega
  | dot =>
    cases moved
    simp only [cost, openCost_cons, Open.cost]
    omega
  | refused => cases moved

theorem enter_ne_fail {limit : Nat} {stack : List Open} (enough : openCost stack + 2 ≤ limit)
    (item : Open) (fault : Fault) (keep : Bool) : enter limit item stack ≠ .fail fault keep := by
  rw [enter, if_pos (Nat.le_trans (openCost_enter_le item stack) enough)]
  simp

theorem step_ne_tooDeep {limit : Nat} {state : ParserState} (enough : state.cost + 2 ≤ limit)
    (token : Token) (keep : Bool) : state.step limit token ≠ .fail .tooDeep keep := by
  intro h
  have steps := steps_step limit token state
  rw [h] at steps
  generalize moved : Move.fail .tooDeep keep = move at steps
  cases steps with
  | atom | rparen | close => exact settle_ne_fail _ _ _ _ moved.symm
  | lparen | quote => exact enter_ne_fail enough _ _ _ moved.symm
  | dot => cases moved
  | refused other =>
    cases moved
    exact other rfl

end ParserState

namespace Datum

variable {limit : Nat} {failure? : Option Error}

theorem parseFrom_not_tooDeep {state : ParserState} {ts : List Token}
    (enough : state.cost + 2 * ts.length ≤ limit) :
    ¬(parseFrom limit failure? state ts).TooDeep := by
  induction ts generalizing state with
  | nil => simp [parseFrom, Parsed.TooDeep]
  | cons token ts ih =>
    rw [List.length_cons] at enough
    rw [parseFrom]
    cases moved : state.step limit token with
    | next state' =>
      have := ParserState.cost_step_le moved
      exact ih (by omega)
    | done d => simp [Parsed.TooDeep]
    | fail fault keep =>
      have room : state.cost + 2 ≤ limit := by omega
      have other := ParserState.step_ne_tooDeep room token keep
      rw [moved] at other
      intro deep
      obtain ⟨finished, rest, same⟩ := Parsed.tooDeep_iff.1 deep
      cases same
      exact other rfl

/-- A limit of twice the number of tokens is never reached. -/
theorem parse_not_tooDeep {stream : TokenStream} (enough : 2 * stream.tokens.length ≤ limit) :
    ¬(parse limit stream).TooDeep :=
  parseFrom_not_tooDeep (by simpa [ParserState.cost, openCost] using enough)

/-! ## Whole sources -/

/-- A source is read exactly if it has a derivation as a whole. -/
theorem read_eq_ok_iff {source : String}
    (shallow : ∀ finished, read limit source ≠ .error (.tooDeep, finished)) (d : Datum) :
    read limit source = .ok d ↔ (lex source).failure? = none ∧ Derives (lex source).tokens d := by
  have shallow' : ¬(parse limit (lex source)).TooDeep := by
    intro deep
    obtain ⟨finished, rest, parsed⟩ := Parsed.tooDeep_iff.1 deep
    exact shallow finished (by simp [read, parsed])
  have whole := parse_eq_datum_iff shallow' d ⟨[], none⟩
  constructor
  · intro h
    have parsed : parse limit (lex source) = .datum d ⟨[], none⟩ := by
      rw [read] at h
      split at h <;> simp_all
    obtain ⟨total, p, split, derived⟩ := whole.1 parsed
    rw [split, List.append_nil]
    exact ⟨total.symm, derived⟩
  · rintro ⟨total, derived⟩
    have parsed := whole.2 ⟨total.symm, _, (List.append_nil _).symm, derived⟩
    simp [read, parsed]

/-- A limit of twice the number of tokens is never reached. -/
theorem read_ne_tooDeep {source : String} (enough : 2 * (lex source).tokens.length ≤ limit)
    (finished : List Datum) : read limit source ≠ .error (.tooDeep, finished) := by
  have shallow := parse_not_tooDeep enough
  intro h
  cases parsed : parse limit (lex source) with
  | datum d rest =>
    rw [read] at h
    split at h <;> simp_all
  | failed fault finished' rest =>
    obtain ⟨rfl, -⟩ : fault = .tooDeep ∧ finished' = finished := by simpa [read, parsed] using h
    simp [parsed, Parsed.TooDeep] at shallow

/-- Data are read from the front of a stream one after the other. -/
theorem parseAll_of_datum {stream : TokenStream} {d : Datum} {rest : TokenStream}
    (h : parse limit stream = .datum d rest) :
    parseAll limit stream =
      { parseAll limit rest with data := d :: (parseAll limit rest).data } := by
  have some : stream.tokens ≠ [] := by
    intro none
    simp [parse, none, parseFrom] at h
  rw [parseAll]
  split
  · exact absurd ‹_› some
  · exact absurd ‹_› some
  · split <;> simp_all

theorem parseAll_of_failed {stream : TokenStream} {fault : Fault} {finished : List Datum}
    {rest : TokenStream} (nonempty : stream.tokens ≠ [])
    (h : parse limit stream = .failed fault finished rest) :
    parseAll limit stream = ⟨[], some (fault, finished), rest⟩ := by
  rw [parseAll]
  split
  · exact absurd ‹_› nonempty
  · exact absurd ‹_› nonempty
  · split <;> simp_all

/-- Nothing but data has been read when the end is reached. -/
theorem derivesAll_of_parseAll {stream : TokenStream}
    (h : (parseAll limit stream).failure? = none) :
    stream.failure? = none ∧ DerivesAll stream.tokens (parseAll limit stream).data := by
  induction length : stream.tokens.length using Nat.strongRecOn generalizing stream with
  | ind n ih =>
    by_cases empty : stream.tokens = []
    · rw [parseAll, empty] at h ⊢
      cases failure : stream.failure? with
      | none => exact ⟨rfl, .nil⟩
      | some e => simp [failure] at h
    · cases parsed : parse limit stream with
      | failed fault finished rest => simp [parseAll_of_failed empty parsed] at h
      | datum d rest =>
        obtain ⟨p, split, same, derived⟩ := derives_of_parseFrom (.datum .nil) parsed
        rw [parseAll_of_datum parsed] at h ⊢
        obtain ⟨total, more⟩ := ih rest.tokens.length
          (length ▸ length_rest_parseFrom_lt parsed) h rfl
        refine ⟨same ▸ total, ?_⟩
        rw [show stream.tokens = p ++ rest.tokens from split]
        exact .cons derived more

/-- Data are read to the end. -/
theorem parseAll_of_derivesAll {ts : List Token} {ds : List Datum} (derived : DerivesAll ts ds)
    (shallow : ∀ finished, (parseAll limit ⟨ts, none⟩).failure? ≠ some (.tooDeep, finished)) :
    (parseAll limit ⟨ts, none⟩).failure? = none ∧ (parseAll limit ⟨ts, none⟩).data = ds := by
  induction derived with
  | nil =>
    rw [parseAll]
    exact ⟨rfl, rfl⟩
  | @cons ts us d ds first rest ih =>
    have nonempty : ts ++ us ≠ [] := by
      have := first.ne_nil
      simp [this]
    have shallow' : ¬(parse limit ⟨ts ++ us, none⟩).TooDeep := by
      intro deep
      obtain ⟨finished, rest, parsed⟩ := Parsed.tooDeep_iff.1 deep
      exact shallow finished (by rw [parseAll_of_failed nonempty parsed])
    have parsed := (parse_eq_datum_iff shallow' d ⟨us, none⟩).2 ⟨rfl, ts, rfl, first⟩
    rw [parseAll_of_datum parsed] at shallow ⊢
    obtain ⟨total, data⟩ := ih shallow
    exact ⟨total, by rw [← data]⟩

/-- A stream is read to its end exactly if it consists of data. -/
theorem parseAll_iff {stream : TokenStream}
    (shallow : ∀ finished, (parseAll limit stream).failure? ≠ some (.tooDeep, finished))
    (ds : List Datum) :
    (parseAll limit stream).failure? = none ∧ (parseAll limit stream).data = ds ↔
      stream.failure? = none ∧ DerivesAll stream.tokens ds := by
  constructor
  · rintro ⟨total, rfl⟩
    exact derivesAll_of_parseAll total
  · rintro ⟨total, derived⟩
    obtain ⟨tokens, failure?⟩ := stream
    obtain rfl : failure? = none := total
    exact parseAll_of_derivesAll derived shallow

/-- A limit of twice the number of tokens is never reached. -/
theorem parseAll_ne_tooDeep {stream : TokenStream} (enough : 2 * stream.tokens.length ≤ limit)
    (finished : List Datum) : (parseAll limit stream).failure? ≠ some (.tooDeep, finished) := by
  induction length : stream.tokens.length using Nat.strongRecOn generalizing stream with
  | ind n ih =>
    by_cases empty : stream.tokens = []
    · rw [parseAll, empty]
      cases stream.failure? <;> simp
    · have shallow := parse_not_tooDeep enough
      cases parsed : parse limit stream with
      | failed fault finished' rest =>
        rw [parseAll_of_failed empty parsed]
        intro deep
        cases deep
        exact shallow (Parsed.tooDeep_iff.2 ⟨_, _, parsed⟩)
      | datum d rest =>
        have less := length_rest_parseFrom_lt parsed
        rw [parseAll_of_datum parsed]
        exact ih rest.tokens.length (length ▸ less) (by omega) rfl

end Datum

end LittleScheme
