import LittleScheme.Proofs.Datum.Printed
import LittleScheme.Proofs.Fault
import LittleScheme.Proofs.Token.Cutting

/-!
# Sources that are refused

A `Refusal` is why a source can be refused: an error of grammar, a depth that is exceeded, or an
integer literal with more digits than are converted.  What an error quotes is a token, or an atom
that is none, so the report stands on one line unless it quotes such a literal.  The data that were
complete when a source was refused are readable, as the datum of a source that is read is.
-/

namespace LittleScheme

open Text

/-- An integer literal has no more digits than are converted. -/
def Token.IsShort (token : Token) : Prop :=
  token.kind = .integer → (splitSign token.text.toList).2.length ≤ digitLimit

instance (token : Token) : Decidable token.IsShort := inferInstanceAs (Decidable (_ → _))

/-- The fault is no internal one, and what it quotes stands on one line.  It is an error, or a depth
that is used up, unless one of the tokens is a literal that is too long. -/
structure Reportable (tokens : List Token) (fault : Fault) : Prop where
  ordinary : fault.isInternal = false
  quotes : ∀ text ∈ fault.quotes, OneLine text
  expected : (∀ token ∈ tokens, token.IsShort) → fault = .tooDeep ∨ ∃ e, fault = .error e

variable {tokens : List Token} {token : Token} {fault : Fault} {e : Error}

/-! ## Why sources are refused -/

/-- The error is about the order of the tokens, whatever they are. -/
def Error.isOrder : Error → Bool
  | .tokenExpected | .closeUnexpected | .dotUnexpected | .unmatchedOpen | .closeExpected
  | .trailingTokens => true
  | _ => false

theorem Error.isGeneric_of_isOrder (order : e.isOrder = true) :
    (Fault.error e).isGeneric = true := by
  cases e <;> simp_all [isOrder, Fault.isGeneric, Fault.isInternal, quotes]

theorem Error.category_of_isOrder (order : e.isOrder = true) : e.category = .grammar := by
  cases e <;> simp_all [isOrder, category]

/-- Why a source with this stream of tokens can be refused. -/
inductive Refusal (stream : TokenStream) : Fault → Prop
  /-- There is an atom in it that is no token. -/
  | cut {e : Error} (failed : stream.failure? = some e) : Refusal stream (.error e)
  /-- One of its tokens is no atom. -/
  | atom {token : Token} {fault : Fault} (member : token ∈ stream.tokens)
      (failed : token.atom = .error fault) : Refusal stream fault
  /-- Its tokens are out of order. -/
  | order {e : Error} (order : e.isOrder = true) : Refusal stream (.error e)
  /-- It nests too deeply. -/
  | deep : Refusal stream .tooDeep

theorem ParserState.refusal_of_step {stream : TokenStream} {limit : Nat} {state : ParserState}
    {keep : Bool} (member : token ∈ stream.tokens)
    (failed : state.step limit token = .fail fault keep) : Refusal stream fault := by
  have entered {item : Open} {stack : List Open}
      (failed : ParserState.enter limit item stack = .fail fault keep) : Refusal stream fault := by
    rw [ParserState.enter] at failed
    split at failed
    · cases failed
    · cases failed
      exact .deep
  cases state with
  | close items tail stack =>
    simp only [step] at failed
    split at failed
    · exact absurd failed (settle_ne_fail _ _ _ _)
    · cases failed
      exact .order rfl
  | datum stack =>
    simp only [step] at failed
    split at failed
    · exact entered failed
    · exact entered failed
    · exact absurd failed (settle_ne_fail _ _ _ _)
    · cases failed
      exact .order rfl
    · cases failed
    · cases failed
      exact .order rfl
    · split at failed
      · exact absurd failed (settle_ne_fail _ _ _ _)
      · cases failed
        exact .atom member ‹_›

theorem ParserState.isOrder_endError (state : ParserState) : state.endError.isOrder = true := by
  rw [endError.eq_def]
  split <;> rfl

theorem refusal_of_parseFrom {stream rest : TokenStream} {limit : Nat} {state : ParserState}
    {later : List Token} {finished : List Datum} (inside : later ⊆ stream.tokens)
    (failed : Datum.parseFrom limit stream.failure? state later = .failed fault finished rest) :
    Refusal stream fault := by
  induction later generalizing state with
  | nil =>
    rw [Datum.parseFrom] at failed
    cases failed
    cases cut : stream.failure? with
    | some e => exact .cut cut
    | none => exact .order state.isOrder_endError
  | cons token later ih =>
    obtain ⟨member, inside⟩ := List.cons_subset.1 inside
    rw [Datum.parseFrom] at failed
    split at failed
    · exact ih inside failed
    · cases failed
    · cases failed
      exact ParserState.refusal_of_step member ‹_›

theorem failure?_of_parseFrom {limit : Nat} {failure? : Option Error} {state : ParserState}
    {tokens : List Token} {d : Datum} {rest : TokenStream}
    (parsed : Datum.parseFrom limit failure? state tokens = .datum d rest) :
    rest.failure? = failure? := by
  induction tokens generalizing state with
  | nil => cases parsed
  | cons token tokens ih =>
    rw [Datum.parseFrom] at parsed
    split at parsed
    · exact ih parsed
    · cases parsed
      rfl
    · cases parsed

theorem refusal_of_read {limit : Nat} {source : String} {finished : List Datum}
    (failed : Datum.read limit source = .error (fault, finished)) :
    Refusal (lex source) fault := by
  rw [Datum.read] at failed
  split at failed
  · rename_i parsed
    cases failed
    exact refusal_of_parseFrom (List.Subset.refl _) parsed
  · cases failed
  · rename_i parsed
    cases failed
    exact .cut (failure?_of_parseFrom parsed).symm
  · cases failed
    exact .order rfl

/-! ## Faults of reading -/

/-- The error at the end of the tokens of a source is that of an illegal atom. -/
theorem illegal_of_lexChars {cs : List Char} (failed : (lexChars cs).failure? = some e) :
    ∃ c atom, e = .illegalCharacter (String.ofList (c :: atom)) ∧
      ∀ d ∈ c :: atom, isBlank d = false := by
  obtain ⟨before, atom, after, -, illegal, -, -, rfl⟩ := exists_illegalAtom failed
  obtain ⟨c, atom, rfl⟩ := List.exists_cons_of_ne_nil illegal.nonempty
  refine ⟨c, atom, rfl, fun d member => ?_⟩
  have := illegal.run d member
  simp_all [isAtomChar]

/-- Boolean tokens are the two that there are. -/
theorem Spelled.eq_booleanChars (spelled : Spelled token) (kind : token.kind = .boolean) :
    token.text.toList = booleanChars true ∨ token.text.toList = booleanChars false := by
  cases spelled with
  | mark marks =>
    simp only [mark?] at marks
    split at marks <;> simp_all
  | literal => cases kind
  | atom _ _ _ made =>
    rw [Token.ofAtom] at made
    split at made
    · cases made
      simpa
    · split at made <;> cases made
      cases kind

/-- A token of a source is no atom if it is a literal with too many digits, or one that is out of
range, or none of the kinds of atoms. -/
theorem Spelled.atom_eq_error (spelled : Spelled token) (failed : token.atom = .error fault) :
    (¬token.IsShort ∧ fault = .literalTooLong (splitSign token.text.toList).2.length) ∨
      fault = .error (.literalOutOfRange token.text) ∨ fault = .error (.unknownToken token) := by
  cases kind : token.kind with
  | integer =>
    have value := numeral_of_plain (spelled.plain_of_integer kind)
    simp only [Token.atom, kind, Token.literal] at failed
    by_cases long : digitLimit < (splitSign token.text.toList).2.length
    · rw [if_pos long] at value
      rw [value] at failed
      cases failed
      exact .inl ⟨fun short => absurd (short kind) (Nat.not_le.2 long), rfl⟩
    · rw [if_neg long] at value
      rw [value] at failed
      dsimp only at failed
      split at failed
      · cases failed
      · cases failed
        exact .inr (.inl rfl)
  | boolean =>
    rcases spelled.eq_booleanChars kind with text | text
    · simp [Token.atom, kind, text] at failed
    · simp [Token.atom, kind, text, booleanChars] at failed
  | symbol => simp [Token.atom, kind] at failed
  | lparen | rparen | quote | dot | other =>
    simp only [Token.atom, kind] at failed
    cases failed
    exact .inr (.inr rfl)

theorem Reportable.of_generic (generic : fault.isGeneric = true) : Reportable tokens fault where
  ordinary := Fault.isInternal_of_isGeneric generic
  quotes := by simp [Fault.quotes_of_isGeneric generic]
  expected _ := Fault.isGeneric_cases generic

theorem Reportable.of_error (ordinary : (Fault.error e).isInternal = false)
    (quotes : ∀ text ∈ e.quotes, OneLine text) : Reportable tokens (.error e) :=
  ⟨ordinary, quotes, fun _ => .inr ⟨e, rfl⟩⟩

theorem reportable_of_atom (spelled : Spelled token) (member : token ∈ tokens)
    (failed : token.atom = .error fault) : Reportable tokens fault := by
  rcases spelled.atom_eq_error failed with ⟨long, rfl⟩ | rfl | rfl
  · exact ⟨rfl, by simp [Fault.quotes], fun short => absurd (short token member) long⟩
  · exact .of_error rfl (by simpa [Error.quotes] using spelled.oneLine)
  · exact .of_error rfl (by simpa [Error.quotes] using ⟨spelled.oneLine_kind, spelled.oneLine⟩)

/-- A source is refused for reasons that can be told on one line. -/
theorem reportable_of_read {limit : Nat} {source : String} {finished : List Datum}
    (failed : Datum.read limit source = .error (fault, finished)) :
    Reportable (lex source).tokens fault := by
  cases refusal_of_read failed with
  | cut illegal =>
    obtain ⟨c, atom, rfl, visible⟩ := illegal_of_lexChars illegal
    refine .of_error rfl ?_
    intro text member
    cases List.mem_singleton.1 member
    exact oneLine_ofList (by simp) (unbroken_of_visible visible)
  | atom member none => exact reportable_of_atom (spelled_of_mem_lexChars member) member none
  | order order => exact .of_generic (Error.isGeneric_of_isOrder order)
  | deep => exact .of_generic rfl

/-! ## Data that are complete -/

/-- The data in a state of the parser are readable, or the one that is complete is. -/
def Move.Readable : Move → Prop
  | .next state => ∀ d ∈ state.finished, Datum.Readable d
  | .done d => Datum.Readable d
  | .fail _ _ => True

theorem readable_listOfReversed {items : List Datum} {tail : Datum}
    (each : ∀ d ∈ items, Datum.Readable d) (last : Datum.Readable tail) :
    Datum.Readable (.listOfReversed items tail) := by
  induction items generalizing tail with
  | nil => exact last
  | cons d items ih =>
    refine ih (fun d member => each d (by simp [member])) ?_
    exact ⟨each d (by simp), last⟩

theorem readable_settle {d : Datum} {stack : List Open} (readable : Datum.Readable d)
    (all : ∀ e ∈ (ParserState.datum stack).finished, Datum.Readable e) :
    (ParserState.settle d stack).Readable := by
  induction stack generalizing d with
  | nil => exact readable
  | cons item stack ih =>
    simp only [ParserState.finished, List.reverse_cons, List.flatMap_append, List.mem_append] at all
    cases item with
    | quote =>
      have quoted : Datum.Readable d.quote := ⟨spelled_iff.1 spelled_quote, readable, trivial⟩
      exact ih quoted fun e member => all e (.inl member)
    | list items | tail items =>
      intro e member
      simp only [ParserState.finished, Open.finished, List.reverse_cons, List.flatMap_append,
        List.flatMap_cons, List.flatMap_nil, List.append_nil, List.mem_append,
        List.mem_singleton] at all member
      grind

theorem readable_enter {limit : Nat} {item : Open} {stack : List Open} (fresh : item.finished = [])
    (all : ∀ e ∈ (ParserState.datum stack).finished, Datum.Readable e) :
    (ParserState.enter limit item stack).Readable := by
  rw [ParserState.enter]
  split
  · intro e member
    simp only [ParserState.finished, List.reverse_cons, List.flatMap_append, List.flatMap_cons,
      List.flatMap_nil, fresh, List.append_nil] at member
    exact all e member
  · trivial

theorem readable_step {limit : Nat} {state : ParserState} (spelled : Spelled token)
    (all : ∀ e ∈ state.finished, Datum.Readable e) : (state.step limit token).Readable := by
  generalize moved : state.step limit token = move
  have steps := moved ▸ ParserState.steps_step limit token state
  clear moved
  cases steps with
  | @atom stack a found =>
    have readable : Datum.Readable (.leaf a) :=
      Datum.readable_of_derives (Derives.atom found) (by simpa using spelled)
    exact readable_settle readable all
  | lparen kind | quote kind => exact readable_enter rfl all
  | @rparen items stack kind =>
    simp only [ParserState.finished, Open.finished, List.reverse_cons, List.flatMap_append,
      List.flatMap_cons, List.flatMap_nil, List.append_nil, List.mem_append,
      List.mem_reverse] at all
    have each : ∀ d ∈ items, Datum.Readable d := fun d member => all d (.inr member)
    refine readable_settle (readable_listOfReversed each trivial) ?_
    exact fun e member => all e (.inl member)
  | dot kind nonempty =>
    intro e member
    exact all e (by simpa [ParserState.finished, Open.finished] using member)
  | @close items tail stack kind =>
    simp only [ParserState.finished, List.mem_append, List.mem_reverse, List.mem_singleton] at all
    refine readable_settle (readable_listOfReversed (fun d member => all d (.inl (.inr member)))
      (all tail (.inr rfl))) ?_
    exact fun e member => all e (.inl (.inl member))
  | refused => trivial

/-! ## Sources -/

/-- Whether a datum is complete in the end or not, the data that are complete are readable. -/
theorem readable_parseFrom {limit : Nat} {failure? : Option Error} {state : ParserState}
    (spelled : ∀ token ∈ tokens, Spelled token) (all : ∀ e ∈ state.finished, Datum.Readable e) :
    match Datum.parseFrom limit failure? state tokens with
    | .datum d _ => Datum.Readable d
    | .failed _ finished _ => ∀ d ∈ finished, Datum.Readable d := by
  induction tokens generalizing state with
  | nil => exact all
  | cons token tokens ih =>
    obtain ⟨first, later⟩ := List.forall_mem_cons.1 spelled
    have stepped : (state.step limit token).Readable := readable_step first all
    rw [Datum.parseFrom]
    cases moved : state.step limit token with
    | next state' =>
      rw [moved] at stepped
      exact ih later stepped
    | done d =>
      rw [moved] at stepped
      exact stepped
    | fail fault keep => exact all

/-- A source is refused with an error of grammar, unless it nests too deeply or one of its literals
has more digits than are converted. -/
theorem grammar_of_read {limit : Nat} {source : String} {finished : List Datum}
    (failed : Datum.read limit source = .error (fault, finished)) :
    fault = .tooDeep ∨ (∃ e, fault = .error e ∧ e.category = .grammar) ∨
      ∃ token ∈ (lex source).tokens, ¬token.IsShort ∧
        fault = .literalTooLong (splitSign token.text.toList).2.length := by
  cases refusal_of_read failed with
  | cut illegal =>
    obtain ⟨c, atom, rfl, -⟩ := illegal_of_lexChars illegal
    exact .inr (.inl ⟨_, rfl, rfl⟩)
  | atom member none =>
    rcases (spelled_of_mem_lexChars member).atom_eq_error none with long | rfl | rfl
    · exact .inr (.inr ⟨_, member, long⟩)
    · exact .inr (.inl ⟨_, rfl, rfl⟩)
    · exact .inr (.inl ⟨_, rfl, rfl⟩)
  | order order => exact .inr (.inl ⟨_, rfl, Error.category_of_isOrder order⟩)
  | deep => exact .inl rfl

/-- The source is refused for a literal with more digits than are converted. -/
def Datum.Overlong (limit : Nat) (source : String) : Prop :=
  ∃ digits finished, Datum.read limit source = .error (.literalTooLong digits, finished)

theorem Datum.not_overlong_of_short {source : String}
    (short : ∀ token ∈ (lex source).tokens, token.IsShort) (limit : Nat) :
    ¬Overlong limit source := by
  rintro ⟨digits, finished, failed⟩
  have expected := (reportable_of_read failed).expected short
  simp at expected

/-- The data that were complete when a source is refused are readable. -/
theorem readable_of_refused {limit : Nat} {source : String} {finished : List Datum}
    (failed : Datum.read limit source = .error (fault, finished)) :
    ∀ d ∈ finished, Datum.Readable d := by
  have parsed : match Datum.parse limit (lex source) with
      | .datum d _ => Datum.Readable d
      | .failed _ finished _ => ∀ d ∈ finished, Datum.Readable d :=
    readable_parseFrom (fun _ => spelled_of_mem_lexChars) (by simp [ParserState.finished])
  rw [Datum.read] at failed
  split at failed
  · rename_i whole
    cases failed
    rwa [whole] at parsed
  · cases failed
  · rename_i whole
    cases failed
    rw [whole] at parsed
    simpa using parsed
  · rename_i whole
    cases failed
    rw [whole] at parsed
    simpa using parsed

end LittleScheme
