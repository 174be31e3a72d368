import LittleScheme.Proofs.Token.Spelling
import LittleScheme.Token.Lookahead

/-!
# Reading token by token

Whoever reads a stream of tokens looks at the next token, takes it, or asks whether there is one, in
any order and as often as wanted.  What comes of all this depends only on what the next token is and
on how many have been taken: looking does not use tokens up, and an error that is met is met once.

A text that is cut as it is read, with one token kept aside, answers like the stream of all of its
tokens.  A token that is kept aside is the first of those still to be read, so that each request
finds in both the same token and leaves the same tokens behind; the rest is an induction on the
requests.

## Main definitions

* `Query`, `Event` — what is asked of a stream, and what has been asked with what came of it.
* `Requests.events` — what comes of one query after the other.

## Main statements

* `TokenStream.serve_eq` — what comes of a query, and the stream that is left behind.
* `TokenStream.found_of_look`, `TokenStream.of_fault` — what follows on a look, and on an error.
* `Lookahead.serve_stream` — a text that is cut as it is read serves a query like its tokens.
* `Requests.events_map` — what serves each query alike serves all of them alike.
* `lookahead_laws` — tokens are neither lost nor repeated, and an error is met once.
-/

namespace LittleScheme

open Text

/-! ## Queries and events -/

/-- What is asked of a stream of tokens. -/
inductive Query
  | peek | advance | atEnd
deriving DecidableEq

/-- A query, and what came of it. -/
inductive Event
  | peek (found : Except Fault (Option Token))
  | advance (found : Except Fault (Option Token))
  | atEnd (found : Except Fault Bool)
deriving DecidableEq

namespace Event

/-- The query that was made. -/
def query : Event → Query
  | .peek _ => .peek
  | .advance _ => .advance
  | .atEnd _ => .atEnd

/-- The token that was taken. -/
def taken? : Event → Option Token
  | .advance (.ok next) => next
  | _ => none

/-- The fault that the query stopped with. -/
def fault? : Event → Option Fault
  | .peek (.error fault) | .advance (.error fault) | .atEnd (.error fault) => some fault
  | _ => none

/-- The event reports the end of the input. -/
def ReportsEnd : Event → Prop
  | .peek found => found = .ok none
  | .advance found => found = .ok none
  | .atEnd found => found = .ok true

end Event

/-- The event of a query that finds a token, the end, or an error ahead. -/
def Query.event (found : Except Fault (Option Token)) : Query → Event
  | .peek => .peek found
  | .advance => .advance found
  | .atEnd => .atEnd (found.map Option.isNone)

section Event

variable {query : Query} {found : Except Fault (Option Token)} {next : Option Token} {fault : Fault}

@[simp] theorem Query.query_event : (query.event found).query = query := by cases query <;> rfl

@[simp] theorem Query.fault?_event_ok : (query.event (.ok next)).fault? = none := by
  cases query <;> rfl

@[simp] theorem Query.fault?_event_error : (query.event (.error fault)).fault? = some fault := by
  cases query <;> rfl

theorem Event.ReportsEnd.fault?_eq_none {event : Event} (ended : event.ReportsEnd) :
    event.fault? = none := by
  cases event <;> cases ended <;> rfl

theorem Query.reportsEnd_event : (query.event (.ok none)).ReportsEnd := by cases query <;> rfl

@[simp] theorem Query.taken?_event_ok :
    (query.event (.ok next)).taken? = if query = .advance then next else none := by
  cases query <;> rfl

@[simp] theorem Query.taken?_event_error : (query.event (.error fault)).taken? = none := by
  cases query <;> rfl

end Event

/-- The requests by which queries are served, on states of any kind. -/
structure Requests (σ : Type) where
  peek : EStateM Fault σ (Option Token)
  advance : EStateM Fault σ (Option Token)
  atEnd : EStateM Fault σ Bool

namespace Requests

variable {σ τ : Type}

/-- What comes of a request, and the state that it leaves behind. -/
def record {α : Type} (event : Except Fault α → Event) (request : EStateM Fault σ α) (s : σ) :
    Event × σ :=
  match request s with
  | .ok a s' => (event (.ok a), s')
  | .error fault s' => (event (.error fault), s')

/-- Serve one query. -/
def serve (requests : Requests σ) (s : σ) : Query → Event × σ
  | .peek => record .peek requests.peek s
  | .advance => record .advance requests.advance s
  | .atEnd => record .atEnd requests.atEnd s

/-- What comes of one query after the other, also behind a query that has stopped. -/
def events (requests : Requests σ) : σ → List Query → List Event
  | _, [] => []
  | s, query :: queries =>
    (requests.serve s query).1 :: requests.events (requests.serve s query).2 queries

/-- The state behind one query after the other. -/
def leave (requests : Requests σ) (s : σ) (queries : List Query) : σ :=
  queries.foldl (fun s query => (requests.serve s query).2) s

theorem events_append (requests : Requests σ) (s : σ) (queries queries' : List Query) :
    requests.events s (queries ++ queries') =
      requests.events s queries ++ requests.events (requests.leave s queries) queries' := by
  induction queries generalizing s with
  | nil => rfl
  | cons query queries ih =>
    rw [List.cons_append, events, events, ih, List.cons_append]
    rfl

/-- What comes later comes of the queries that are left, in the state that has been reached. -/
theorem exists_of_events_eq_append {requests : Requests σ} {s : σ} {queries : List Query}
    {before after : List Event} (split : requests.events s queries = before ++ after) :
    ∃ s' queries', after = requests.events s' queries' := by
  induction before generalizing s queries with
  | nil => exact ⟨s, queries, split.symm⟩
  | cons event before ih =>
    cases queries with
    | nil => cases split
    | cons query queries =>
      rw [events, List.cons_append, List.cons.injEq] at split
      exact ih split.2

/-- Where each query comes to the same and leaves corresponding states behind, one query after the
other comes to the same. -/
theorem events_map {requests : Requests σ} {requests' : Requests τ} {f : σ → τ}
    (step : ∀ s query, requests'.serve (f s) query =
      ((requests.serve s query).1, f (requests.serve s query).2)) (s : σ) (queries : List Query) :
    requests.events s queries = requests'.events (f s) queries := by
  induction queries generalizing s with
  | nil => rfl
  | cons query queries ih => rw [events, events, step, ih]

end Requests

/-! ## Streams of tokens -/

namespace TokenStream

/-- The requests to a stream of tokens. -/
def requests : Requests TokenStream := ⟨peek, advance, atEnd⟩

/-- What is ahead in a stream: a token, the end, or an error. -/
def ahead (stream : TokenStream) : Except Fault (Option Token) :=
  match stream.tokens, stream.failure? with
  | token :: _, _ => .ok (some token)
  | [], none => .ok none
  | [], some e => .error (.error e)

/-- The stream behind a query: nothing is left behind an error, and a token that is taken is
gone. -/
def behind (stream : TokenStream) (query : Query) : TokenStream :=
  match stream.ahead, query with
  | .error _, _ => exhausted
  | .ok _, .advance => { stream with tokens := stream.tokens.tail }
  | .ok _, _ => stream

variable {stream : TokenStream} {queries : List Query}

/-- What comes of a query is what is ahead, and the stream behind it is left. -/
theorem serve_eq (stream : TokenStream) (query : Query) :
    requests.serve stream query = (query.event stream.ahead, stream.behind query) := by
  obtain ⟨tokens, failure?⟩ := stream
  cases tokens <;> cases failure? <;> cases query <;> rfl

theorem events_cons (stream : TokenStream) (query : Query) (queries : List Query) :
    requests.events stream (query :: queries) =
      query.event stream.ahead :: requests.events (stream.behind query) queries := by
  rw [Requests.events, serve_eq]

/-- The first event comes of what is ahead, and the others come of the stream behind. -/
theorem exists_of_events_eq_cons {event : Event} {after : List Event}
    (split : requests.events stream queries = event :: after) :
    ∃ query queries', event = query.event stream.ahead ∧
      requests.events (stream.behind query) queries' = after := by
  cases queries with
  | nil => cases split
  | cons query queries =>
    rw [events_cons, List.cons.injEq] at split
    exact ⟨query, queries, split.1.symm, split.2⟩

/-- Looking at what is ahead leaves the stream as it was. -/
theorem behind_of_ne {next : Option Token} (found : stream.ahead = .ok next) {query : Query}
    (looks : query ≠ .advance) : stream.behind query = stream := by
  cases query with
  | advance => exact absurd rfl looks
  | peek | atEnd => simp only [behind, found]

/-- Behind an error nothing is left. -/
theorem behind_of_error {fault : Fault} (found : stream.ahead = .error fault) (query : Query) :
    stream.behind query = exhausted := by
  simp only [behind, found]

/-- An error is ahead where it stands behind no more tokens. -/
theorem ahead_eq_error_iff {fault : Fault} :
    stream.ahead = .error fault ↔
      stream.tokens = [] ∧ ∃ e, stream.failure? = some e ∧ fault = .error e := by
  obtain ⟨tokens, failure?⟩ := stream
  cases tokens <;> cases failure? <;> simp [ahead, eq_comm]

/-- A stream with nothing left reports its end to every query. -/
theorem reportsEnd_of_exhausted (queries : List Query) :
    ∀ event ∈ requests.events exhausted queries, event.ReportsEnd := by
  induction queries with
  | nil => simp [Requests.events]
  | cons query queries ih =>
    have same : exhausted.behind query = exhausted := by cases query <;> rfl
    rw [events_cons, same, List.forall_mem_cons]
    exact ⟨Query.reportsEnd_event, ih⟩

/-- One token is taken for each query that takes one, as long as there are tokens. -/
theorem filterMap_taken?_events (stream : TokenStream) (queries : List Query) :
    (requests.events stream queries).filterMap Event.taken? =
      stream.tokens.take (queries.count .advance) := by
  induction queries generalizing stream with
  | nil => simp [Requests.events]
  | cons query queries ih =>
    rw [events_cons, List.filterMap_cons, List.count_cons, ih]
    obtain ⟨tokens, failure?⟩ := stream
    cases tokens <;> cases failure? <;> cases query <;> simp [ahead, behind, exhausted]

/-- What is ahead stays ahead until it is taken. -/
theorem found_of_ahead {between after : List Event} {next : Option Token}
    {found : Except Fault (Option Token)} (ahead : stream.ahead = .ok next)
    (split : requests.events stream queries = between ++ .advance found :: after)
    (looks : ∀ event ∈ between, event.query ≠ .advance) : found = .ok next := by
  induction between generalizing queries with
  | nil =>
    obtain ⟨query, -, same, -⟩ := exists_of_events_eq_cons split
    rw [ahead] at same
    cases query with
    | advance => exact Event.advance.inj same
    | peek | atEnd => cases same
  | cons event between ih =>
    obtain ⟨query, queries', rfl, later⟩ := exists_of_events_eq_cons split
    rw [List.forall_mem_cons, Query.query_event] at looks
    rw [behind_of_ne ahead looks.1] at later
    exact ih later looks.2

/-- Whatever has been seen by looking is what the next query that takes a token comes to. -/
theorem found_of_look {before between after : List Event} {event : Event}
    {found : Except Fault (Option Token)}
    (split : requests.events stream queries =
      before ++ event :: (between ++ .advance found :: after))
    (looks : ∀ event' ∈ event :: between, event'.query ≠ .advance) (well : event.fault? = none) :
    ∃ next, found = .ok next ∧ event = event.query.event (.ok next) := by
  obtain ⟨stream', queries', rest⟩ := Requests.exists_of_events_eq_append split
  obtain ⟨query, queries', rfl, later⟩ := exists_of_events_eq_cons rest.symm
  rw [List.forall_mem_cons, Query.query_event] at looks
  cases ahead : stream'.ahead with
  | error fault => simp [ahead] at well
  | ok next =>
    rw [behind_of_ne ahead looks.1] at later
    exact ⟨next, found_of_ahead ahead later looks.2, by rw [Query.query_event]⟩

/-- Before an error is met, what a query takes and what it leaves are the tokens that were there,
and what they end in stays. -/
theorem taken?_append_behind {next : Option Token} (found : stream.ahead = .ok next)
    (query : Query) :
    (query.event (.ok next)).taken?.toList ++ (stream.behind query).tokens = stream.tokens ∧
      (stream.behind query).failure? = stream.failure? := by
  obtain ⟨tokens, failure?⟩ := stream
  cases tokens with
  | nil => cases failure? <;> cases query <;> simp_all [ahead, behind]
  | cons token tokens =>
    obtain rfl : some token = next := Except.ok.inj found
    cases query <;> simp [ahead, behind]

/-- An error is met once, behind all tokens, and then the stream is at its end. -/
theorem of_fault {before after : List Event} {event : Event} {fault : Fault}
    (split : requests.events stream queries = before ++ event :: after)
    (failed : event.fault? = some fault) :
    (∃ e, stream.failure? = some e ∧ fault = .error e) ∧
      before.filterMap Event.taken? = stream.tokens ∧ (∀ event ∈ before, event.fault? = none) ∧
      ∀ event ∈ after, event.ReportsEnd := by
  induction before generalizing stream queries with
  | nil =>
    obtain ⟨query, queries', rfl, rfl⟩ := exists_of_events_eq_cons split
    cases found : stream.ahead with
    | ok next => simp [found] at failed
    | error fault' =>
      obtain rfl : fault' = fault := by simpa [found] using failed
      obtain ⟨none, meets⟩ := ahead_eq_error_iff.1 found
      rw [behind_of_error found]
      exact ⟨meets, none.symm, by simp, reportsEnd_of_exhausted queries'⟩
  | cons first before ih =>
    obtain ⟨query, queries', rfl, later⟩ := exists_of_events_eq_cons split
    cases found : stream.ahead with
    | error fault' =>
      -- behind the first error there is no other
      rw [behind_of_error found] at later
      have ended := reportsEnd_of_exhausted queries' event (by simp [later])
      rw [ended.fault?_eq_none] at failed
      cases failed
    | ok next =>
      obtain ⟨tokens, same⟩ := taken?_append_behind found query
      obtain ⟨meets, taken, well, after⟩ := ih later
      refine ⟨same ▸ meets, ?_, List.forall_mem_cons.2 ⟨Query.fault?_event_ok, well⟩, after⟩
      rw [← tokens, ← taken, List.filterMap_cons]
      cases (query.event (.ok next)).taken? <;> rfl

end TokenStream

/-! ## Texts that are cut as they are read -/

/-- The tokens of a text are the first of them and those of the text behind it. -/
theorem lexChars_eq_cutToken (cs : List Char) :
    lexChars cs =
      match cutToken cs with
      | .ok (some (token, rest)) => (lexChars rest).cons token
      | .ok none => ⟨[], none⟩
      | .error e => ⟨[], some e⟩ := by
  rw [cutToken]
  cases found : cs.dropWhile isBlank with
  | nil => exact lexChars_of_blank found
  | cons c rest =>
    cases made : (Start.of c rest).token (c :: rest.takeWhile (Start.of c rest).continues) with
    | error e => simpa only [made] using lexChars_of_error found made
    | ok token => simpa only [made] using lexChars_of_token found made

namespace Lookahead

/-- The requests to a text that is cut as it is read. -/
def requests : Requests Lookahead := ⟨peek, advance, atEnd⟩

theorem pull_eq (ahead : Lookahead) :
    pull ahead =
      match cutToken ahead.rest with
      | .ok (some (token, rest)) => .ok (some token) { ahead with rest }
      | .ok none => .ok none { ahead with rest := [] }
      | .error e => .error (.error e) { ahead with rest := [] } := by
  change (match cutToken ahead.rest with
    | .ok (some (token, rest)) => (do set { ahead with rest }; return some token)
    | .ok none => (do set { ahead with rest := [] }; return none)
    | .error e => (do set { ahead with rest := [] }; throw (Fault.error e) :
        Request (Option Token))) ahead = _
  rcases cutToken ahead.rest with e | _ | ⟨token, rest⟩ <;> rfl

/-- With no token kept aside, the one that is cut off is. -/
theorem peek_eq (rest : List Char) :
    peek ⟨rest, none⟩ =
      match pull ⟨rest, none⟩ with
      | .ok next ahead => .ok next { ahead with buffer := next }
      | .error fault ahead => .error fault ahead := by
  change EStateM.bind pull _ _ = _
  rw [EStateM.bind]
  cases pull ⟨rest, none⟩ <;> rfl

theorem atEnd_eq (ahead : Lookahead) :
    atEnd ahead =
      match peek ahead with
      | .ok next ahead => .ok next.isNone ahead
      | .error fault ahead => .error fault ahead := by
  change EStateM.bind peek _ _ = _
  rw [EStateM.bind]
  cases peek ahead <;> rfl

/-- With no token kept aside, a query comes to the first token of the text, which is kept aside
unless it is taken. -/
theorem serve_of_cutToken (rest : List Char) (query : Query) :
    requests.serve ⟨rest, none⟩ query =
      match cutToken rest with
      | .ok (some (token, rest)) =>
        (query.event (.ok (some token)), ⟨rest, if query = .advance then none else some token⟩)
      | .ok none => (query.event (.ok none), ⟨[], none⟩)
      | .error e => (query.event (.error (.error e)), ⟨[], none⟩) := by
  cases query with
  | peek =>
    change Requests.record .peek peek _ = _
    rw [Requests.record, peek_eq, pull_eq]
    rcases cutToken rest with e | _ | ⟨token, rest'⟩ <;> rfl
  | advance =>
    change Requests.record .advance pull _ = _
    rw [Requests.record, pull_eq]
    rcases cutToken rest with e | _ | ⟨token, rest'⟩ <;> rfl
  | atEnd =>
    change Requests.record .atEnd atEnd _ = _
    rw [Requests.record, atEnd_eq, peek_eq, pull_eq]
    rcases cutToken rest with e | _ | ⟨token, rest'⟩ <;> rfl

/-- A text that is cut as it is read serves a query as the stream of its tokens does, and the tokens
that it leaves are those that are left of the stream. -/
theorem serve_stream (ahead : Lookahead) (query : Query) :
    TokenStream.requests.serve ahead.stream query =
      ((requests.serve ahead query).1, (requests.serve ahead query).2.stream) := by
  obtain ⟨rest, buffer⟩ := ahead
  cases buffer with
  | some token => cases query <;> rfl
  | none =>
    have left : stream ⟨[], none⟩ = .exhausted := lexChars_nil
    rw [serve_of_cutToken, TokenStream.serve_eq, stream, lexChars_eq_cutToken]
    rcases cutToken rest with e | _ | ⟨token, rest'⟩
    · exact congrArg _ left.symm
    · cases query <;> exact congrArg _ left.symm
    · cases query <;> rfl

end Lookahead

/-- **Looking ahead.**  Whatever queries are made one after the other on a text that is cut as it is
read, what comes of them is what comes of them on the stream of all of its tokens.

The tokens that are taken are the first tokens of the text in their order, one for each query that
takes a token, as long as there are any.  At each moment a token, the end or an error is ahead:
looking and taking would both come to it, and asking for the end would tell whether it is the end.
What looking has given is given again by the next query that takes a token, and if it has been
answered whether the end is reached, the answer was yes exactly if that query comes to the end.

A query that stops meets the error in which the tokens end.  All tokens have been taken before, no
query has stopped before, and all queries behind it report the end. -/
theorem lookahead_laws (source : String) (queries : List Query) :
    let events := Lookahead.requests.events (.ofSource source) queries
    events = TokenStream.requests.events (lex source) queries ∧
    events.filterMap Event.taken? = (lex source).tokens.take (queries.count .advance) ∧
    (∃ found : Except Fault (Option Token), ∀ query : Query,
      Lookahead.requests.events (.ofSource source) (queries ++ [query]) =
        events ++ [query.event found]) ∧
    (∀ (before between after : List Event) (next : Option Token)
      (found : Except Fault (Option Token)),
      events = before ++ .peek (.ok next) :: (between ++ .advance found :: after) →
        (∀ event ∈ between, event.query ≠ .advance) → found = .ok next) ∧
    (∀ (before between after : List Event) (ended : Bool)
      (found : Except Fault (Option Token)),
      events = before ++ .atEnd (.ok ended) :: (between ++ .advance found :: after) →
        (∀ event ∈ between, event.query ≠ .advance) →
          (∃ next, found = .ok next) ∧ (ended = true ↔ found = .ok none)) ∧
    ∀ (before after : List Event) (event : Event) (fault : Fault),
      events = before ++ event :: after → event.fault? = some fault →
        (∃ e, (lex source).failure? = some e ∧ fault = .error e) ∧
          before.filterMap Event.taken? = (lex source).tokens ∧
            (∀ event ∈ before, event.fault? = none) ∧ ∀ event ∈ after, event.ReportsEnd := by
  intro events
  have same (queries : List Query) : Lookahead.requests.events (.ofSource source) queries =
      TokenStream.requests.events (lex source) queries :=
    Requests.events_map Lookahead.serve_stream _ queries
  have whole : events = TokenStream.requests.events (lex source) queries := same queries
  refine ⟨whole, ?_, ?_, ?_, ?_, ?_⟩
  · rw [whole, TokenStream.filterMap_taken?_events]
  · refine ⟨(TokenStream.requests.leave (lex source) queries).ahead, fun query => ?_⟩
    rw [same, Requests.events_append, whole, TokenStream.events_cons, Requests.events]
  · intro before between after next found split looks
    rw [whole] at split
    obtain ⟨next', rfl, same⟩ :=
      TokenStream.found_of_look split (List.forall_mem_cons.2 ⟨nofun, looks⟩) rfl
    exact (Event.peek.inj same).symm
  · intro before between after ended found split looks
    rw [whole] at split
    obtain ⟨next, rfl, same⟩ :=
      TokenStream.found_of_look split (List.forall_mem_cons.2 ⟨nofun, looks⟩) rfl
    obtain rfl : ended = next.isNone := Except.ok.inj (Event.atEnd.inj same)
    exact ⟨⟨next, rfl⟩, by simp⟩
  · intro before after event fault split failed
    exact TokenStream.of_fault (whole ▸ split) failed

/-- The second of two tokens is illegal: the query that comes to it first meets it, and the
queries behind it report the end. -/
theorem lookahead_laws_illegal :
    let ahead : Lookahead := .ofSource "a #x"
    let a : Token := ⟨.symbol, "a"⟩
    let fault : Fault := .error (.illegalCharacter "#x")
    Lookahead.requests.events ahead [.peek, .atEnd, .advance, .atEnd, .peek, .advance] =
        [.peek (.ok (some a)), .atEnd (.ok false), .advance (.ok (some a)), .atEnd (.error fault),
          .peek (.ok none), .advance (.ok none)] ∧
      (∃ e, (lex "a #x").failure? = some e ∧ fault = .error e) ∧ [a] = (lex "a #x").tokens := by
  intro ahead a fault
  have run : Lookahead.requests.events ahead
      [.peek, .atEnd, .advance, .atEnd, .peek, .advance] =
        [.peek (.ok (some a)), .atEnd (.ok false), .advance (.ok (some a)), .atEnd (.error fault),
          .peek (.ok none), .advance (.ok none)] := by
    decide +kernel
  obtain ⟨-, -, -, -, -, meets⟩ :=
    lookahead_laws "a #x" [.peek, .atEnd, .advance, .atEnd, .peek, .advance]
  obtain ⟨failure, tokens, -⟩ :=
    meets [.peek (.ok (some a)), .atEnd (.ok false), .advance (.ok (some a))]
      [.peek (.ok none), .advance (.ok none)] (.atEnd (.error fault)) fault run rfl
  exact ⟨run, failure, tokens⟩

end LittleScheme
