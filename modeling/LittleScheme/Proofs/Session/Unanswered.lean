import LittleScheme.Proofs.Session.Lines

/-!
# Lines without an outcome

A line that cannot be read comes to an error of grammar, and the session goes on.  There is one
exception: a literal with more digits than are converted stops the line without an outcome, and
`Session.serve` with it.  Literals that are merely out of range come to an error, as long as they
have no more digits than are converted.
-/

namespace LittleScheme

open Text

/-! ## Literals that are too long -/

/-- A literal by itself, with more digits than are converted. -/
theorem Datum.read_of_long {cs : List Char} (digits : ∀ c ∈ cs, c.isDigit = true)
    (long : digitLimit < cs.length) (limit : Nat) :
    Datum.read limit (String.ofList cs) = .error (.literalTooLong cs.length, []) := by
  have nonempty : cs ≠ [] := by
    rintro rfl
    simp at long
  have sign : splitSign cs = (false, cs) := splitSign_of_isDigit digits
  have plain : Plain cs := by
    rw [Plain, sign]
    exact ⟨nonempty, digits⟩
  have value : numeral cs = .error (.tooLong cs.length) := by
    rw [numeral_of_plain plain, sign]
    simp [long]
  have tokens : lex (String.ofList cs) = ⟨[⟨.integer, String.ofList cs⟩], none⟩ :=
    spelled_iff.1 (.literal plain)
  have none : Token.atom ⟨.integer, String.ofList cs⟩ = .error (.literalTooLong cs.length) := by
    simp [Token.atom, Token.literal, value, Except.map]
  simp [Datum.read, Datum.parse, tokens, Datum.parseFrom, ParserState.step, none,
    ParserState.finished]

/-- Blank lines have no literals. -/
theorem Datum.not_overlong_of_blank {source : String} (blank : allBlank source.toList = true)
    (limit : Nat) : ¬Datum.Overlong limit source := by
  have nothing : source.toList.dropWhile isBlank = [] := by
    simpa [allBlank] using blank
  refine Datum.not_overlong_of_short ?_ limit
  simp [lex, lexChars_of_blank nothing]

namespace Session

variable {session : Session} {line : String}

/-- A literal that is too long stops the line, and it is no outcome. -/
theorem execute_of_overlong {digits : Nat} {finished : List Datum}
    (refused : Datum.read session.limit line = .error (.literalTooLong digits, finished)) :
    ∃ session', execute line session = .error (.literalTooLong digits) session' := by
  obtain ⟨s, failed⟩ := @exists_abandon Ref (.literalTooLong digits) finished session.store
  rw [← readValue_of_error refused] at failed
  have stopped : attempt .nestingTooDeep (readValue session.limit line) session =
      .error (.literalTooLong digits) { session with store := s } := by
    simp only [attempt, onStore, failed]
  have ended : run line session = .error (.literalTooLong digits) { session with store := s } :=
    bind_of_error stopped _
  exact ⟨_, by rw [execute, ended]⟩

/-- It stops the sequence of lines too. -/
theorem serve_of_overlong {lines : List String} (holds : session.InCustody)
    (legible : session.store.Legible)
    (overlong : ∃ line ∈ lines, Datum.Overlong session.limit line) :
    ∃ text digits session',
      session.serve lines = (text, some (.literalTooLong digits), session') := by
  induction lines generalizing session with
  | nil => simp at overlong
  | cons line lines ih =>
    by_cases blank : allBlank line.toList = true
    · have later : ∃ line ∈ lines, Datum.Overlong session.limit line := by
        simpa [Datum.not_overlong_of_blank blank] using overlong
      obtain ⟨text, digits, session', served⟩ := ih holds legible later
      exact ⟨"" ++ text, digits, session', by simp [serve, answer_of_blank blank, served]⟩
    · have visible : allBlank line.toList = false := by simpa using blank
      by_cases first : Datum.Overlong session.limit line
      · rw [← overlong_withoutLineFeeds] at first
        obtain ⟨digits, finished, refused⟩ := first
        obtain ⟨session', stopped⟩ := execute_of_overlong refused
        refine ⟨"", digits, session', ?_⟩
        rw [serve, answer_of_error visible stopped]
      · have later : ∃ line ∈ lines, Datum.Overlong session.limit line := by
          simpa [first] using overlong
        rw [← overlong_withoutLineFeeds] at first
        obtain ⟨outcome, session₁, ended, -⟩ := oneLine_outcome holds legible first
        obtain ⟨holds₁, legible₁, limit₁⟩ := kept_execute holds legible ended
        rw [← limit₁] at later
        obtain ⟨text, digits, session', served⟩ := ih holds₁ legible₁ later
        refine ⟨outcome.text ++ "\n" ++ text, digits, session', ?_⟩
        simp [serve, answer_of_execute visible ended, served]

/-- A literal by itself stops the line that it stands on, and those behind it. -/
theorem serve_of_long {cs : List Char} (digits : ∀ c ∈ cs, c.isDigit = true)
    (long : digitLimit < cs.length) (session : Session) (lines : List String) :
    ∃ session', execute (String.ofList cs) session = .error (.literalTooLong cs.length) session' ∧
      session.serve (String.ofList cs :: lines) =
        ("", some (.literalTooLong cs.length), session') := by
  have visible : ∀ c ∈ cs, isBlank c = false :=
    fun c member => isBlank_of_isDigit (digits c member)
  obtain ⟨c, rest, rfl⟩ : ∃ c rest, cs = c :: rest := List.exists_cons_of_length_pos (by omega)
  have some : allBlank (String.ofList (c :: rest)).toList = false := by
    simp [allBlank, visible c]
  have whole : withoutLineFeeds (String.ofList (c :: rest)) = String.ofList (c :: rest) := by
    have kept : (c :: rest).reverse.dropWhile (· == '\n') = (c :: rest).reverse := by
      cases reversed : (c :: rest).reverse with
      | nil => rfl
      | cons d others =>
        have digit : d.isDigit = true := digits d (List.mem_reverse.1 (by rw [reversed]; simp))
        have feed : d ≠ '\n' := by
          rintro rfl
          simp at digit
        exact List.dropWhile_cons_of_neg (by simpa using feed)
    rw [withoutLineFeeds, String.toList_ofList, kept, List.reverse_reverse]
  obtain ⟨session', stopped⟩ :=
    execute_of_overlong (Datum.read_of_long digits long session.limit)
  refine ⟨session', stopped, ?_⟩
  rw [serve, answer_of_error some (whole.symm ▸ stopped)]

end Session

/-- **Only literals that are too long go unanswered.**  Wherever a source is refused, it is refused
with an error of grammar, unless it nests too deeply or one of its literals has more digits than are
converted.  So in every session, a line comes to an outcome exactly if it is not refused for such a
literal, and a sequence of lines is answered to its end exactly if none of them is. -/
theorem unanswered_iff_overlong (collectOnError : Bool) (limit : Nat)
    (actions : List Session.Action) :
    let session := (Session.start collectOnError limit).afterAll actions
    (∀ limit source s fault s', readValue limit source s = .error fault s' →
      fault = .tooDeep ∨ (∃ e, fault = .error e ∧ e.category = .grammar) ∨
        ∃ token ∈ (lex source).tokens, ¬token.IsShort ∧
          fault = .literalTooLong (splitSign token.text.toList).2.length) ∧
      (∀ line, (∃ outcome session', Session.execute line session = .ok outcome session') ↔
        ¬Datum.Overlong session.limit line) ∧
      ∀ input, (∃ outcomes session',
          session.Answers (Session.visibleLines input) outcomes session' ∧
            session.serve input =
              (String.join (outcomes.map (·.text ++ "\n")), none, session')) ↔
        ∀ line ∈ input, ¬Datum.Overlong session.limit line := by
  intro session
  have holds : session.InCustody :=
    Session.InCustody.afterAll (custody.holds_start collectOnError limit) actions
  have legible : session.store.Legible :=
    Session.legible_afterAll (Session.legible_start collectOnError limit) actions
  refine ⟨?_, fun line => ⟨?_, ?_⟩, fun input => ⟨?_, ?_⟩⟩
  · intro limit source s fault s' failed
    obtain ⟨finished, refused⟩ := refused_of_readValue failed
    exact grammar_of_read refused
  · rintro ⟨outcome, session', ended⟩ ⟨digits, finished, refused⟩
    obtain ⟨session', stopped⟩ := Session.execute_of_overlong refused
    simp [ended] at stopped
  · intro accepted
    obtain ⟨outcome, session', ended, -⟩ := Session.oneLine_outcome holds legible accepted
    exact ⟨outcome, session', ended⟩
  · rintro ⟨outcomes, session', -, served⟩ line member overlong
    obtain ⟨text, digits, session', stopped⟩ :=
      Session.serve_of_overlong holds legible ⟨line, member, overlong⟩
    simp [served] at stopped
  · intro accepted
    obtain ⟨outcomes, session', answers, served, -⟩ :=
      Session.serve_of_accepted holds legible accepted
    exact ⟨outcomes, session', answers, served⟩

/-- An unmatched bracket is an error of grammar, and a literal that is out of range is answered. -/
theorem unanswered_iff_overlong_unmatched :
    let session := (Session.start true 1000).afterAll []
    (∃ fault s, readValue 1000 "(1 2" {} = .error fault s ∧
      (fault = .tooDeep ∨ (∃ e, fault = .error e ∧ e.category = .grammar) ∨
        ∃ token ∈ (lex "(1 2").tokens, ¬token.IsShort ∧
          fault = .literalTooLong (splitSign token.text.toList).2.length)) ∧
      ∃ outcome session',
        Session.execute "99999999999999999999" session = .ok outcome session' := by
  intro session
  obtain ⟨refusals, lines, -⟩ := unanswered_iff_overlong true 1000 []
  refine ⟨?_, ?_⟩
  · have read : Datum.read 1000 "(1 2" =
        .error (.error .unmatchedOpen, [.leaf (.integer 1), .leaf (.integer 2)]) := by
      decide +kernel
    obtain ⟨s, failed⟩ := @exists_abandon Ref (.error .unmatchedOpen)
      [.leaf (.integer 1), .leaf (.integer 2)] {}
    rw [← readValue_of_error read] at failed
    exact ⟨_, s, failed, refusals 1000 "(1 2" {} _ s failed⟩
  · refine (lines "99999999999999999999").2 ?_
    exact Datum.not_overlong_of_short (by decide +kernel) _

/-- A literal of 4301 digits is out of range, but it is not refused with an error of grammar: it
stops the line, and the lines that follow it are not answered. -/
theorem long_literal_unanswered :
    let source := String.ofList (List.replicate 4301 '1')
    let session := Session.start true 1000
    Datum.read 1000 source = .error (.literalTooLong 4301, []) ∧
      (∃ session', Session.execute source session = .error (.literalTooLong 4301) session') ∧
      (session.serve [source, "1"]).1 = "" ∧
      (session.serve [source, "1"]).2.1 = some (.literalTooLong 4301) := by
  intro source session
  have digits : ∀ c ∈ List.replicate 4301 '1', c.isDigit = true := by
    intro c member
    rw [List.eq_of_mem_replicate member]
    decide
  have length : (List.replicate 4301 '1').length = 4301 := List.length_replicate
  have long : digitLimit < (List.replicate 4301 '1').length := by
    rw [length]
    decide
  have refused := Datum.read_of_long digits long 1000
  obtain ⟨session', stopped, served⟩ := Session.serve_of_long digits long session ["1"]
  rw [length] at refused stopped served
  exact ⟨refused, ⟨session', stopped⟩, by rw [served], by rw [served]⟩

end LittleScheme
