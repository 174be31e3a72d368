import LittleScheme.Proofs.Session.Legibility
import LittleScheme.Proofs.Session.Typing

/-!
# One line in, one line out

What a line comes to is written on one line.  A printed value is made of brackets, dots, spaces and
marks, and the marks of a legible store hold no blanks.  An error quotes a token, a name or the
empty list, if anything, and names of a legible store hold no blanks either.

So the lines that `Session.serve` writes can be told apart again, and there is one for each input
line that is not blank.  Only a literal with too many digits cuts the output short.
-/

namespace LittleScheme

open Text

/-! ## Printed values -/

/-- There is nothing in the text of the picture that could break a line. -/
structure Picture.Unfolded (picture : Picture) : Prop where
  nonempty : picture.chars Mark.chars ≠ []
  chars : Unbroken (picture.chars Mark.chars)
  rest : Unbroken (picture.restChars Mark.chars)

namespace Picture

theorem unfolded_nil : Unfolded .nil := ⟨by decide, by decide, by decide⟩

theorem unfolded_leaf {mark : Mark} {text : String} (oneLine : OneLine text)
    (same : mark.chars = text.toList) : Unfolded (.leaf mark) := by
  have unbroken : Unbroken mark.chars := same ▸ oneLine.2
  refine ⟨?_, unbroken, ?_⟩
  · intro empty
    rw [Tree.chars, same, String.toList_eq_nil_iff] at empty
    exact oneLine.1 empty
  · simp only [Tree.restChars, unbroken_cons, unbroken_append]
    exact ⟨by decide, by decide, by decide, unbroken, by decide⟩

theorem Unfolded.pair {first second : Picture} (left : first.Unfolded) (right : second.Unfolded) :
    Unfolded (.pair first second) := by
  have items : Unbroken (first.chars Mark.chars ++ second.restChars Mark.chars) :=
    unbroken_append.2 ⟨left.chars, right.rest⟩
  refine ⟨by simp [Tree.chars], ?_, ?_⟩
  · rw [Tree.chars, unbroken_cons]
    exact ⟨by decide, items⟩
  · rw [Tree.restChars, unbroken_cons]
    exact ⟨fun _ => rfl, items⟩

end Picture

theorem Op.oneLine_tag (op : Op) : OneLine op.tag := by
  cases op with
  | form f => cases f <;> decide +kernel
  | primitive p => cases p <;> decide +kernel

namespace Store.Legible

variable {s : Store} {r : Ref}

theorem oneLine_mark (legible : s.Legible) {node : Node} {mark : Mark}
    (found : s.node? r = some node) (drawn : node.mark? = some mark) :
    ∃ text, OneLine text ∧ mark.chars = text.toList := by
  have readable := legible r node found
  cases node with
  | integer value =>
    cases drawn
    exact ⟨_, oneLine_decimalText value, String.toList_ofList.symm⟩
  | boolean value =>
    cases drawn
    exact ⟨String.ofList (booleanChars value), by cases value <;> decide +kernel,
      String.toList_ofList.symm⟩
  | symbol name =>
    cases drawn
    exact ⟨name, Atom.Readable.oneLine readable, rfl⟩
  | builtin op =>
    cases drawn
    exact ⟨op.tag, op.oneLine_tag, rfl⟩
  | closure =>
    cases drawn
    exact ⟨Op.closureTag, by decide +kernel, rfl⟩
  | pair | environment => cases drawn

theorem unfolded (legible : s.Legible) {path : Std.TreeSet Loc} {picture : Picture}
    (pictures : s.Pictures path r picture) : picture.Unfolded := by
  induction pictures with
  | empty => exact Picture.unfolded_nil
  | mark found drawn =>
    obtain ⟨text, oneLine, same⟩ := legible.oneLine_mark found drawn
    exact Picture.unfolded_leaf oneLine same
  | back =>
    have oneLine : OneLine "\x7bselfref\x7d" := by decide +kernel
    exact Picture.unfolded_leaf oneLine rfl
  | pair _ _ _ _ left right => exact left.pair right

/-- Values of a legible store are printed on one line. -/
theorem oneLine_render (legible : s.Legible) {depth : Nat} {text : String}
    (printed : s.render depth r = .ok text) : OneLine text := by
  rcases s.render_cases depth r with
    ⟨picture, shown, pictures, -⟩ | ⟨env, frame, -, -, refused⟩ | exceeded
  · rw [shown] at printed
    cases printed
    have unfolded := legible.unfolded pictures
    exact oneLine_ofList unfolded.nonempty unfolded.chars
  · rw [refused] at printed
    cases printed
  · rw [exceeded] at printed
    cases printed

end Store.Legible

namespace Session

variable {session session' : Session} {line : String}

/-! ## One line -/

/-- Evaluation stops with an error, or because the depth is used up. -/
theorem reportable_of_evaluate {s s' : Store} (legible : s.Legible) {budget : Nat} {expr : Ref}
    {env : Loc} {fault : Fault} (ordinary : fault.isInternal = false)
    (failed : evaluateUntil .never budget expr env s = .error fault s') : Reportable [] fault := by
  have holds : (legibility []).Holds s (Hand.expect { scopes := [env] } [expr]) := legible
  have runs := (lawful_legibility []).evaluateUntil (legibility.itself .never) budget holds
    (List.mem_singleton_self _)
  exact (runs.error failed).2.2 ordinary

/-- A line fails with an error, and what the error quotes stands on one line, unless the line is
refused for a literal that is too long. -/
theorem error_of_run (holds : session.InCustody) (legible : session.store.Legible) {fault : Fault}
    (ended : run line session = .error fault session') :
    (∃ e, fault = .error e ∧ ∀ text ∈ e.quotes, OneLine text) ∨
      ∃ digits finished, fault = .literalTooLong digits ∧
        Datum.read session.limit line = .error (.literalTooLong digits, finished) := by
  have ends := ends_run session line
  have reported {tokens : List Token} (reportable : Reportable tokens fault)
      (expected : fault = .tooDeep ∨ ∃ e, fault = .error e) :
      ∃ e, fault = .error e ∧ ∀ text ∈ e.quotes, OneLine text := by
    rcases expected with deep | ⟨e, rfl⟩
    · exact absurd deep (ends.shallow ended)
    · exact ⟨e, rfl, reportable.quotes⟩
  rcases holds.expected_run ended with ordinary | rfl
  · rcases ends.cause ended with rfl | rfl | ⟨s, failed⟩ | ⟨r, s, evaluated, failed⟩
    · exact .inl ⟨_, rfl, by simp [Error.quotes]⟩
    · exact .inl ⟨_, rfl, by simp [Error.quotes]⟩
    · cases read : readValue session.limit line session.store with
      | error fault' s₁ =>
        rw [wholeLine, lineUntil, StoreM.bind_error read] at failed
        cases failed
        obtain ⟨finished, refused⟩ := refused_of_readValue read
        rcases grammar_of_read refused with deep | ⟨e, rfl, -⟩ | ⟨token, -, -, rfl⟩
        · exact absurd deep (ends.shallow ended)
        · exact .inl (reported (reportable_of_read refused) (.inr ⟨e, rfl⟩))
        · exact .inr ⟨_, finished, rfl, refused⟩
      | ok expr s₁ =>
        rw [wholeLine, lineUntil, StoreM.bind_ok read] at failed
        have legible₁ := ((legibility.readValue session.limit line legible).ok read).2
        have reportable := reportable_of_evaluate legible₁ ordinary failed
        exact .inl (reported reportable (reportable.expected (by simp)))
    · have runs := custody.lineUntil (custody.itself .never) session.limit line holds
      obtain ⟨z, guards⟩ := (runs.ok evaluated).2
      have deep := guards.fits.render (guards.has.values r (by simp)) failed
      exact absurd deep (ends.shallow ended)
  · refine .inl ⟨_, rfl, ?_⟩
    intro text member
    rw [List.mem_singleton.1 member]
    decide +kernel

/-- What a line comes to is written on one line, unless the line is refused for a literal that is
too long. -/
theorem oneLine_outcome (holds : session.InCustody) (legible : session.store.Legible)
    (accepted : ¬Datum.Overlong session.limit line) :
    ∃ outcome session', execute line session = .ok outcome session' ∧ OneLine outcome.text := by
  rw [execute]
  cases ended : run line session with
  | ok text session' =>
    refine ⟨.value text, session', rfl, ?_⟩
    obtain ⟨r, s, evaluated, printed⟩ := (ends_run session line).shown ended
    have runs := legibility.lineUntil .never session.limit session.globals line legible
    exact (runs.ok evaluated).2.oneLine_render printed
  | error fault session' =>
    rcases error_of_run holds legible ended with ⟨e, rfl, quotes⟩ | ⟨digits, finished, -, refused⟩
    · exact ⟨.failed e, _, rfl, e.oneLine_report quotes⟩
    · exact absurd ⟨digits, finished, refused⟩ accepted

/-- What a line comes to is written on one line. -/
theorem oneLine_execute (holds : session.InCustody) (legible : session.store.Legible)
    (short : ∀ token ∈ (lex line).tokens, token.IsShort) :
    ∃ outcome session', execute line session = .ok outcome session' ∧ OneLine outcome.text :=
  oneLine_outcome holds legible (Datum.not_overlong_of_short short _)

/-! ## Sequences of lines -/

/-- The lines, executed one after the other, have these outcomes. -/
inductive Answers : Session → List String → List Outcome → Session → Prop
  | nil {session : Session} : Answers session [] [] session
  | cons {session session₁ session' : Session} {line : String} {lines : List String}
      {outcome : Outcome} {outcomes : List Outcome}
      (first : execute line session = .ok outcome session₁)
      (later : Answers session₁ lines outcomes session') :
      Answers session (line :: lines) (outcome :: outcomes) session'

/-- Each line has an outcome. -/
theorem Answers.length_eq {lines : List String} {outcomes : List Outcome}
    (answers : Answers session lines outcomes session') : outcomes.length = lines.length := by
  induction answers with
  | nil => rfl
  | cons _ _ ih => simp [ih]

/-- At the end of a line, line feeds are cut off and nothing else. -/
theorem exists_lineFeeds (line : String) :
    ∃ feeds, line.toList = (withoutLineFeeds line).toList ++ feeds ∧
      ∀ c ∈ feeds, isBlank c = true := by
  refine ⟨(line.toList.reverse.takeWhile (· == '\n')).reverse, ?_, ?_⟩
  · rw [withoutLineFeeds, String.toList_ofList, ← List.reverse_append,
      List.takeWhile_append_dropWhile, List.reverse_reverse]
  · intro c member
    have feed := List.mem_takeWhile_imp (List.mem_reverse.1 member)
    obtain rfl : c = '\n' := by simpa using feed
    decide

theorem lex_withoutLineFeeds (line : String) : lex (withoutLineFeeds line) = lex line := by
  obtain ⟨feeds, parts, blank⟩ := exists_lineFeeds line
  rw [lex, lex, parts, lexChars_append_blanks blank]

theorem overlong_withoutLineFeeds (limit : Nat) (line : String) :
    Datum.Overlong limit (withoutLineFeeds line) ↔ Datum.Overlong limit line := by
  simp only [Datum.Overlong, Datum.read, lex_withoutLineFeeds]

/-- What a line leaves of what is known about a session. -/
theorem kept_execute {outcome : Outcome} (holds : session.InCustody)
    (legible : session.store.Legible) (ended : execute line session = .ok outcome session') :
    session'.InCustody ∧ session'.store.Legible ∧ session'.limit = session.limit := by
  have next : session.after (.execute line) = session' := by rw [after, ended, left]
  have alike := (ends_run session line).alike.trans (alike_execute session line)
  rw [ended] at alike
  refine ⟨?_, ?_, alike.limit.symm⟩
  · rw [← next]
    exact holds.after (.execute line)
  · rw [← next]
    exact legible_after legible (.execute line)

theorem allBlank_withoutLineFeeds (line : String) :
    allBlank (withoutLineFeeds line).toList = allBlank line.toList := by
  obtain ⟨feeds, parts, blank⟩ := exists_lineFeeds line
  have feeds : feeds.all isBlank = true := List.all_eq_true.2 blank
  rw [allBlank, allBlank, parts, List.all_append, feeds, Bool.and_true]

theorem answer_of_blank (blank : allBlank line.toList = true) (session : Session) :
    answer line session = .ok "" session := by
  rw [answer, allBlank_withoutLineFeeds, if_pos blank]
  rfl

theorem answer_of_execute {outcome : Outcome} (visible : allBlank line.toList = false)
    (ended : execute (withoutLineFeeds line) session = .ok outcome session') :
    answer line session = .ok (outcome.text ++ "\n") session' := by
  rw [answer, allBlank_withoutLineFeeds, if_neg (by simp [visible]), bind_of_ok ended]
  rfl

theorem answer_of_error {fault : Fault} (visible : allBlank line.toList = false)
    (ended : execute (withoutLineFeeds line) session = .error fault session') :
    answer line session = .error fault session' := by
  rw [answer, allBlank_withoutLineFeeds, if_neg (by simp [visible]), bind_of_error ended]

/-- The lines that are not blank, without the line feeds at their ends. -/
def visibleLines (lines : List String) : List String :=
  (lines.filter fun line => !allBlank line.toList).map withoutLineFeeds

/-- Lines are served one after the other, and the outcome of each is written on a line. -/
theorem serve_of_accepted {lines : List String} (holds : session.InCustody)
    (legible : session.store.Legible)
    (accepted : ∀ line ∈ lines, ¬Datum.Overlong session.limit line) :
    ∃ outcomes session', session.Answers (visibleLines lines) outcomes session' ∧
      session.serve lines = (String.join (outcomes.map (·.text ++ "\n")), none, session') ∧
      ∀ outcome ∈ outcomes, OneLine outcome.text := by
  induction lines generalizing session with
  | nil => exact ⟨[], session, .nil, rfl, by simp⟩
  | cons line lines ih =>
    obtain ⟨first, later⟩ := List.forall_mem_cons.1 accepted
    cases visible : allBlank line.toList with
    | true =>
      obtain ⟨outcomes, session', answers, served, oneLine⟩ := ih holds legible later
      refine ⟨outcomes, session', ?_, ?_, oneLine⟩
      · simpa [visibleLines, visible] using answers
      · rw [serve, answer_of_blank visible]
        simp [served]
    | false =>
      rw [← overlong_withoutLineFeeds] at first
      obtain ⟨outcome, session₁, ended, written⟩ := oneLine_outcome holds legible first
      obtain ⟨holds₁, legible₁, limit₁⟩ := kept_execute holds legible ended
      rw [← limit₁] at later
      obtain ⟨outcomes, session', answers, served, oneLine⟩ := ih holds₁ legible₁ later
      refine ⟨outcome :: outcomes, session', ?_, ?_, List.forall_mem_cons.2 ⟨written, oneLine⟩⟩
      · have answers := Answers.cons ended answers
        simpa [visibleLines, visible] using answers
      · rw [serve, answer_of_execute visible ended]
        simp [served, String.join_cons]

theorem serve_of_short {lines : List String} (holds : session.InCustody)
    (legible : session.store.Legible)
    (short : ∀ line ∈ lines, ∀ token ∈ (lex line).tokens, token.IsShort) :
    ∃ outcomes session', session.Answers (visibleLines lines) outcomes session' ∧
      session.serve lines = (String.join (outcomes.map (·.text ++ "\n")), none, session') ∧
      ∀ outcome ∈ outcomes, OneLine outcome.text :=
  serve_of_accepted holds legible fun line member =>
    Datum.not_overlong_of_short (short line member) _

end Session

/-- **One line in, one line out.**  In every session, a line without literals that are too long
comes to an outcome, and whether that is a value or an error, its text is not empty and has no
blanks but spaces.  So one line is written for each line of such an input that is not blank: the
outcomes of these lines, executed one after the other, are what the lines of the output say. -/
theorem one_line_each (collectOnError : Bool) (limit : Nat) (actions : List Session.Action) :
    let session := (Session.start collectOnError limit).afterAll actions
    (∀ line, (∀ token ∈ (lex line).tokens, token.IsShort) →
      ∃ outcome session',
        Session.execute line session = .ok outcome session' ∧ OneLine outcome.text) ∧
      ∀ input, (∀ line ∈ input, ∀ token ∈ (lex line).tokens, token.IsShort) →
        ∃ outcomes session', session.Answers (Session.visibleLines input) outcomes session' ∧
          session.serve input = (String.join (outcomes.map (·.text ++ "\n")), none, session') ∧
          outcomes.length = input.countP (fun line => !allBlank line.toList) ∧
          (∀ outcome ∈ outcomes, OneLine outcome.text) ∧
          lines (session.serve input).1 = outcomes.map Outcome.text := by
  intro session
  have holds : session.InCustody :=
    Session.InCustody.afterAll (custody.holds_start collectOnError limit) actions
  have legible : session.store.Legible :=
    Session.legible_afterAll (Session.legible_start collectOnError limit) actions
  refine ⟨fun line short => Session.oneLine_execute holds legible short, fun input short => ?_⟩
  obtain ⟨outcomes, session', answers, served, oneLine⟩ :=
    Session.serve_of_short holds legible short
  refine ⟨outcomes, session', answers, served, ?_, oneLine, ?_⟩
  · rw [answers.length_eq, Session.visibleLines, List.length_map, List.countP_eq_length_filter]
  · have texts : ∀ text ∈ outcomes.map Outcome.text, OneLine text := by simpa using oneLine
    rw [served, ← lines_join texts, List.map_map]
    rfl

/-- Four of five lines are not blank; two of them fail, and one of the errors quotes a control
character. -/
theorem one_line_each_transcript :
    let session := (Session.start true 1000).afterAll []
    let input := ["(define (f) '(a . b))\n", " \t\n", "(f #\x01)\n", "g\n", "(f)"]
    (∃ outcome session', Session.execute "(f)" session = .ok outcome session' ∧
      OneLine outcome.text) ∧
      ∃ outcomes session', session.Answers (Session.visibleLines input) outcomes session' ∧
        session.serve input = (String.join (outcomes.map (·.text ++ "\n")), none, session') ∧
        outcomes.length = 4 ∧ (∀ outcome ∈ outcomes, OneLine outcome.text) ∧
        lines (session.serve input).1 = outcomes.map Outcome.text := by
  intro session input
  have short : ∀ line ∈ input, ∀ token ∈ (lex line).tokens, token.IsShort := by decide +kernel
  obtain ⟨one, all⟩ := one_line_each true 1000 []
  exact ⟨one "(f)" (by decide +kernel), all input short⟩

end LittleScheme
