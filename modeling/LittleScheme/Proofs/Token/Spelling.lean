import LittleScheme.Proofs.Text.OneLine
import LittleScheme.Token.Lexer
import Mathlib.Data.List.TakeWhile
import Mathlib.Tactic.Common

/-!
# How tokens are spelled

A token keeps the characters it was made of, and these, cut into tokens again, are that one token
(`Spelled`).  The same holds if more text follows, as long as the text does not begin with a
character that an atom could go on with (`Delimited`).
-/

namespace LittleScheme

open Text

/-- The text does not begin with a character that an atom can go on with. -/
def Delimited (rest : List Char) : Prop := ∀ c ∈ rest.head?, isAtomChar c = false

theorem delimited_nil : Delimited [] := by
  simp [Delimited]

theorem delimited_cons {c : Char} (h : isAtomChar c = false) (rest : List Char) :
    Delimited (c :: rest) := by
  simp [Delimited, h]

/-- The characters of the token are what a token of its kind is made of. -/
inductive Spelled : Token → Prop
  | mark {c : Char} {kind : Kind} (marks : mark? c = some kind) :
    Spelled ⟨kind, String.ofList [c]⟩
  | literal {cs : List Char} (plain : Plain cs) : Spelled ⟨.integer, String.ofList cs⟩
  | atom {c : Char} {more : List Char} {token : Token} (visible : isBlank c = false)
    (begins : Start.of c more = .atom) (goesOn : ∀ c ∈ more, isAtomChar c = true)
    (made : Token.ofAtom (c :: more) = .ok token) : Spelled token

/-! ## Characters -/

theorem isBlank_of_isDigit {c : Char} (h : c.isDigit = true) : isBlank c = false := by
  have bounds := isDigit_iff.1 h
  simp [isBlank]
  omega

theorem mark?_of_isDigit {c : Char} (h : c.isDigit = true) : mark? c = none := by
  simp only [mark?]
  split <;> simp_all [Char.isDigit]

theorem isAtomChar_of_isDigit {c : Char} (h : c.isDigit = true) : isAtomChar c = true := by
  simp [isAtomChar, isBlank_of_isDigit h, mark?_of_isDigit h]

theorem isBlank_of_mark? {c : Char} {kind : Kind} (h : mark? c = some kind) :
    isBlank c = false := by
  simp only [mark?] at h
  split at h
  · decide
  · decide
  · decide
  · decide
  · cases h

theorem isSign_iff {c : Char} : isSign c = true ↔ c = '+' ∨ c = '-' := by
  simp [isSign]

/-! ## One token -/

section Step

variable {cs rest : List Char} {c : Char}

/-- A text of blanks has no tokens. -/
theorem lexChars_of_blank (h : cs.dropWhile isBlank = []) : lexChars cs = ⟨[], none⟩ := by
  rw [lexChars]
  split <;> simp_all

theorem lexChars_nil : lexChars [] = ⟨[], none⟩ := lexChars_of_blank rfl

/-- The tokens end at an illegal atom. -/
theorem lexChars_of_error {e : Error} (h : cs.dropWhile isBlank = c :: rest)
    (illegal : (Start.of c rest).token (c :: rest.takeWhile (Start.of c rest).continues) =
      .error e) : lexChars cs = ⟨[], some e⟩ := by
  rw [lexChars]
  split <;> simp_all

/-- One token is cut off, and the tokens of the rest follow. -/
theorem lexChars_of_token {token : Token} (h : cs.dropWhile isBlank = c :: rest)
    (made : (Start.of c rest).token (c :: rest.takeWhile (Start.of c rest).continues) =
      .ok token) :
    lexChars cs = (lexChars (rest.dropWhile (Start.of c rest).continues)).cons token := by
  rw [lexChars]
  split <;> simp_all

theorem visible_of_dropWhile (h : cs.dropWhile isBlank = c :: rest) : isBlank c = false := by
  have := List.head?_dropWhile_not isBlank cs
  simpa [h] using this

/-- What holds of blank texts and of texts that begin with an illegal atom, and what holds of a text
that begins with a token if it holds of the rest, holds of every text. -/
theorem lexChars_induction {motive : List Char → Prop}
    (blank : ∀ {cs}, cs.dropWhile isBlank = [] → motive cs)
    (illegal : ∀ {cs rest c e}, cs.dropWhile isBlank = c :: rest →
      (Start.of c rest).token (c :: rest.takeWhile (Start.of c rest).continues) = .error e →
      motive cs)
    (token : ∀ {cs rest c token}, cs.dropWhile isBlank = c :: rest →
      (Start.of c rest).token (c :: rest.takeWhile (Start.of c rest).continues) = .ok token →
      motive (rest.dropWhile (Start.of c rest).continues) → motive cs)
    (cs : List Char) : motive cs := by
  induction length : cs.length using Nat.strongRecOn generalizing cs with
  | ind n ih =>
    cases found : cs.dropWhile isBlank with
    | nil => exact blank found
    | cons c rest =>
      cases made : (Start.of c rest).token (c :: rest.takeWhile (Start.of c rest).continues) with
      | error e => exact illegal found made
      | ok first => exact token found made (ih _ (length ▸ length_rest_lt _ _ found) _ rfl)

/-- Blanks in front do not matter. -/
theorem lexChars_eq_of_dropWhile {cs' : List Char}
    (same : cs.dropWhile isBlank = cs'.dropWhile isBlank) : lexChars cs = lexChars cs' := by
  cases found : cs'.dropWhile isBlank with
  | nil => rw [lexChars_of_blank found, lexChars_of_blank (same.trans found)]
  | cons c rest =>
    cases made : (Start.of c rest).token (c :: rest.takeWhile (Start.of c rest).continues) with
    | error e => rw [lexChars_of_error found made, lexChars_of_error (same.trans found) made]
    | ok token => rw [lexChars_of_token found made, lexChars_of_token (same.trans found) made]

theorem lexChars_cons_blank (blank : isBlank c = true) (rest : List Char) :
    lexChars (c :: rest) = lexChars rest :=
  lexChars_eq_of_dropWhile (by simp [blank])

/-- A token is cut off where it does not go on. -/
theorem lexChars_cons_append {more : List Char} {start : Start} {token : Token}
    (visible : isBlank c = false) (begins : Start.of c (more ++ rest) = start)
    (goesOn : ∀ c ∈ more, start.continues c = true)
    (ends : ∀ c ∈ rest.head?, start.continues c = false)
    (made : start.token (c :: more) = .ok token) :
    lexChars (c :: (more ++ rest)) = (lexChars rest).cons token := by
  have taken : (more ++ rest).takeWhile start.continues = more := by
    rw [List.takeWhile_append_of_pos goesOn]
    cases rest with
    | nil => simp
    | cons c rest => simp [ends c (by simp)]
  have left : (more ++ rest).dropWhile start.continues = rest := by
    rw [List.dropWhile_append_of_pos goesOn]
    cases rest with
    | nil => simp
    | cons c rest => simp [ends c (by simp)]
  have found : (c :: (more ++ rest)).dropWhile isBlank = c :: (more ++ rest) := by
    simp [visible]
  subst begins
  rw [← taken] at made
  rw [lexChars_of_token found (by simpa only [taken] using made), left]

/-- A mark is a token, whatever follows. -/
theorem lexChars_cons_mark {kind : Kind} (marks : mark? c = some kind) (rest : List Char) :
    lexChars (c :: rest) = (lexChars rest).cons ⟨kind, String.ofList [c]⟩ := by
  have begins : Start.of c ([] ++ rest) = .mark kind := by
    simp [Start.of, marks]
  exact lexChars_cons_append (isBlank_of_mark? marks) begins (by simp)
    (by simp [Start.continues]) rfl

end Step

/-! ## The tokens of a text are spelled -/

/-- A digit, or a sign in front of a digit, begins plain notation. -/
theorem plain_of_literal {c : Char} {rest : List Char} (begins : Start.of c rest = .literal) :
    Plain (c :: rest.takeWhile Char.isDigit) := by
  rw [Start.of] at begins
  split at begins
  · cases begins
  · split at begins
    · rename_i first
      have digits : ∀ d ∈ rest.takeWhile Char.isDigit, d.isDigit = true :=
        fun d member => List.mem_takeWhile_imp member
      by_cases digit : c.isDigit = true
      · have all : ∀ d ∈ c :: rest.takeWhile Char.isDigit, d.isDigit = true := by
          simpa [digit] using digits
        rw [Plain, splitSign_of_isDigit all]
        exact ⟨by simp, all⟩
      · obtain ⟨sign, next⟩ : isSign c = true ∧ rest.head?.any Char.isDigit = true := by
          simpa [digit] using first
        have nonempty : rest.takeWhile Char.isDigit ≠ [] := by
          cases rest with
          | nil => simp at next
          | cons d rest =>
            have : d.isDigit = true := by simpa using next
            simp [this]
        rcases isSign_iff.1 sign with rfl | rfl
        · exact ⟨nonempty, digits⟩
        · exact ⟨nonempty, digits⟩
    · cases begins

/-- Of what follows, only whether it begins with a digit matters to the beginning of a token. -/
theorem Start.of_congr {c : Char} {rest rest' : List Char}
    (h : rest.head?.any Char.isDigit = rest'.head?.any Char.isDigit) :
    Start.of c rest = Start.of c rest' := by
  simp [Start.of, h]

/-- What is cut off is spelled. -/
theorem spelled_of_token {c : Char} {rest : List Char} {token : Token} (visible : isBlank c = false)
    (made : (Start.of c rest).token (c :: rest.takeWhile (Start.of c rest).continues) =
      .ok token) : Spelled token := by
  cases begins : Start.of c rest with
  | mark kind =>
    have marks : mark? c = some kind := by
      rw [Start.of] at begins
      split at begins
      · cases begins
        assumption
      · split at begins <;> cases begins
    have alone : rest.takeWhile (Start.mark kind).continues = [] := by
      cases rest <;> simp [Start.continues]
    rw [begins, alone] at made
    cases made
    exact .mark marks
  | literal =>
    rw [begins] at made
    cases made
    exact .literal (plain_of_literal begins)
  | atom =>
    rw [begins] at made
    have same : (rest.takeWhile isAtomChar).head?.any Char.isDigit =
        rest.head?.any Char.isDigit := by
      cases rest with
      | nil => rfl
      | cons d rest =>
        by_cases goes : isAtomChar d = true
        · simp [goes]
        · have other : d.isDigit = false := by
            by_contra digit
            exact goes (isAtomChar_of_isDigit (by simpa using digit))
          simp [goes, other]
    exact .atom visible ((Start.of_congr same).trans begins)
      (fun d member => List.mem_takeWhile_imp member) made

/-- The tokens of a text are spelled. -/
theorem spelled_of_mem_lexChars {cs : List Char} {token : Token}
    (member : token ∈ (lexChars cs).tokens) : Spelled token := by
  induction cs using lexChars_induction with
  | blank found => simp [lexChars_of_blank found] at member
  | illegal found made => simp [lexChars_of_error found made] at member
  | token found made ih =>
    rw [lexChars_of_token found made] at member
    rcases List.mem_cons.1 member with rfl | later
    · exact spelled_of_token (visible_of_dropWhile found) made
    · exact ih later

/-! ## Blanks between texts -/

/-- What is read from one stream, and behind its end from another; behind an error there is
nothing. -/
def TokenStream.append (first second : TokenStream) : TokenStream :=
  match first.failure? with
  | some _ => first
  | none => { second with tokens := first.tokens ++ second.tokens }

theorem TokenStream.append_cons (token : Token) (first second : TokenStream) :
    (first.cons token).append second = (first.append second).cons token := by
  cases h : first.failure? <;> simp [append, cons, h]

theorem TokenStream.append_empty (stream : TokenStream) : stream.append ⟨[], none⟩ = stream := by
  obtain ⟨tokens, failure?⟩ := stream
  cases failure? <;> simp [append]

section Blanks

variable {d : Char}

/-- No token goes on with a blank. -/
theorem Start.continues_of_isBlank (blank : isBlank d = true) (start : Start) :
    start.continues d = false := by
  cases start with
  | mark kind => rfl
  | literal =>
    by_contra digit
    simp [isBlank_of_isDigit (by simpa [Start.continues] using digit)] at blank
  | atom => simp [Start.continues, isAtomChar, blank]

/-- A token ends at a blank, if not before. -/
theorem Start.span_append_blank (blank : isBlank d = true) (start : Start) (cs more : List Char) :
    (cs ++ d :: more).takeWhile start.continues = cs.takeWhile start.continues ∧
      (cs ++ d :: more).dropWhile start.continues =
        cs.dropWhile start.continues ++ d :: more := by
  induction cs with
  | nil => simp [Start.continues_of_isBlank blank start]
  | cons c cs ih =>
    by_cases goesOn : start.continues c = true
    · simpa [goesOn] using ih
    · simp [goesOn]

theorem Start.of_append_blank (blank : isBlank d = true) (c : Char) (cs more : List Char) :
    Start.of c (cs ++ d :: more) = Start.of c cs := by
  apply Start.of_congr
  cases cs with
  | cons _ _ => rfl
  | nil =>
    have other : d.isDigit = false := Start.continues_of_isBlank blank .literal
    simp [other]

/-- A blank separates the tokens of two texts. -/
theorem lexChars_append_blank (blank : isBlank d = true) (cs more : List Char) :
    lexChars (cs ++ d :: more) = (lexChars cs).append (lexChars more) := by
  induction cs using lexChars_induction with
  | @blank cs found =>
    have skipped : (cs ++ d :: more).dropWhile isBlank = more.dropWhile isBlank := by
      simp [List.dropWhile_append, found, blank]
    rw [lexChars_of_blank found, lexChars_eq_of_dropWhile skipped]
    simp [TokenStream.append]
  | @illegal cs rest c e found made =>
    have found' : (cs ++ d :: more).dropWhile isBlank = c :: (rest ++ d :: more) := by
      simp [List.dropWhile_append, found]
    rw [lexChars_of_error found made]
    rw [← (Start.span_append_blank blank _ rest more).1,
      ← Start.of_append_blank blank c rest more] at made
    rw [lexChars_of_error found' made]
    simp [TokenStream.append]
  | @token cs rest c token found made ih =>
    have found' : (cs ++ d :: more).dropWhile isBlank = c :: (rest ++ d :: more) := by
      simp [List.dropWhile_append, found]
    have begins := Start.of_append_blank blank c rest more
    obtain ⟨taken, left⟩ := Start.span_append_blank blank (Start.of c rest) rest more
    rw [lexChars_of_token found made, TokenStream.append_cons, ← ih, ← left]
    rw [← taken, ← begins] at made
    rw [lexChars_of_token found' made, begins]

/-- Blanks at the end of a text do not matter. -/
theorem lexChars_append_blanks {blanks : List Char} (blank : ∀ c ∈ blanks, isBlank c = true)
    (cs : List Char) : lexChars (cs ++ blanks) = lexChars cs := by
  cases blanks with
  | nil => rw [List.append_nil]
  | cons d blanks =>
    obtain ⟨first, others⟩ := List.forall_mem_cons.1 blank
    rw [lexChars_append_blank first, lexChars_of_blank (List.dropWhile_eq_nil_iff.2 others),
      TokenStream.append_empty]

end Blanks

/-! ## Spelled tokens are cut off -/

/-- An atom keeps its characters. -/
theorem text_of_ofAtom {cs : List Char} {token : Token} (made : Token.ofAtom cs = .ok token) :
    token.text.toList = cs := by
  rw [Token.ofAtom] at made
  split at made
  · cases made
    simp
  · split at made
    · cases made
    · cases made
      simp

theorem isDigit_of_isAtomChar {c : Char} (h : isAtomChar c = false) : c.isDigit = false := by
  by_contra digit
  simp [isAtomChar_of_isDigit (by simpa using digit)] at h

/-- Plain notation begins with a digit, or with a sign and a digit. -/
theorem plain_cases {cs : List Char} (plain : Plain cs) :
    ∃ c more, cs = c :: more ∧ isBlank c = false ∧ mark? c = none ∧
      (∀ d ∈ more, d.isDigit = true) ∧
      (c.isDigit = true ∨ isSign c = true ∧ more ≠ []) := by
  obtain ⟨nonempty, digits⟩ := plain
  cases cs with
  | nil => simp [splitSign] at nonempty
  | cons c more =>
    refine ⟨c, more, rfl, ?_⟩
    by_cases sign : c = '-' ∨ c = '+'
    · rcases sign with rfl | rfl
      · exact ⟨by decide, by decide, digits, .inr ⟨by decide, nonempty⟩⟩
      · exact ⟨by decide, by decide, digits, .inr ⟨by decide, nonempty⟩⟩
    · have unsigned : splitSign (c :: more) = (false, c :: more) := by
        simp_all [splitSign]
      rw [unsigned] at digits
      have digit := digits c (by simp)
      exact ⟨isBlank_of_isDigit digit, mark?_of_isDigit digit,
        fun d member => digits d (by simp [member]), .inl digit⟩

/-- Plain notation is a literal, if no digit follows. -/
theorem lexChars_plain_append {cs rest : List Char} (plain : Plain cs)
    (ends : ∀ c ∈ rest.head?, c.isDigit = false) :
    lexChars (cs ++ rest) = (lexChars rest).cons ⟨.integer, String.ofList cs⟩ := by
  obtain ⟨c, more, rfl, visible, unmarked, digits, first⟩ := plain_cases plain
  have begins : Start.of c (more ++ rest) = .literal := by
    rcases first with digit | ⟨sign, nonempty⟩
    · simp [Start.of, unmarked, digit]
    · cases more with
      | nil => exact absurd rfl nonempty
      | cons d more => simp [Start.of, unmarked, sign, digits d (by simp)]
  exact lexChars_cons_append visible begins digits ends rfl

/-- A spelled token is cut off in front of any delimited text. -/
theorem Spelled.lexChars_append {token : Token} (spelled : Spelled token) {rest : List Char}
    (delimited : Delimited rest) :
    lexChars (token.text.toList ++ rest) = (lexChars rest).cons token := by
  cases spelled with
  | mark marks => simpa using lexChars_cons_mark marks rest
  | literal plain =>
    simpa using lexChars_plain_append plain fun c first => isDigit_of_isAtomChar (delimited c first)
  | @atom c more token visible begins goesOn made =>
    have same : (more ++ rest).head?.any Char.isDigit = more.head?.any Char.isDigit := by
      cases more with
      | cons d more => rfl
      | nil =>
        cases rest with
        | nil => rfl
        | cons d rest => simp [isDigit_of_isAtomChar (delimited d (by simp))]
    rw [text_of_ofAtom made]
    exact lexChars_cons_append visible ((Start.of_congr same).trans begins) goesOn delimited made

/-- A token is spelled exactly if it is the one token of its own characters. -/
theorem spelled_iff {token : Token} : Spelled token ↔ lex token.text = ⟨[token], none⟩ := by
  constructor
  · intro spelled
    have alone := spelled.lexChars_append delimited_nil
    rw [List.append_nil, lexChars_nil] at alone
    exact alone
  · intro alone
    have member : token ∈ (lexChars token.text.toList).tokens := by
      rw [← lex, alone]
      simp
    exact spelled_of_mem_lexChars member

/-! ## Tokens of a kind -/

/-- Integer tokens are in plain notation. -/
theorem Spelled.plain_of_integer {token : Token} (spelled : Spelled token)
    (kind : token.kind = .integer) : Plain token.text.toList := by
  cases spelled with
  | @mark c _ marks =>
    simp only [mark?] at marks
    split at marks <;> simp_all
  | literal plain => simpa using plain
  | atom _ _ _ made =>
    rw [Token.ofAtom] at made
    split at made
    · cases made
      cases kind
    · split at made
      · cases made
      · cases made
        cases kind

/-- No token has a blank in it. -/
theorem Spelled.isBlank {token : Token} (spelled : Spelled token) :
    ∀ c ∈ token.text.toList, isBlank c = false := by
  cases spelled with
  | mark marks => simpa using isBlank_of_mark? marks
  | @literal cs plain =>
    obtain ⟨c, more, rfl, visible, -, digits, -⟩ := plain_cases plain
    simpa [visible] using fun d member => isBlank_of_isDigit (digits d member)
  | @atom c more token visible _ goesOn made =>
    rw [text_of_ofAtom made]
    simp only [isAtomChar, Bool.and_eq_true, Bool.not_eq_true'] at goesOn
    simpa [visible] using fun d member => (goesOn d member).1

/-- Tokens stand on one line. -/
theorem Spelled.oneLine {token : Token} (spelled : Spelled token) : OneLine token.text := by
  refine ⟨?_, unbroken_of_visible spelled.isBlank⟩
  intro empty
  have alone := spelled.lexChars_append delimited_nil
  simp [empty, lexChars_nil, TokenStream.cons] at alone

theorem Spelled.kind_ne_other {token : Token} (spelled : Spelled token) (name : String) :
    token.kind ≠ .other name := by
  cases spelled with
  | mark marks =>
    simp only [mark?] at marks
    split at marks <;> cases marks <;> simp
  | literal => simp
  | atom _ _ _ made =>
    rw [Token.ofAtom] at made
    split at made
    · cases made
      simp
    · split at made <;> cases made
      simp

/-- The kinds of tokens have names of one line. -/
theorem Spelled.oneLine_kind {token : Token} (spelled : Spelled token) :
    OneLine token.kind.name := by
  cases kind : token.kind with
  | other name => exact absurd kind (spelled.kind_ne_other name)
  | lparen | rparen | quote | dot | integer | boolean | symbol => decide +kernel

theorem spelled_boolean (value : Bool) :
    Spelled ⟨.boolean, String.ofList (booleanChars value)⟩ := by
  cases value with
  | true =>
    have goesOn : ['t'].all isAtomChar = true := by decide
    exact @Spelled.atom '#' ['t'] _ (by decide) (by decide) (List.all_eq_true.1 goesOn) rfl
  | false =>
    have goesOn : ['f'].all isAtomChar = true := by decide
    exact @Spelled.atom '#' ['f'] _ (by decide) (by decide) (List.all_eq_true.1 goesOn) rfl

theorem spelled_quote : Spelled ⟨.symbol, "quote"⟩ := by
  have legal : ['q', 'u', 'o', 't', 'e'].any isIllegal = false := by decide +kernel
  have made : Token.ofAtom ['q', 'u', 'o', 't', 'e'] = .ok ⟨.symbol, "quote"⟩ := by
    simp [Token.ofAtom, booleanChars, -List.any_cons, legal]
  have goesOn : ['u', 'o', 't', 'e'].all isAtomChar = true := by decide
  exact .atom (by decide) (by decide) (List.all_eq_true.1 goesOn) made

end LittleScheme
