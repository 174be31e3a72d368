import LittleScheme.Proofs.Token.Spelling

/-!
# Cutting a text into tokens

The first character of a token decides what the token is.  The same tokens are found by an ordered
pattern that knows nothing of first characters: `CutByPattern` skips the blanks, tries its
alternatives one after the other, and takes what the first one that fits takes.  Behind the blanks
some alternative fits always, so cutting can stop at nothing but an illegal atom.

Cutting loses no character but blanks, and it does not matter how many blanks there are between two
tokens or two texts, as long as there is one.
-/

namespace LittleScheme

open Text

/-! ## The pattern -/

namespace Start

/-- The alternatives of the pattern, in the order in which they are tried. -/
def alternatives : List Start :=
  [.mark .lparen, .mark .rparen, .mark .quote, .mark .dot, .literal, .atom]

/-- The sign at the front of a text, if there is one, and what is behind it. -/
def optionalSign : List Char → List Char × List Char
  | [] => ([], [])
  | c :: rest => if isSign c then ([c], rest) else ([], c :: rest)

/-- What an alternative takes from the front of a text, if it fits there: a mark, digits with an
optional sign, or as many atom characters as there are. -/
def take? : Start → List Char → Option (List Char)
  | .mark _, [] => none
  | .mark kind, c :: _ => if mark? c = some kind then some [c] else none
  | .literal, cs =>
    let (sign, rest) := optionalSign cs
    let digits := rest.takeWhile Char.isDigit
    if digits = [] then none else some (sign ++ digits)
  | .atom, cs =>
    let taken := cs.takeWhile isAtomChar
    if taken = [] then none else some taken

end Start

/-- The first alternative that fits, and what it takes. -/
def firstFit (cs : List Char) : Option (Start × List Char) :=
  Start.alternatives.findSome? fun start => (start.take? cs).map (start, ·)

/-- A text is cut as the pattern says: nothing but blanks is left of it, or the first alternative
that fits behind the blanks takes an illegal atom or a token.  There is no other way; in particular,
what is left never begins with a character that no alternative fits. -/
inductive CutByPattern (cs : List Char) : Prop
  | blank (left : ∀ c ∈ cs, isBlank c = true) (cut : lexChars cs = ⟨[], none⟩)
  | illegal {taken rest : List Char} {e : Error} (left : cs.dropWhile isBlank = taken ++ rest)
    (fits : firstFit (taken ++ rest) = some (.atom, taken))
    (refused : Token.ofAtom taken = .error e) (cut : lexChars cs = ⟨[], some e⟩)
  | token {start : Start} {taken rest : List Char} {token : Token}
    (left : cs.dropWhile isBlank = taken ++ rest)
    (fits : firstFit (taken ++ rest) = some (start, taken)) (made : start.token taken = .ok token)
    (cut : lexChars cs = (lexChars rest).cons token)

theorem Start.take?_mark_of_none {c : Char} (unmarked : mark? c = none) (rest : List Char)
    (kind : Kind) : (Start.mark kind).take? (c :: rest) = none := by
  simp [take?, unmarked]

/-- A digit, or a sign in front of a digit, begins a literal, and nothing else does. -/
theorem Start.take?_literal (c : Char) (rest : List Char) :
    Start.literal.take? (c :: rest) =
      if c.isDigit || (isSign c && rest.head?.any Char.isDigit) then
        some (c :: rest.takeWhile Char.isDigit) else none := by
  have begins : rest.takeWhile Char.isDigit = [] ↔ rest.head?.any Char.isDigit = false := by
    cases rest with
    | nil => simp
    | cons d rest => cases h : d.isDigit <;> simp [h]
  by_cases sign : isSign c = true
  · have other : c.isDigit = false := by
      rcases isSign_iff.1 sign with rfl | rfl <;> decide
    cases next : rest.head?.any Char.isDigit <;>
      simp [take?, optionalSign, sign, other, begins, next]
  · cases digit : c.isDigit <;> simp [take?, optionalSign, sign, digit]

/-- Behind the blanks some alternative fits, and it is the one that the first character decides. -/
theorem firstFit_cons {c : Char} (visible : isBlank c = false) (rest : List Char) :
    firstFit (c :: rest) =
      some (Start.of c rest, c :: rest.takeWhile (Start.of c rest).continues) := by
  cases marks : mark? c with
  | some kind =>
    have begins : Start.of c rest = .mark kind := by simp [Start.of, marks]
    have alone : rest.takeWhile (Start.mark kind).continues = [] := by
      cases rest <;> simp [Start.continues]
    have listed : kind = .lparen ∨ kind = .rparen ∨ kind = .quote ∨ kind = .dot := by
      simp only [mark?] at marks
      split at marks <;> simp_all
    rw [begins, alone]
    rcases listed with rfl | rfl | rfl | rfl <;>
      simp [firstFit, Start.alternatives, Start.take?, marks]
  | none =>
    by_cases literal : (c.isDigit || (isSign c && rest.head?.any Char.isDigit)) = true
    · have begins : Start.of c rest = .literal := by simp only [Start.of, marks, literal, if_true]
      simp only [firstFit, Start.alternatives, List.findSome?_cons, Option.map_none,
        Start.take?_mark_of_none marks, Start.take?_literal, literal, if_true, Option.map_some,
        begins]
      rfl
    · have begins : Start.of c rest = .atom := by simp only [Start.of, marks, literal]; rfl
      have atom : isAtomChar c = true := by simp [isAtomChar, visible, marks]
      simp only [firstFit, Start.alternatives, List.findSome?_cons, Option.map_none,
        Start.take?_mark_of_none marks, Start.take?_literal, literal, begins]
      simp [Start.take?, atom]
      rfl

/-- Every text is cut as the pattern says. -/
theorem cutByPattern (cs : List Char) : CutByPattern cs := by
  cases found : cs.dropWhile isBlank with
  | nil => exact .blank (List.dropWhile_eq_nil_iff.1 found) (lexChars_of_blank found)
  | cons c rest =>
    have fits := firstFit_cons (visible_of_dropWhile found) rest
    have whole : c :: rest = (c :: rest.takeWhile (Start.of c rest).continues) ++
        rest.dropWhile (Start.of c rest).continues := by simp
    cases made : (Start.of c rest).token (c :: rest.takeWhile (Start.of c rest).continues) with
    | ok token =>
      exact .token (found.trans whole) (whole ▸ fits) made (lexChars_of_token found made)
    | error e =>
      cases begins : Start.of c rest with
      | mark | literal => simp [begins, Start.token] at made
      | atom =>
        have cut := lexChars_of_error found made
        rw [begins] at fits whole made
        exact .illegal (found.trans whole) (whole ▸ fits) made cut

/-! ## Where cutting stops -/

/-- Atom characters that are no boolean, and one of them that no symbol has. -/
structure IllegalAtom (cs : List Char) : Prop where
  nonempty : cs ≠ []
  run : ∀ c ∈ cs, isAtomChar c = true
  other : ∀ value, cs ≠ booleanChars value
  illegal : ∃ c ∈ cs, isIllegal c = true

theorem ofAtom_eq_error {cs : List Char} {e : Error} (refused : Token.ofAtom cs = .error e) :
    (∀ value, cs ≠ booleanChars value) ∧ (∃ c ∈ cs, isIllegal c = true) ∧
      e = .illegalCharacter (String.ofList cs) := by
  rw [Token.ofAtom] at refused
  split at refused
  · cases refused
  · rename_i other
    split at refused
    · rename_i illegal
      cases refused
      refine ⟨?_, List.any_eq_true.1 illegal, rfl⟩
      rintro (_ | _) rfl <;> simp at other
    · cases refused

/-- What a token is, is a matter of its own characters. -/
theorem Start.of_takeWhile (c : Char) (rest : List Char) :
    Start.of c (rest.takeWhile (Start.of c rest).continues) = Start.of c rest := by
  cases rest with
  | nil => rfl
  | cons d rest =>
    by_cases goesOn : (Start.of c (d :: rest)).continues d = true
    · exact Start.of_congr (by simp [goesOn])
    · -- a digit behind a sign would go on, so what does not go on is no matter
      simp only [goesOn, List.takeWhile_cons]
      cases digit : d.isDigit with
      | false => exact Start.of_congr (by simp [digit])
      | true =>
        cases begins : Start.of c (d :: rest) with
        | literal => simp [begins, Start.continues, digit] at goesOn
        | atom => simp [begins, Start.continues, isAtomChar_of_isDigit digit] at goesOn
        | mark kind =>
          cases marks : mark? c with
          | some kind' => simpa [Start.of, marks] using begins
          | none =>
            rw [Start.of, marks] at begins
            simp only at begins
            split at begins <;> cases begins

/-- A token is cut off in front of whatever the text behind it begins with. -/
theorem lexChars_cons_of_isPrefix {c : Char} {rest front : List Char} {token : Token}
    (visible : isBlank c = false)
    (made : (Start.of c rest).token (c :: rest.takeWhile (Start.of c rest).continues) = .ok token)
    (begins : front <+: rest.dropWhile (Start.of c rest).continues) :
    lexChars (c :: (rest.takeWhile (Start.of c rest).continues ++ front)) =
      (lexChars front).cons token := by
  have ends : ∀ d ∈ front.head?, (Start.of c rest).continues d = false := by
    intro d first
    obtain ⟨back, whole⟩ := begins
    have := List.head?_dropWhile_not (Start.of c rest).continues rest
    rw [← whole, List.head?_append, Option.mem_def.1 first] at this
    simpa using this
  refine lexChars_cons_append visible ?_ (fun d member => List.mem_takeWhile_imp member) ends made
  cases front with
  | nil => rw [List.append_nil, Start.of_takeWhile]
  | cons d front =>
    obtain ⟨back, whole⟩ := begins
    refine Start.of_congr ?_
    conv_rhs =>
      rw [← List.takeWhile_append_dropWhile (p := (Start.of c rest).continues) (l := rest)]
    rw [← whole]
    cases rest.takeWhile (Start.of c rest).continues <;> simp

/-- Cutting stops in front of an illegal atom, up to which the text is cut into tokens. -/
theorem exists_illegalAtom {cs : List Char} {e : Error} (failed : (lexChars cs).failure? = some e) :
    ∃ before atom after, cs = before ++ (atom ++ after) ∧ IllegalAtom atom ∧ Delimited after ∧
      lexChars before = ⟨(lexChars cs).tokens, none⟩ ∧
        e = .illegalCharacter (String.ofList atom) := by
  induction cs using lexChars_induction with
  | blank found => simp [lexChars_of_blank found] at failed
  | @illegal cs rest c e' found made =>
    obtain rfl : e' = e := by simpa [lexChars_of_error found made] using failed
    rw [lexChars_of_error found made]
    cases begins : Start.of c rest with
    | mark | literal => simp [begins, Start.token] at made
    | atom =>
      rw [begins] at made
      change Token.ofAtom (c :: rest.takeWhile isAtomChar) = _ at made
      obtain ⟨other, illegal, rfl⟩ := ofAtom_eq_error made
      have first : isAtomChar c = true := by
        have visible := visible_of_dropWhile found
        cases marks : mark? c with
        | some kind => simp [Start.of, marks] at begins
        | none => simp [isAtomChar, visible, marks]
      refine ⟨cs.takeWhile isBlank, _, rest.dropWhile isAtomChar, ?_,
        ⟨by simp, ?_, other, illegal⟩, ?_, ?_, rfl⟩
      · conv_lhs => rw [← List.takeWhile_append_dropWhile (p := isBlank) (l := cs), found]
        simp
      · exact List.forall_mem_cons.2 ⟨first, fun d member => List.mem_takeWhile_imp member⟩
      · intro d member
        have := List.head?_dropWhile_not isAtomChar rest
        rw [Option.mem_def.1 member] at this
        simpa using this
      · refine lexChars_of_blank (List.dropWhile_eq_nil_iff.2 fun d member => ?_)
        exact List.mem_takeWhile_imp member
  | @token cs rest c token found made ih =>
    rw [lexChars_of_token found made] at failed ⊢
    obtain ⟨before, atom, after, split, illegal, delimited, cut, same⟩ := ih failed
    have visible := visible_of_dropWhile found
    refine ⟨cs.takeWhile isBlank ++
      c :: (rest.takeWhile (Start.of c rest).continues ++ before), atom, after, ?_, illegal,
      delimited, ?_, same⟩
    · conv_lhs => rw [← List.takeWhile_append_dropWhile (p := isBlank) (l := cs), found,
        ← List.takeWhile_append_dropWhile (p := (Start.of c rest).continues) (l := rest), split]
      simp
    · have skipped : (cs.takeWhile isBlank ++
          c :: (rest.takeWhile (Start.of c rest).continues ++ before)).dropWhile isBlank =
          (c :: (rest.takeWhile (Start.of c rest).continues ++ before)).dropWhile isBlank := by
        exact List.dropWhile_append_of_pos fun d member => List.mem_takeWhile_imp member
      rw [lexChars_eq_of_dropWhile skipped,
        lexChars_cons_of_isPrefix visible made (split ▸ List.prefix_append _ _), cut]
      rfl

/-! ## The characters of the tokens -/

theorem text_of_token {start : Start} {cs : List Char} {token : Token}
    (made : start.token cs = .ok token) : token.text.toList = cs := by
  cases start with
  | mark | literal =>
    cases made
    simp
  | atom => exact text_of_ofAtom made

/-- The tokens have all characters of the text but the blanks. -/
theorem flatMap_text_lexChars {cs : List Char} (whole : (lexChars cs).failure? = none) :
    (lexChars cs).tokens.flatMap (·.text.toList) = cs.filter fun c => !isBlank c := by
  induction cs using lexChars_induction with
  | blank found =>
    rw [lexChars_of_blank found, eq_comm, List.flatMap_nil, List.filter_eq_nil_iff]
    intro d member
    simpa using List.dropWhile_eq_nil_iff.1 found d member
  | illegal found made => simp [lexChars_of_error found made] at whole
  | @token cs rest c token found made ih =>
    rw [lexChars_of_token found made] at whole ⊢
    have text := text_of_token made
    have visible := (spelled_of_token (visible_of_dropWhile found) made).isBlank
    rw [text] at visible
    have skipped : (cs.takeWhile isBlank).filter (fun c => !isBlank c) = [] := by
      rw [List.filter_eq_nil_iff]
      intro d member
      simpa using List.mem_takeWhile_imp member
    have kept : (c :: rest.takeWhile (Start.of c rest).continues).filter (fun c => !isBlank c) =
        c :: rest.takeWhile (Start.of c rest).continues := by
      rw [List.filter_eq_self]
      intro d member
      simpa using visible d member
    calc (token :: (lexChars (rest.dropWhile (Start.of c rest).continues)).tokens).flatMap
          (·.text.toList)
        = (c :: rest.takeWhile (Start.of c rest).continues) ++
            (rest.dropWhile (Start.of c rest).continues).filter fun c => !isBlank c := by
          rw [List.flatMap_cons, text, ih whole]
      _ = (cs.takeWhile isBlank ++ ((c :: rest.takeWhile (Start.of c rest).continues) ++
            rest.dropWhile (Start.of c rest).continues)).filter fun c => !isBlank c := by
          rw [List.filter_append, List.filter_append, skipped, kept, List.nil_append]
      _ = cs.filter fun c => !isBlank c := by
          rw [List.cons_append, List.takeWhile_append_dropWhile, ← found,
            List.takeWhile_append_dropWhile]

/-- The texts of spelled tokens, separated by spaces, are cut into these tokens. -/
theorem lex_intercalate {tokens : List Token} (spelled : ∀ token ∈ tokens, Spelled token) :
    lex (" ".intercalate (tokens.map (·.text))) = ⟨tokens, none⟩ := by
  induction tokens with
  | nil => exact lexChars_nil
  | cons token tokens ih =>
    obtain ⟨first, others⟩ := List.forall_mem_cons.1 spelled
    have alone := spelled_iff.1 first
    cases tokens with
    | nil => simpa using alone
    | cons next tokens =>
      have split : (" ".intercalate ((token :: next :: tokens).map (·.text))).toList =
          token.text.toList ++
            ' ' :: (" ".intercalate ((next :: tokens).map (·.text))).toList := by
        simp
      have ih := ih others
      rw [lex] at alone ih ⊢
      rw [split, lexChars_append_blank rfl, alone, ih]
      simp [TokenStream.append]

/-! ## Laws -/

/-- **The laws of cutting.**  `lex` cuts every text as the pattern says, and where it stops there is
an illegal atom, up to which the text is cut into tokens.  If a text is cut to its end, the tokens
have its characters less the blanks.  Their texts with spaces between them are cut into the same
tokens.  The text, blanks and another text are cut into the tokens of the first and whatever the
other is cut into. -/
theorem lex_laws (source : String) :
    (∀ cs, CutByPattern cs) ∧
    (∀ e, (lex source).failure? = some e → ∃ before atom after : String,
      source = before ++ atom ++ after ∧ IllegalAtom atom.toList ∧ Delimited after.toList ∧
        lex before = ⟨(lex source).tokens, none⟩ ∧ e = .illegalCharacter atom ∧
          e.message = "Illegal character " ++ atom) ∧
    ((lex source).failure? = none →
      String.join ((lex source).tokens.map (·.text)) =
        String.ofList (source.toList.filter fun c => !isBlank c) ∧
      lex (" ".intercalate ((lex source).tokens.map (·.text))) = lex source ∧
      ∀ blanks rest : String, blanks ≠ "" → (∀ c ∈ blanks.toList, isBlank c = true) →
        lex (source ++ blanks ++ rest) =
          ⟨(lex source).tokens ++ (lex rest).tokens, (lex rest).failure?⟩) := by
  refine ⟨cutByPattern, ?_, fun whole => ⟨?_, ?_, ?_⟩⟩
  · intro e failed
    obtain ⟨before, atom, after, split, illegal, delimited, cut, rfl⟩ := exists_illegalAtom failed
    refine ⟨String.ofList before, String.ofList atom, String.ofList after, ?_,
      by simpa using illegal, by simpa using delimited, by simpa [lex] using cut, rfl, rfl⟩
    rw [String.ext_iff, split]
    simp
  · rw [String.ext_iff, String.toList_ofList, ← flatMap_text_lexChars whole]
    simp [lex, List.flatMap_def, Function.comp_def]
  · have spelled : ∀ token ∈ (lex source).tokens, Spelled token :=
      fun token => spelled_of_mem_lexChars
    rw [lex_intercalate spelled, ← whole]
  · intro blanks rest nonempty blank
    cases chars : blanks.toList with
    | nil => exact absurd (by rw [String.ext_iff, chars]; rfl) nonempty
    | cons d more =>
      rw [chars] at blank
      obtain ⟨first, others⟩ := List.forall_mem_cons.1 blank
      have skipped : (more ++ rest.toList).dropWhile isBlank = rest.toList.dropWhile isBlank :=
        List.dropWhile_append_of_pos others
      have split : (source ++ blanks ++ rest).toList =
          source.toList ++ d :: (more ++ rest.toList) := by
        simp [chars]
      rw [lex] at whole
      rw [lex, lex, lex, split, lexChars_append_blank first, lexChars_eq_of_dropWhile skipped,
        TokenStream.append, whole]

-- A literal ends with its digits, an atom takes up signs and digits, and a dot stands by itself.
example : (lex "12a+5 -.5#t").tokens.map (·.text) = ["12", "a+5", "-", ".", "5", "#t"] := by
  decide +kernel

end LittleScheme
