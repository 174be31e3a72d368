import LittleScheme.Proofs.Datum.Grammar
import LittleScheme.Proofs.Token.Spelling
import Mathlib.Tactic.Common

/-!
# Printed data

`Datum.tokens` are the tokens of list notation.  The text of a datum is cut into these
(`lexChars_chars_append`), and they denote the datum again (`Datum.Readable.derives`).  The first
half is a matter of the boundaries between tokens, the second of the grammar; both follow the two
mutually recursive functions that print the items of a list and what is behind its first item.

A datum is readable if its integers are in range and the name of each of its symbols is one symbol
token by itself.  Exactly these are the data that can be read.
-/

namespace LittleScheme

open Text

/-! ## Readable data -/

/-- Integers in range, booleans, and symbols whose name is cut into the symbol alone. -/
def Atom.Readable : Atom → Prop
  | .integer value => Integer64.InRange value
  | .boolean _ => True
  | .symbol name => lex name = ⟨[⟨.symbol, name⟩], none⟩

instance (a : Atom) : Decidable a.Readable :=
  match a with
  | .integer value => inferInstanceAs (Decidable (Integer64.InRange value))
  | .boolean _ => inferInstanceAs (Decidable True)
  | .symbol name => inferInstanceAs (Decidable (lex name = ⟨[⟨.symbol, name⟩], none⟩))

/-- The token that an atom is written as. -/
def Atom.token : Atom → Token
  | .integer value => ⟨.integer, String.ofList (decimal value)⟩
  | .boolean value => ⟨.boolean, String.ofList (booleanChars value)⟩
  | .symbol name => ⟨.symbol, name⟩

theorem Atom.toList_text_token (a : Atom) : a.token.text.toList = a.chars := by
  cases a <;> simp [Atom.token, Atom.chars]

/-- A readable atom is spelled. -/
theorem Atom.Readable.spelled {a : Atom} (readable : a.Readable) : Spelled a.token := by
  cases a with
  | integer value => exact .literal (plain_decimal value)
  | boolean value => exact spelled_boolean value
  | symbol name => exact spelled_iff.2 readable

/-- The token of a readable atom denotes it. -/
theorem Atom.Readable.derives {a : Atom} (readable : a.Readable) : Derives [a.token] (.leaf a) := by
  cases a with
  | integer value =>
    have denotes : numeral (Atom.integer value).token.text.toList = .ok value := by
      rw [Atom.toList_text_token]
      exact numeral_decimal readable
    exact .integer rfl denotes readable
  | boolean value => exact .boolean rfl (by simp [Atom.token])
  | symbol name => exact @Derives.symbol (Atom.symbol name).token rfl

namespace Datum

/-- Every atom of the datum is readable. -/
def Readable : Datum → Prop
  | .nil => True
  | .leaf a => a.Readable
  | .pair first second => Readable first ∧ Readable second

instance : DecidablePred Readable
  | .nil => inferInstanceAs (Decidable True)
  | .leaf a => inferInstanceAs (Decidable a.Readable)
  | .pair first second =>
    have : Decidable (Readable first) := instDecidablePredReadable first
    have : Decidable (Readable second) := instDecidablePredReadable second
    inferInstanceAs (Decidable (_ ∧ _))

/-- A list is readable with its items and its end. -/
theorem readable_foldr {items : List Datum} {tail : Datum} (each : ∀ d ∈ items, Readable d)
    (last : Readable tail) : Readable (items.foldr .pair tail) := by
  induction items with
  | nil => exact last
  | cons d items ih =>
    exact ⟨each d (by simp), ih fun d member => each d (by simp [member])⟩

/-! ## The tokens of list notation -/

mutual

/-- The tokens of a datum. -/
def tokens : Datum → List Token
  | .nil => [⟨.lparen, "("⟩, ⟨.rparen, ")"⟩]
  | .leaf a => [a.token]
  | .pair first second => ⟨.lparen, "("⟩ :: (tokens first ++ restTokens second)

/-- The tokens of what follows the first item of a list. -/
def restTokens : Datum → List Token
  | .nil => [⟨.rparen, ")"⟩]
  | .leaf a => [⟨.dot, "."⟩, a.token, ⟨.rparen, ")"⟩]
  | .pair first second => tokens first ++ restTokens second

end

end Datum

/-- Put tokens in front. -/
def TokenStream.prepend (tokens : List Token) (stream : TokenStream) : TokenStream :=
  { stream with tokens := tokens ++ stream.tokens }

theorem TokenStream.prepend_append (ts us : List Token) (stream : TokenStream) :
    stream.prepend (ts ++ us) = (stream.prepend us).prepend ts := by
  simp [prepend]

theorem TokenStream.prepend_cons (token : Token) (ts : List Token) (stream : TokenStream) :
    stream.prepend (token :: ts) = (stream.prepend ts).cons token := rfl

/-! ## The text is cut into the tokens -/

theorem delimited_restChars (d : Datum) (rest : List Char) :
    Delimited (d.restChars Atom.chars ++ rest) := by
  cases d with
  | nil => exact delimited_cons (by decide) _
  | leaf | pair => exact delimited_cons (by decide) _

theorem lexChars_cons_lparen (rest : List Char) :
    lexChars ('(' :: rest) = (lexChars rest).cons ⟨.lparen, "("⟩ :=
  lexChars_cons_mark rfl rest

theorem lexChars_cons_rparen (rest : List Char) :
    lexChars (')' :: rest) = (lexChars rest).cons ⟨.rparen, ")"⟩ :=
  lexChars_cons_mark rfl rest

theorem lexChars_cons_dot (rest : List Char) :
    lexChars ('.' :: rest) = (lexChars rest).cons ⟨.dot, "."⟩ :=
  lexChars_cons_mark rfl rest

theorem lexChars_cons_space (rest : List Char) : lexChars (' ' :: rest) = lexChars rest :=
  lexChars_cons_blank rfl rest

/-- The characters of a readable atom are cut into its token. -/
theorem Atom.Readable.lexChars_append {a : Atom} (readable : a.Readable) {rest : List Char}
    (delimited : Delimited rest) :
    lexChars (a.chars ++ rest) = (lexChars rest).cons a.token := by
  rw [← a.toList_text_token]
  exact readable.spelled.lexChars_append delimited

-- Both halves are needed at once: a pair prints its first field by the one function and its second
-- by the other.
theorem lexChars_chars_and_restChars {d : Datum} (readable : Datum.Readable d) :
    (∀ rest, Delimited rest → lexChars (d.chars Atom.chars ++ rest) =
        (lexChars rest).prepend (Datum.tokens d)) ∧
      ∀ rest, lexChars (d.restChars Atom.chars ++ rest) =
        (lexChars rest).prepend (Datum.restTokens d) := by
  induction d with
  | nil =>
    constructor
    · intro rest _
      simp [Tree.chars, Datum.tokens, lexChars_cons_lparen, lexChars_cons_rparen,
        TokenStream.prepend, TokenStream.cons]
    · intro rest
      simp [Tree.restChars, Datum.restTokens, lexChars_cons_rparen, TokenStream.prepend,
        TokenStream.cons]
  | leaf a =>
    constructor
    · intro rest delimited
      exact Atom.Readable.lexChars_append readable delimited
    · intro rest
      have closing : isAtomChar ')' = false := by decide
      have cut := Atom.Readable.lexChars_append readable (delimited_cons closing rest)
      simp [Tree.restChars, Datum.restTokens, lexChars_cons_space, lexChars_cons_dot, cut,
        lexChars_cons_rparen, TokenStream.prepend, TokenStream.cons]
  | pair first second ihFirst ihSecond =>
    obtain ⟨firstCut, -⟩ := ihFirst readable.1
    obtain ⟨-, secondCut⟩ := ihSecond readable.2
    have cut : ∀ rest, lexChars
        (first.chars Atom.chars ++ (second.restChars Atom.chars ++ rest)) =
          (lexChars rest).prepend (Datum.tokens first ++ Datum.restTokens second) := by
      intro rest
      rw [firstCut _ (delimited_restChars second rest), secondCut, TokenStream.prepend_append]
    constructor
    · intro rest _
      rw [Tree.chars, List.cons_append, List.append_assoc, lexChars_cons_lparen, cut,
        Datum.tokens, TokenStream.prepend_cons]
    · intro rest
      rw [Tree.restChars, List.cons_append, List.append_assoc, lexChars_cons_space, cut,
        Datum.restTokens]

/-- The text of a readable datum is cut into its tokens. -/
theorem lexChars_chars_append {d : Datum} (readable : Datum.Readable d) {rest : List Char}
    (delimited : Delimited rest) :
    lexChars (d.chars Atom.chars ++ rest) = (lexChars rest).prepend (Datum.tokens d) :=
  (lexChars_chars_and_restChars readable).1 rest delimited

namespace Datum

/-- The tokens of the text of a readable datum. -/
theorem lex_text {d : Datum} (readable : Readable d) : lex d.text = ⟨tokens d, none⟩ := by
  have cut := lexChars_chars_append readable delimited_nil
  rw [List.append_nil, lexChars_nil] at cut
  rw [lex, text, String.toList_ofList, cut]
  simp [TokenStream.prepend]

/-- The texts of data behind each other, separated by spaces. -/
def joined (ds : List Datum) : String := " ".intercalate (ds.map text)

/-- The tokens of the texts of readable data behind each other. -/
theorem lex_joined {ds : List Datum} (readable : ∀ d ∈ ds, Readable d) :
    lex (joined ds) = ⟨ds.flatMap tokens, none⟩ := by
  induction ds with
  | nil => exact lexChars_nil
  | cons d ds ih =>
    have first := readable d (by simp)
    have ih := ih fun d member => readable d (by simp [member])
    cases ds with
    | nil => simpa [joined] using lex_text first
    | cons d' ds =>
      have split : (joined (d :: d' :: ds)).toList =
          d.chars Atom.chars ++ ' ' :: (joined (d' :: ds)).toList := by
        simp [joined, text]
      rw [lex] at ih ⊢
      rw [split, lexChars_chars_append first (delimited_cons (by decide) _), lexChars_cons_space,
        ih]
      simp [TokenStream.prepend]

/-! ## The tokens denote the datum -/

-- Behind the first item the brackets are open, so the statement is about all the items that can be
-- there by then.
theorem derives_tokens_and_restTokens {d : Datum} (readable : Readable d) :
    Derives (tokens d) d ∧
      ∀ items : List (List Token × Datum), items ≠ [] → (∀ item ∈ items, Derives item.1 item.2) →
        Derives (⟨.lparen, "("⟩ :: (items.flatMap (·.1) ++ restTokens d))
          ((items.map (·.2)).foldr .pair d) := by
  induction d with
  | nil =>
    constructor
    · exact @Derives.list ⟨.lparen, "("⟩ ⟨.rparen, ")"⟩ [] rfl rfl (by simp)
    · intro items _ each
      exact .list rfl rfl each
  | leaf a =>
    have denotes := Atom.Readable.derives readable
    exact ⟨denotes, fun items nonempty each => .dotted rfl rfl rfl nonempty each denotes⟩
  | pair first second ihFirst ihSecond =>
    obtain ⟨firstDerived, -⟩ := ihFirst readable.1
    obtain ⟨-, secondDerived⟩ := ihSecond readable.2
    constructor
    · have whole := secondDerived [(tokens first, first)] (by simp) (by simpa using firstDerived)
      simpa [tokens] using whole
    · intro items nonempty each
      have each' : ∀ item ∈ items ++ [(tokens first, first)], Derives item.1 item.2 := by
        intro item member
        rcases List.mem_append.1 member with old | new
        · exact each item old
        · rw [List.mem_singleton.1 new]
          exact firstDerived
      have whole := secondDerived (items ++ [(tokens first, first)]) (by simp) each'
      simpa [restTokens] using whole

/-- The tokens of a readable datum denote it. -/
theorem Readable.derives {d : Datum} (readable : Readable d) : Derives (tokens d) d :=
  (derives_tokens_and_restTokens readable).1

theorem derivesAll_tokens {ds : List Datum} (readable : ∀ d ∈ ds, Readable d) :
    DerivesAll (ds.flatMap tokens) ds := by
  induction ds with
  | nil => exact .nil
  | cons d ds ih =>
    rw [List.flatMap_cons]
    exact .cons (readable d (by simp)).derives (ih fun d member => readable d (by simp [member]))

/-- If what is derived from spelled tokens is readable for each item, it is for the list. -/
theorem readable_items {items : List (List Token × Datum)} {tail : Datum}
    (each : ∀ item ∈ items, (∀ token ∈ item.1, Spelled token) → Readable item.2)
    (spelled : ∀ token ∈ items.flatMap (·.1), Spelled token) (last : Readable tail) :
    Readable ((items.map (·.2)).foldr .pair tail) := by
  apply readable_foldr _ last
  intro d member
  obtain ⟨item, among, rfl⟩ := List.mem_map.1 member
  apply each item among
  intro token inside
  exact spelled token (List.mem_flatMap.2 ⟨item, among, inside⟩)

/-- What is derived from spelled tokens is readable. -/
theorem readable_of_derives {ts : List Token} {d : Datum} (derived : Derives ts d)
    (spelled : ∀ token ∈ ts, Spelled token) : Readable d := by
  induction derived with
  | integer _ _ inRange => exact inRange
  | boolean => trivial
  | @symbol token kind =>
    have alone := spelled_iff.1 (spelled token (by simp))
    have same : token = ⟨.symbol, token.text⟩ := by
      rw [← kind]
    exact same ▸ alone
  | quote _ _ ih =>
    have inner := ih fun token member => spelled token (by simp [member])
    exact ⟨spelled_iff.1 spelled_quote, inner, trivial⟩
  | list _ _ _ ih =>
    exact readable_items ih (fun token inside => spelled token (by simp [inside])) trivial
  | dotted _ _ _ _ _ _ ih ihLast =>
    exact readable_items ih (fun token inside => spelled token (by simp [inside]))
      (ihLast fun token inside => spelled token (by simp [inside]))

-- A name with a space in it is two symbols, and a sign in front of digits begins an integer.
example : Readable (.leaf (.symbol "a-1")) ∧ ¬Readable (.leaf (.symbol "a b")) ∧
    ¬Readable (.leaf (.symbol "-1")) ∧ ¬Readable (.leaf (.integer (2 ^ 63))) := by
  decide +kernel

end Datum

end LittleScheme
