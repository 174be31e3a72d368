import LittleScheme.Proofs.Datum.Grammar
import LittleScheme.Proofs.Store.Denotation
import LittleScheme.Proofs.Token.Spelling

/-!
# Reading into the store

What the grammar says about sources is carried over to the values that are made from them.  A
computation that reads ends well exactly if there is a datum to read, and it makes that datum out of
new cells, one for each atom and each pair (`Makes`, `Produces`).
-/

namespace LittleScheme

open Text

/-- From `s`, the computation ends with a value that stands for the datum, by new cells: one for
each atom and each pair, and no others. -/
def Makes (action : StoreM Ref) (s : Store) (d : Datum) : Prop :=
  ∃ r s' cells, action s = .ok r s' ∧ s'.Laid r d cells ∧ s.Grown s' cells ∧
    cells.length = d.size

/-- From `s`, the computation ends with values that stand for the data, by new cells. -/
def MakesAll (action : StoreM (List Ref)) (s : Store) (ds : List Datum) : Prop :=
  ∃ rs s' cells, action s = .ok rs s' ∧ s'.LaidAll rs ds cells ∧ s.Grown s' cells ∧
    cells.length = Datum.totalSize ds

/-- From `s`, the computation makes whatever datum is accepted, and fails if none is. -/
structure Produces (action : StoreM Ref) (s : Store) (accepted : Datum → Prop) : Prop where
  makes : ∀ d, accepted d → Makes action s d
  fails : (∀ d, ¬accepted d) → ∀ r s', action s ≠ .ok r s'

theorem makes_build (d : Datum) (s : Store) : Makes (build d) s d := by
  obtain ⟨r, s', cells, made, laid, grown⟩ := build_laid d s
  exact ⟨r, s', cells, made, laid, grown, laid.length⟩

theorem makesAll_buildAll (ds : List Datum) (s : Store) : MakesAll (buildAll ds) s ds := by
  obtain ⟨rs, s', cells, made, laid, grown⟩ := buildAll_laid ds s
  exact ⟨rs, s', cells, made, laid, grown, laid.length⟩

/-- What is abandoned fails, after the data that were complete have been made. -/
theorem exists_abandon {α : Type} (fault : Fault) (finished : List Datum) (s : Store) :
    ∃ s', (abandon fault finished : StoreM α) s = .error fault s' := by
  obtain ⟨rs, s', cells, made, -⟩ := buildAll_laid finished s
  have discarded : (discard (buildAll finished) : StoreM PUnit) s = .ok () s' := by
    rw [StoreM.discard_eq, StoreM.bind_ok made]
    rfl
  refine ⟨s', ?_⟩
  rw [abandon, StoreM.bind_ok discarded]
  rfl

theorem abandon_ne_ok {α : Type} (fault : Fault) (finished : List Datum) (s : Store) (a : α)
    (s' : Store) : (abandon fault finished : StoreM α) s ≠ .ok a s' := by
  obtain ⟨t, failed⟩ := @exists_abandon α fault finished s
  simp [failed]

theorem produces_commit (parsed : Parsed) (s : Store) :
    Produces parsed.commit s fun d => ∃ rest, parsed = .datum d rest := by
  cases parsed with
  | datum d rest =>
    constructor
    · rintro d' ⟨rest', same⟩
      cases same
      exact makes_build d s
    · intro none
      exact absurd ⟨rest, rfl⟩ (none d)
  | failed fault finished rest =>
    constructor
    · rintro d ⟨rest', same⟩
      cases same
    · intro _ r s'
      exact abandon_ne_ok fault finished s r s'

theorem readValue_of_ok {limit : Nat} {source : String} {d : Datum}
    (h : Datum.read limit source = .ok d) : readValue limit source = build d := by
  simp [readValue, h]

theorem readValue_of_error {limit : Nat} {source : String} {fault : Fault} {finished : List Datum}
    (h : Datum.read limit source = .error (fault, finished)) :
    readValue limit source = abandon fault finished := by
  simp [readValue, h]

/-- If no value is made of a source, the source is refused. -/
theorem refused_of_readValue {limit : Nat} {source : String} {s s' : Store} {fault : Fault}
    (failed : readValue limit source s = .error fault s') :
    ∃ finished, Datum.read limit source = .error (fault, finished) := by
  cases result : Datum.read limit source with
  | ok d =>
    obtain ⟨r, t, cells, made, -⟩ := build_laid d s
    rw [readValue_of_ok result, made] at failed
    cases failed
  | error failure =>
    obtain ⟨t, abandoned⟩ := @exists_abandon Ref failure.1 failure.2 s
    rw [readValue_of_error result, abandoned] at failed
    cases failed
    exact ⟨failure.2, rfl⟩

theorem produces_readValue (limit : Nat) (source : String) (s : Store) :
    Produces (readValue limit source) s fun d => Datum.read limit source = .ok d := by
  cases result : Datum.read limit source with
  | ok d =>
    rw [readValue_of_ok result]
    constructor
    · intro d' h
      cases h
      exact makes_build d s
    · intro none
      exact absurd rfl (none d)
  | error failure =>
    rw [readValue_of_error result]
    constructor
    · intro d h
      cases h
    · intro _ r s'
      exact abandon_ne_ok failure.1 failure.2 s r s'

/-- **What is read is what the grammar derives**, unless the limit is reached; twice the number of
tokens is a limit that never is.  A parse takes a derivation from the front of a stream, a source
is read if it has a derivation as a whole, and a stream is read to its end if it consists of
derivations.  A literal of a source has a value if it has at most 4300 digits, and it is the value
in decimal notation.  What has been read is made of new and distinct cells. -/
theorem reads_iff_derives (limit : Nat) (s : Store) :
    (∀ stream, ¬(Datum.parse limit stream).TooDeep →
      (∀ d rest, Datum.parse limit stream = .datum d rest ↔
        rest.failure? = stream.failure? ∧
          ∃ p, stream.tokens = p ++ rest.tokens ∧ Derives p d) ∧
      Produces (Datum.parse limit stream).commit s fun d =>
        ∃ rest, Datum.parse limit stream = .datum d rest) ∧
    (∀ source, (∀ finished, Datum.read limit source ≠ .error (.tooDeep, finished)) →
      (∀ d, Datum.read limit source = .ok d ↔
        (lex source).failure? = none ∧ Derives (lex source).tokens d) ∧
      Produces (readValue limit source) s fun d => Datum.read limit source = .ok d) ∧
    (∀ stream, (∀ finished, (Datum.parseAll limit stream).failure? ≠ some (.tooDeep, finished)) →
      (∀ ds, (Datum.parseAll limit stream).failure? = none ∧
          (Datum.parseAll limit stream).data = ds ↔
        stream.failure? = none ∧ DerivesAll stream.tokens ds) ∧
      MakesAll (buildAll (Datum.parseAll limit stream).data) s
        (Datum.parseAll limit stream).data) ∧
    (∀ stream, 2 * stream.tokens.length ≤ limit →
      ¬(Datum.parse limit stream).TooDeep ∧
      ∀ finished, (Datum.parseAll limit stream).failure? ≠ some (.tooDeep, finished)) ∧
    (∀ source, 2 * (lex source).tokens.length ≤ limit →
      ∀ finished, Datum.read limit source ≠ .error (.tooDeep, finished)) ∧
    (∀ source, ∀ token ∈ (lex source).tokens, token.kind = .integer →
      ∀ value, numeral token.text.toList = .ok value ↔
        (splitSign token.text.toList).2.length ≤ 4300 ∧
          decimalValue? token.text.toList = some value) := by
  refine ⟨?_, ?_, ?_, ?_, ?_, ?_⟩
  · intro stream shallow
    exact ⟨Datum.parse_eq_datum_iff shallow, produces_commit _ s⟩
  · intro source shallow
    exact ⟨Datum.read_eq_ok_iff shallow, produces_readValue limit source s⟩
  · intro stream shallow
    exact ⟨Datum.parseAll_iff shallow, makesAll_buildAll _ s⟩
  · intro stream enough
    exact ⟨Datum.parse_not_tooDeep enough, Datum.parseAll_ne_tooDeep enough⟩
  · intro source enough
    exact Datum.read_ne_tooDeep enough
  · intro source token member kind
    exact numeral_eq_ok_iff ((spelled_of_mem_lexChars member).plain_of_integer kind)

end LittleScheme
