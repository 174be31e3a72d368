import LittleScheme.Proofs.Datum.Printed
import LittleScheme.Proofs.Store.Reading

/-!
# Printing and reading are inverse

A value that stands for a readable datum is printed in such a way that what is printed is read as
the same datum, and whatever is read stands for a readable datum.  Printing and reading give up at
their limits, and only there; for every value there are limits that suffice.
-/

namespace LittleScheme

/-! ## One datum -/

/-- The text of a readable datum is read as the datum. -/
theorem Datum.Readable.read_text {d : Datum} (readable : Datum.Readable d) {limit : Nat}
    (shallow : ∀ finished, Datum.read limit d.text ≠ .error (.tooDeep, finished)) :
    Datum.read limit d.text = .ok d := by
  rw [Datum.read_eq_ok_iff shallow, Datum.lex_text readable]
  exact ⟨rfl, readable.derives⟩

/-- What is read from a source is readable. -/
theorem Datum.readable_of_read {limit : Nat} {source : String} {d : Datum}
    (h : Datum.read limit source = .ok d) : Datum.Readable d := by
  have shallow : ∀ finished, Datum.read limit source ≠ .error (.tooDeep, finished) := by
    intro finished
    simp [h]
  obtain ⟨-, derived⟩ := (Datum.read_eq_ok_iff shallow d).1 h
  exact Datum.readable_of_derives derived fun token member => spelled_of_mem_lexChars member

/-- Reading into the store reaches its limit exactly where reading does. -/
theorem read_ne_tooDeep_of_readValue {limit : Nat} {source : String} {s : Store}
    (shallow : ∀ s', readValue limit source s ≠ .error .tooDeep s') (finished : List Datum) :
    Datum.read limit source ≠ .error (.tooDeep, finished) := by
  intro h
  obtain ⟨s', stopped⟩ := @exists_abandon Ref .tooDeep finished s
  rw [← readValue_of_error h] at stopped
  exact shallow s' stopped

theorem readValue_ne_tooDeep {limit : Nat} {source : String}
    (shallow : ∀ finished, Datum.read limit source ≠ .error (.tooDeep, finished)) (s s' : Store) :
    readValue limit source s ≠ .error .tooDeep s' := by
  intro stopped
  cases result : Datum.read limit source with
  | ok d =>
    obtain ⟨r, t, cells, made, -⟩ := build_laid d s
    rw [readValue_of_ok result, made] at stopped
    cases stopped
  | error failure =>
    obtain ⟨fault, finished⟩ := failure
    obtain ⟨t, failed⟩ := @exists_abandon Ref fault finished s
    rw [readValue_of_error result, failed] at stopped
    cases stopped
    exact shallow finished result

namespace Store

/-- The value is printed as the text of the datum, and the text is read, into any store, as a value
that stands for the datum; there is a limit from which on none is reached. -/
structure RoundTrips (s : Store) (r : Ref) (d : Datum) : Prop where
  printed : ∀ depth, s.render depth r ≠ .error .tooDeep → s.render depth r = .ok d.text
  read : ∀ limit t, (∀ t', readValue limit d.text t ≠ .error .tooDeep t') →
    ∃ r' t', readValue limit d.text t = .ok r' t' ∧ t'.Denotes r' d
  shallow : ∃ bound, ∀ n, bound ≤ n →
    s.render n r ≠ .error .tooDeep ∧ ∀ t t', readValue n d.text t ≠ .error .tooDeep t'

/-- The values are printed as the texts of the data, and the texts, separated by spaces, are read
as the data, in this order and to the end; there is a limit from which on none is reached. -/
structure RoundTripsAll (s : Store) (rs : List Ref) (ds : List Datum) : Prop where
  printed : ∀ depth, rs.mapM (s.render depth) ≠ .error .tooDeep →
    rs.mapM (s.render depth) = .ok (ds.map Datum.text)
  read : ∀ limit,
    (∀ finished, (Datum.parseAll limit (lex (Datum.joined ds))).failure? ≠
      some (.tooDeep, finished)) →
    (Datum.parseAll limit (lex (Datum.joined ds))).failure? = none ∧
      (Datum.parseAll limit (lex (Datum.joined ds))).data = ds
  made : ∀ t, ∃ rs' t', buildAll ds t = .ok rs' t' ∧ List.Forall₂ t'.Denotes rs' ds
  shallow : ∃ bound, ∀ n, bound ≤ n → rs.mapM (s.render n) ≠ .error .tooDeep ∧
    ∀ finished, (Datum.parseAll n (lex (Datum.joined ds))).failure? ≠ some (.tooDeep, finished)

variable {s : Store}

theorem Denotes.roundTrips {r : Ref} {d : Datum} (denotes : s.Denotes r d)
    (readable : Datum.Readable d) : s.RoundTrips r d where
  printed depth shallow := by
    rcases denotes.render depth with printed | ⟨-, deep⟩
    · exact printed
    · exact absurd deep shallow
  read limit t shallow := by
    have result := readable.read_text (read_ne_tooDeep_of_readValue shallow)
    obtain ⟨r', t', cells, made, laid, -⟩ := build_laid d t
    exact ⟨r', t', readValue_of_ok result ▸ made, cells, laid⟩
  shallow := by
    refine ⟨d.size + 1 + 2 * (Datum.tokens d).length, fun n enough => ⟨?_, ?_⟩⟩
    · rcases denotes.render n with printed | ⟨deep, -⟩
      · simp [printed]
      · omega
    · refine readValue_ne_tooDeep (Datum.read_ne_tooDeep ?_)
      rw [Datum.lex_text readable]
      simp only
      omega

/-! ## Several data -/

/-- Values that stand for data are printed one after the other, unless one is too deep. -/
theorem mapM_render {rs : List Ref} {ds : List Datum} (denotes : List.Forall₂ s.Denotes rs ds)
    (depth : Nat) :
    rs.mapM (s.render depth) = .ok (ds.map Datum.text) ∨
      depth ≤ Datum.totalSize ds ∧ rs.mapM (s.render depth) = .error .tooDeep := by
  induction denotes with
  | nil => exact .inl rfl
  | cons first _ ih =>
    rw [List.mapM_cons]
    rcases first.render depth with printed | ⟨deep, stopped⟩
    · rcases ih with printed' | ⟨deep, stopped⟩
      · left
        rw [printed, printed']
        rfl
      · right
        rw [printed, stopped]
        exact ⟨Nat.le_trans deep (Nat.le_add_left _ _), rfl⟩
    · right
      rw [stopped]
      exact ⟨Nat.le_trans deep (Nat.le_add_right _ _), rfl⟩

theorem roundTripsAll {rs : List Ref} {ds : List Datum} (denotes : List.Forall₂ s.Denotes rs ds)
    (readable : ∀ d ∈ ds, Datum.Readable d) : s.RoundTripsAll rs ds where
  printed depth shallow := by
    rcases mapM_render denotes depth with printed | ⟨-, deep⟩
    · exact printed
    · exact absurd deep shallow
  read limit shallow := by
    rw [Datum.parseAll_iff shallow, Datum.lex_joined readable]
    exact ⟨rfl, Datum.derivesAll_tokens readable⟩
  made t := by
    obtain ⟨rs', t', cells, made, laid, -⟩ := buildAll_laid ds t
    exact ⟨rs', t', made, laid.denotes⟩
  shallow := by
    refine ⟨Datum.totalSize ds + 1 + 2 * (ds.flatMap Datum.tokens).length,
      fun n enough => ⟨?_, ?_⟩⟩
    · rcases mapM_render denotes n with printed | ⟨deep, -⟩
      · simp [printed]
      · omega
    · apply Datum.parseAll_ne_tooDeep
      rw [Datum.lex_joined readable]
      simp only
      omega

end Store

/-- **Printing and reading are inverse.**  A value that stands for a readable datum is printed and
read back as that datum, values that stand for readable data are printed behind each other and read
back in their order, and what a source is read as stands for a readable datum, which is printed and
read back. -/
theorem reading_inverts_printing :
    (∀ (s : Store) (r : Ref) (d : Datum), s.Denotes r d → Datum.Readable d → s.RoundTrips r d) ∧
    (∀ (s : Store) (rs : List Ref) (ds : List Datum), List.Forall₂ s.Denotes rs ds →
      (∀ d ∈ ds, Datum.Readable d) → s.RoundTripsAll rs ds) ∧
    ∀ (limit : Nat) (source : String) (s : Store) (r : Ref) (s' : Store),
      readValue limit source s = .ok r s' →
        ∃ d, Datum.Readable d ∧ s'.Denotes r d ∧ s'.RoundTrips r d := by
  refine ⟨fun s r d => Store.Denotes.roundTrips, fun s rs ds => Store.roundTripsAll, ?_⟩
  intro limit source s r s' ended
  cases result : Datum.read limit source with
  | error failure =>
    rw [readValue_of_error result] at ended
    exact absurd ended (abandon_ne_ok failure.1 failure.2 s r s')
  | ok d =>
    obtain ⟨r', t, cells, made, laid, -⟩ := build_laid d s
    rw [readValue_of_ok result, made] at ended
    cases ended
    have readable := Datum.readable_of_read result
    have denotes : s'.Denotes r d := ⟨cells, laid⟩
    exact ⟨d, readable, denotes, denotes.roundTrips readable⟩

/-- A list of a symbol and an integer, and the symbol alone: the store shares its cell.  What an
apostrophe in front of a symbol is read as is printed in full and read back. -/
theorem reading_inverts_printing_list :
    let s : Store :=
      { cells := #[{ node := .symbol "a" }, { node := .integer (-5) },
          { node := .pair (.cell 1) .nil }, { node := .pair (.cell 0) (.cell 2) }]
        registry := [3, 2, 1, 0], allocations := 4 }
    let a : Datum := .leaf (.symbol "a")
    let d : Datum := .pair a (.pair (.leaf (.integer (-5))) .nil)
    s.render 4 (.cell 3) = .ok "(a -5)" ∧
      (∃ limit r t, readValue limit "(a -5)" s = .ok r t ∧ t.Denotes r d) ∧
      [.cell 3, .cell 0].mapM (s.render 4) = .ok ["(a -5)", "a"] ∧
      ∃ r t, readValue 10 "'a" s = .ok r t ∧ t.RoundTrips r a.quote := by
  intro s a d
  obtain ⟨one, several, read⟩ := reading_inverts_printing
  have text : d.text = "(a -5)" := by decide +kernel
  have symbol : s.Denotes (.cell 0) a := ⟨_, .leaf (a := .symbol "a") rfl⟩
  have list : s.Denotes (.cell 3) d :=
    ⟨_, .pair rfl (.leaf (a := .symbol "a") rfl)
      (.pair rfl (.leaf (a := .integer (-5)) rfl) .nil)⟩
  have readable : Datum.Readable a ∧ Datum.Readable d := by decide +kernel
  have trips := one s (.cell 3) d list readable.2
  have trips' := several s [.cell 3, .cell 0] [d, a] (.cons list (.cons symbol .nil)) (by
    simpa using readable.symm)
  refine ⟨?_, ?_, ?_, ?_⟩
  · rw [← text]
    exact trips.printed 4 (by decide +kernel)
  · obtain ⟨bound, shallow⟩ := trips.shallow
    obtain ⟨r, t, ended, denotes⟩ := trips.read bound s ((shallow bound (Nat.le_refl _)).2 s)
    exact ⟨bound, r, t, text ▸ ended, denotes⟩
  · have printed := trips'.printed 4 (by decide +kernel)
    rwa [List.map_cons, text] at printed
  · have result : Datum.read 10 "'a" = .ok a.quote := by decide +kernel
    obtain ⟨r, t, cells, made, laid, -⟩ := build_laid a.quote s
    have ended := (readValue_of_ok result ▸ made : readValue 10 "'a" s = .ok r t)
    obtain ⟨d', -, denotes, trips⟩ := read 10 "'a" s r t ended
    exact ⟨r, t, ended, denotes.unique ⟨cells, laid⟩ ▸ trips⟩

end LittleScheme
