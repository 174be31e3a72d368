import LittleScheme.Proofs.Evaluation.Legibility
import LittleScheme.Proofs.Session.Custody
import LittleScheme.Proofs.Store.RoundTrip

/-!
# Integers never leave their range

The store of a session is legible from the first line to the last, at every moment.  A line is read
into readable atoms, also if it is refused in the end, and evaluation keeps the store legible.  So
no integer in the store ever leaves the signed 64-bit range (`integers_inRange`).
-/

namespace LittleScheme

namespace legibility

variable {tokens : List Token} {s : Store}

/-! ## Reading -/

theorem build {d : Datum} (legible : s.Legible) (readable : Datum.Readable d) :
    Keeps tokens (LittleScheme.build d) s := by
  induction d generalizing s with
  | nil => exact .pure legible
  | leaf a => exact make legible (Atom.Readable.legible readable)
  | pair first second ihFirst ihSecond =>
    refine (ihFirst legible readable.1).bind fun r s₁ legible₁ => ?_
    refine (ihSecond legible₁ readable.2).bind fun r' s₂ legible₂ => ?_
    exact make legible₂ (by trivial)

theorem buildAll {ds : List Datum} (legible : s.Legible)
    (readable : ∀ d ∈ ds, Datum.Readable d) : Keeps tokens (LittleScheme.buildAll ds) s := by
  induction ds generalizing s with
  | nil => exact .pure legible
  | cons d ds ih =>
    obtain ⟨first, later⟩ := List.forall_mem_cons.1 readable
    refine (build legible first).bind fun r s₁ legible₁ => ?_
    refine (ih legible₁ later).bind fun rs s₂ legible₂ => ?_
    exact .pure legible₂

/-- What is read is legible, also if the source is refused in the end. -/
theorem readValue (limit : Nat) (source : String) (legible : s.Legible) :
    Keeps (lex source).tokens (LittleScheme.readValue limit source) s := by
  rw [LittleScheme.readValue]
  split
  · exact build legible (Datum.readable_of_read ‹_›)
  · rename_i failed
    refine (buildAll legible (readable_of_refused failed)).discard.bind ?_
    rintro _ s' ⟨_, legible'⟩
    exact throw legible' fun _ => reportable_of_read failed

/-! ## Sessions -/

theorem itself (watch : Watch) : (legibility tokens).Ordered watch watch :=
  ⟨trivial, trivial, fun _ _ => id⟩

/-- The store is legible at every moment of a line. -/
theorem lineUntil (watch : Watch) (limit : Nat) (globals : Loc) (line : String)
    (legible : s.Legible) :
    Keeps (lex line).tokens (Session.lineUntil watch limit globals line) s := by
  refine (readValue limit line legible).bind fun expr s₁ legible₁ => ?_
  have holds : (legibility (lex line).tokens).Holds s₁
      (Hand.expect { scopes := [globals] } [expr]) := legible₁
  exact (lawful_legibility _).evaluateUntil (itself watch) limit holds (List.mem_singleton_self _)

theorem installOperators (env : Loc) (ops : List Op) (legible : s.Legible) :
    Keeps tokens (LittleScheme.installOperators env ops) s := by
  induction ops generalizing s with
  | nil => exact .pure legible
  | cons op ops ih =>
    refine (make legible (by trivial)).bind fun r s₁ legible₁ => ?_
    exact (define legible₁ env op.name r).bind fun _ s₂ legible₂ => ih legible₂

theorem makeGlobals (legible : s.Legible) : Keeps tokens LittleScheme.makeGlobals s := by
  refine (allocate legible (by trivial)).bind fun env s₁ legible₁ => ?_
  refine (installOperators env Op.all legible₁).bind fun _ s₂ legible₂ => ?_
  exact .pure legible₂

end legibility

namespace Session

variable {session : Session}

theorem legible_start (collectOnError : Bool) (limit : Nat) :
    (start collectOnError limit).store.Legible := by
  have empty : Store.Legible {} := by
    intro r node found
    cases r <;> simp [Store.node?] at found
  obtain ⟨store, ended⟩ := Discipline.Lawful.makeGlobals_ok {}
  rw [start, ended]
  exact ((@legibility.makeGlobals [] {} empty).ok ended).2

/-- The store is legible at every moment of an action. -/
theorem legible_storeAt (legible : session.store.Legible) (watch : Watch) (action : Action) :
    (session.storeAt watch action).Legible := by
  cases action with
  | run line | execute line =>
    have runs := legibility.lineUntil watch session.limit session.globals line legible
    exact (runs.storeAfter fun _ _ => id).1
  | collect | limit n => exact legible

theorem legible_after (legible : session.store.Legible) (action : Action) :
    (session.after action).store.Legible := by
  have alike := (alike_after session action).1
  exact (legible_storeAt legible .never action).congr alike.node?.symm

/-- The store is legible after any actions. -/
theorem legible_afterAll (legible : session.store.Legible) (actions : List Action) :
    (session.afterAll actions).store.Legible := by
  induction actions generalizing session with
  | nil => exact legible
  | cons action actions ih => exact ih (legible_after legible action)

end Session

/-- **Integers never leave 64 bits.**  At every moment of a session, be it between lines, inside of
one, or after one that has failed, every integer in the store lies between `-2 ^ 63` and
`2 ^ 63 - 1`, whether it is registered, can be reached from the global frame, or neither. -/
theorem integers_inRange (collectOnError : Bool) (limit : Nat) (actions : List Session.Action)
    (action : Session.Action) (watch : Watch) :
    let session := (Session.start collectOnError limit).afterAll actions
    ∀ r value, (session.storeAt watch action).node? r = some (.integer value) →
      -9223372036854775808 ≤ value ∧ value ≤ 9223372036854775807 := by
  intro session r value found
  have legible : session.store.Legible :=
    Session.legible_afterAll (Session.legible_start collectOnError limit) actions
  have inRange : Integer64.InRange value := Session.legible_storeAt legible watch action r _ found
  rwa [Integer64.InRange, Integer64.least, Integer64.greatest] at inRange

/-- The negation of the least integer is the least integer again. -/
theorem integers_inRange_negation :
    let session := (Session.start true 1000).afterAll []
    let s := session.storeAt .never (.run "(- -9223372036854775808)")
    ∃ r value, s.node? r = some (.integer value) ∧ value = -9223372036854775808 ∧
      -9223372036854775808 ≤ value ∧ value ≤ 9223372036854775807 := by
  intro session s
  have found : s.node? (.cell 40) = some (.integer (-9223372036854775808)) := by decide +kernel
  have bounds := integers_inRange true 1000 [] (.run "(- -9223372036854775808)") .never _ _ found
  exact ⟨_, _, found, rfl, bounds⟩

end LittleScheme
