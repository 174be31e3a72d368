import LittleScheme.Proofs.Session.Custody
import LittleScheme.Proofs.Store.Picturing

/-!
# Values are of the right kind

Whatever can be reached from the global frame is of the kind that is expected in its place, at every
moment of a session.  Frames are found only where frames belong: around other frames, and captured
by procedures.  A procedure has a frame, a body, and symbols for its parameters (`Store.Typed`).

So no line makes evaluation or printing fail in a way that would tell of a value of the wrong kind:
`Fault.Expected` has the faults that are left.  The empty list is the only expression that cannot be
evaluated.
-/

namespace LittleScheme

/-- The reference leads to a frame. -/
def Store.IsFrame (s : Store) (r : Ref) : Prop := ∃ frame, s.node? r = some (.environment frame)

/-- The references of the node lead to values of the right kind. -/
def Store.Typed (s : Store) : Node → Prop
  | .pair first second => ¬s.IsFrame first ∧ ¬s.IsFrame second
  | .environment frame =>
    (∀ binding ∈ frame.bindings, ¬s.IsFrame binding.2) ∧ ∀ env ∈ frame.outer, s.IsFrame (.cell env)
  | .closure params body captured =>
    (∀ r ∈ params, (s.symbolName? r).isSome) ∧ body ≠ [] ∧ (∀ r ∈ body, ¬s.IsFrame r) ∧
      ∃ env, captured = some env ∧ s.IsFrame (.cell env)
  | .integer _ | .boolean _ | .symbol _ | .builtin _ => True

/-- The fault does not tell of a value of the wrong kind, or it tells that the empty list cannot be
evaluated. -/
def Fault.Expected (fault : Fault) : Prop :=
  fault.isInternal = false ∨ fault = .error (.cannotEvaluate "()")

namespace Zones

variable {z : Zones} {s : Store} {r : Ref}

/-! ## What can be reached -/

/-- The reference leads to data, to a frame, or to something that stands for a datum. -/
def Sorted (z : Zones) (s : Store) (r : Ref) : Prop :=
  z.Value r ∨ (∃ q, (q ∈ z.frames ∨ q ∈ z.captured) ∧ r = .cell q) ∨ ∃ d, s.Denotes r d

theorem not_isFrame_of_denotes {d : Datum} (denotes : s.Denotes r d) : ¬s.IsFrame r := by
  rintro ⟨frame, found⟩
  obtain ⟨cells, laid⟩ := denotes
  cases r with
  | nil => cases found
  | cell c =>
    obtain ⟨node, found', isCode⟩ := laid.isCode laid.mem
    rw [found, Option.some.injEq] at found'
    subst found'
    cases isCode

theorem Fits.not_isFrame (fits : z.Fits s) (value : z.Value r) : ¬s.IsFrame r :=
  fun ⟨_, found⟩ => fits.admits value found

theorem Fits.isFrame_cell (fits : z.Fits s) {env : Loc}
    (member : env ∈ z.frames ∨ env ∈ z.captured) : s.IsFrame (.cell env) := by
  obtain ⟨frame, found⟩ := fits.isFrame member
  exact ⟨frame, Store.frame?_eq_some.1 found⟩

/-- Whatever is bound in a frame is a value. -/
theorem Fits.bound (fits : z.Fits s) {env : Loc} (member : env ∈ z.frames ∨ env ∈ z.captured)
    {frame : Frame} (found : s.frame? env = some frame) {binding : String × Ref}
    (bound : binding ∈ frame.bindings) : z.Value binding.2 := by
  rcases member with inside | captured
  · obtain ⟨frame', found', scopes⟩ := fits.frame inside
    rw [found, Option.some.injEq] at found'
    subst found'
    exact scopes.values binding bound
  · obtain ⟨frame', found', env', -, -, rfl⟩ := fits.captured captured
    rw [found, Option.some.injEq] at found'
    subst found'
    simp at bound

/-- The forms of a procedure stand for data. -/
theorem denotes_of_coded {code : Set Loc} {params body : List Ref}
    (coded : s.Coded code params body) (member : r ∈ params ++ body) : ∃ d, s.Denotes r d := by
  obtain ⟨-, -, ds, cells, laid, -⟩ := coded
  obtain ⟨d, own, standing, -⟩ := laid.exists_laid member
  exact ⟨d, own, standing⟩

/-- Whatever a value of a sort refers to is of a sort again. -/
theorem Sorted.child (sorted : z.Sorted s r) (fits : z.Fits s) (whole : z.Whole s) {node : Node}
    (found : s.node? r = some node) {c : Ref} (child : c ∈ node.children) : z.Sorted s c := by
  rcases sorted with value | ⟨q, member, rfl⟩ | ⟨d, cells, laid⟩
  · have admits := fits.admits value found
    cases node with
    | integer | boolean | symbol | builtin => simp [Node.children] at child
    | environment => exact admits.elim
    | pair first second =>
      simp only [Node.children, List.mem_cons, List.not_mem_nil, or_false] at child
      rcases child with rfl | rfl
      · exact .inl admits.1
      · exact .inl admits.2
    | closure params body captured =>
      obtain ⟨coded, env, frame, rfl⟩ := fits.complete whole value found
      rcases List.mem_append.1 child with code | captured
      · exact .inr (.inr (denotes_of_coded coded code))
      · exact .inr (.inl ⟨env, .inr frame, by simpa using captured⟩)
  · obtain ⟨frame, here⟩ := fits.isFrame member
    rw [Store.frame?_eq_some.1 here, Option.some.injEq] at found
    subst found
    rcases List.mem_append.1 child with around | bound
    · obtain ⟨env, outer, rfl⟩ := List.mem_map.1 around
      exact .inr (.inl ⟨env, (fits.outer member here (Option.mem_toList.1 outer)).2, rfl⟩)
    · obtain ⟨binding, among, rfl⟩ := List.mem_map.1 bound
      exact .inl (fits.bound member here among)
  · cases laid with
    | nil => cases found
    | @leaf _ a found' =>
      rw [found, Option.some.injEq] at found'
      subst found'
      cases a <;> simp [Atom.node, Node.children] at child
    | pair found' left right =>
      rw [found, Option.some.injEq] at found'
      subst found'
      simp only [Node.children, List.mem_cons, List.not_mem_nil, or_false] at child
      rcases child with rfl | rfl
      · exact .inr (.inr ⟨_, _, left⟩)
      · exact .inr (.inr ⟨_, _, right⟩)

/-- A value of a sort is of the right kind. -/
theorem Sorted.typed (sorted : z.Sorted s r) (fits : z.Fits s) (whole : z.Whole s) {node : Node}
    (found : s.node? r = some node) : s.Typed node := by
  rcases sorted with value | ⟨q, member, rfl⟩ | ⟨d, cells, laid⟩
  · have admits := fits.admits value found
    cases node with
    | integer | boolean | symbol | builtin => trivial
    | environment => exact admits.elim
    | pair first second => exact ⟨fits.not_isFrame admits.1, fits.not_isFrame admits.2⟩
    | closure params body captured =>
      obtain ⟨coded, env, frame, rfl⟩ := fits.complete whole value found
      refine ⟨coded.names, coded.nonempty, fun r member => ?_, env, rfl,
        fits.isFrame_cell (.inr frame)⟩
      obtain ⟨d, denotes⟩ := denotes_of_coded coded (List.mem_append_right _ member)
      exact not_isFrame_of_denotes denotes
  · obtain ⟨frame, here⟩ := fits.isFrame member
    rw [Store.frame?_eq_some.1 here, Option.some.injEq] at found
    subst found
    exact ⟨fun binding bound => fits.not_isFrame (fits.bound member here bound),
      fun env outer => fits.isFrame_cell (fits.outer member here outer).2⟩
  · cases laid with
    | nil => cases found
    | @leaf _ a found' =>
      rw [found, Option.some.injEq] at found'
      subst found'
      cases a <;> trivial
    | pair found' left right =>
      rw [found, Option.some.injEq] at found'
      subst found'
      exact ⟨not_isFrame_of_denotes ⟨_, left⟩, not_isFrame_of_denotes ⟨_, right⟩⟩

/-- What can be reached from a frame is of a sort. -/
theorem Fits.sorted (fits : z.Fits s) (whole : z.Whole s) {root : Loc} (member : root ∈ z.frames)
    (path : s.Reaches (.cell root) r) : z.Sorted s r := by
  induction path with
  | refl => exact .inr (.inl ⟨root, .inl member, rfl⟩)
  | step _ found child ih => exact ih.child fits whole found child

/-- What can be reached from a frame is of the right kind. -/
theorem Fits.typed (fits : z.Fits s) (whole : z.Whole s) {root : Loc} (member : root ∈ z.frames)
    (path : s.Reaches (.cell root) r) {node : Node} (found : s.node? r = some node) :
    s.Typed node :=
  (fits.sorted whole member path).typed fits whole found

/-! ## Printing -/

theorem Fits.value_of_leads (fits : z.Fits s) {r' : Ref} (value : z.Value r)
    (leads : s.Leads r r') : z.Value r' := by
  induction leads with
  | refl => exact value
  | tail _ link ih =>
    cases link with
    | first found => exact (fits.admits ih found).1
    | second found => exact (fits.admits ih found).2

/-- Values can be printed, unless they go too deep: no scope can be reached from them. -/
theorem Fits.render (fits : z.Fits s) {depth : Nat} {fault : Fault} (value : z.Value r)
    (failed : s.render depth r = .error fault) : fault = .tooDeep := by
  rcases s.render_cases depth r with
    ⟨picture, shown, -⟩ | ⟨env, frame, leads, found, -⟩ | exceeded
  · rw [shown] at failed
    cases failed
  · exact absurd ⟨frame, found⟩ (fits.not_isFrame (fits.value_of_leads value leads))
  · rw [exceeded] at failed
    cases failed
    rfl

end Zones

/-! ## Sessions -/

namespace Session

variable {session : Session}

/-- Lines fail in expected ways only. -/
theorem InCustody.expected_run (holds : session.InCustody) {line : String} {fault : Fault}
    {session' : Session} (ended : run line session = .error fault session') : fault.Expected := by
  have runs := custody.lineUntil (custody.itself .never) session.limit line holds
  rcases (ends_run session line).cause ended with
    rfl | rfl | ⟨s, failed⟩ | ⟨r, s, evaluated, failed⟩
  · exact .inl rfl
  · exact .inl rfl
  · exact (runs.error failed).2.2
  · obtain ⟨z, guards⟩ := (runs.ok evaluated).2
    have value : z.Value r := guards.has.values r (by simp)
    rw [guards.fits.render value failed]
    exact .inl rfl

theorem InCustody.expected_execute (holds : session.InCustody) (line : String) :
    (∀ e session', execute line session = .ok (.failed e) session' → (Fault.error e).Expected) ∧
      ∀ fault session', execute line session = .error fault session' → fault.Expected := by
  rw [execute]
  cases ended : run line session with
  | ok text session' => simp
  | error fault session' =>
    have expected := holds.expected_run ended
    cases fault with
    | error e =>
      refine ⟨?_, by simp⟩
      rintro _ _ ⟨⟩
      exact expected
    | tooDeep | literalTooLong | malformedToken | namelessParameter | endless =>
      refine ⟨by simp, ?_⟩
      rintro _ _ ⟨⟩
      exact expected

end Session

/-- **Values are of the right kind.**  At every moment of a session, be it between lines, inside of
one, or after one that has failed, whatever can be reached from the global frame is of the right
kind.  Hence no line, run in whatever state of the session, fails with a fault that tells of a value
of the wrong kind, and only the empty list is ever reported as an expression that has no value. -/
theorem reachable_typed (collectOnError : Bool) (limit : Nat) (actions : List Session.Action)
    (action : Session.Action) (watch : Watch) (line : String) :
    let session := (Session.start collectOnError limit).afterAll actions
    let s := session.storeAt watch action
    (∀ r node, s.Reaches (.cell session.globals) r → s.node? r = some node → s.Typed node) ∧
      (∀ fault session', Session.run line session = .error fault session' → fault.Expected) ∧
      (∀ e session', Session.execute line session = .ok (.failed e) session' →
        (Fault.error e).Expected) ∧
      ∀ fault session', Session.execute line session = .error fault session' → fault.Expected := by
  intro session s
  have holds : session.InCustody :=
    Session.InCustody.afterAll (custody.holds_start collectOnError limit) actions
  obtain ⟨⟨z, guards⟩, -⟩ := holds.storeAt (custody.itself watch) action
  refine ⟨fun r node path found => guards.fits.typed guards.whole guards.root path found,
    fun fault session' ended => holds.expected_run ended, holds.expected_execute line⟩

end LittleScheme
