import LittleScheme.Proofs.Datum.Refusal
import LittleScheme.Proofs.Evaluation.Custody
import LittleScheme.Proofs.Session.Transparency

/-!
# Procedures never change

The zones of a store are kept apart from the first line of a session to the last, at every moment of
`Session.storeAt`: whenever an evaluation begins or ends, be it that of a line or one inside of it,
whenever a copy has been made, and when a line has failed.  What a line reads is in hand and belongs
to no zone; printing and collecting do not touch the contents of a store.

So the parameters and the body of a procedure are the same data in the same cells at all moments,
whatever is done to the values that calls of it return (`code_unchanged`).
-/

namespace LittleScheme

/-! ## Reading -/

namespace Zones

variable {z : Zones} {s : Store}

theorem Adds.build (fits : z.Fits s) (d : Datum) :
    z.Adds s (LittleScheme.build d) (z.Transcribes s d) := by
  induction d generalizing s with
  | nil => exact .pure fits ⟨rfl, [], .nil, by simp, by simp⟩
  | leaf a => exact .makeAtom fits a
  | pair d e ihFirst ihSecond =>
    refine (ihFirst fits).bind ?_
    rintro first _ s₁ grows₁ ⟨rfl, cells₁, laid₁, distinct₁, new₁⟩
    refine (ihSecond grows₁.fits).bind ?_
    rintro second _ s₂ grows₂ ⟨rfl, cells₂, laid₂, distinct₂, new₂⟩
    refine (Adds.make grows₂.fits (by simp) (by simp)).imp ?_
    rintro _ _ _ grows₃ ⟨rfl, rfl, rfl⟩
    have kept := grows₃.extended
    have below (q : Loc) (member : q ∈ cells₁ ++ cells₂) : s.size ≤ q ∧ q < s₂.size := by
      rcases List.mem_append.1 member with first | second
      · exact ⟨new₁ q first, Nat.lt_of_lt_of_le (laid₁.lt_size first) grows₂.extended.size_le⟩
      · exact ⟨Nat.le_trans grows₁.extended.size_le (new₂ q second), laid₂.lt_size second⟩
    refine ⟨rfl, cells₁ ++ cells₂ ++ [s₂.size], .pair ?_
      ((laid₁.mono grows₂.extended.node?).mono kept.node?) (laid₂.mono kept.node?), ?_, ?_⟩
    · rw [Store.node?_register, if_pos rfl]
    · refine nodup_append_new (nodup_append_new distinct₁ (fun _ => laid₁.lt_size) distinct₂ new₂)
        (fun q member => (below q member).2) (by simp) (by simp)
    · intro q member
      rcases List.mem_append.1 member with old | last
      · exact (below q old).1
      · have grown := (grows₁.trans grows₂).extended.size_le
        rwa [List.mem_singleton.1 last]

theorem Adds.buildAll (fits : z.Fits s) (ds : List Datum) :
    z.Adds s (LittleScheme.buildAll ds) fun _ _ _ => True := by
  induction ds generalizing s with
  | nil => exact .pure fits trivial
  | cons d ds ih =>
    refine (Adds.build fits d).bind ?_
    rintro r _ s₁ grows₁ ⟨rfl, -⟩
    exact (ih grows₁.fits).bind fun rs z' s' grows _ => .pure grows.fits trivial

end Zones

namespace custody

variable {root : Loc} {s : Store} {hand : Hand}

/-- What is read is an expression in hand. -/
theorem readValue (limit : Nat) (source : String) (holds : (custody root).Holds s hand) :
    (custody root).Does (LittleScheme.readValue limit source) s
      fun r s' => (custody root).Holds s' (hand.expect [r]) := by
  obtain ⟨z, guards⟩ := holds
  rw [LittleScheme.readValue]
  split
  · rename_i d _
    refine guards.does (Zones.Adds.build guards.fits d) ?_
    rintro r _ s' grows guards' ⟨rfl, cells, laid, distinct, new⟩
    exact ⟨_, guards.expect guards' grows.extended laid.singleton distinct new⟩
  · rename_i fault finished failed
    have built :
        (custody root).Does (buildAll finished) s fun _ s' => (custody root).Holds s' hand :=
      guards.does (.buildAll guards.fits finished) fun _ z' _ _ guards' _ => ⟨z', guards'⟩
    refine built.discard.bind ?_
    rintro _ s' ⟨_, holds'⟩
    exact .throw holds' (.inl (reportable_of_read failed).ordinary)

/-! ## New sessions -/

theorem installOperators {env : Loc} (holds : (custody root).Holds s hand)
    (scope : env ∈ hand.scopes) (ops : List Op) :
    (custody root).Does (LittleScheme.installOperators env ops) s
      fun _ s' => (custody root).Holds s' hand := by
  induction ops generalizing s with
  | nil => exact .pure holds
  | cons op ops ih =>
    obtain ⟨z, guards⟩ := holds
    have made : (custody root).Does (make (.builtin op)) s ((custody root).Yields hand) :=
      guards.does (.makeData (.builtin op) guards.fits trivial (by simp) (by simp))
        fun c z' s' _ guards' value => ⟨z', guards'.gain (by simpa using value)⟩
    refine made.bind fun r s₁ holds₁ => ?_
    refine (define op.name holds₁ (by simp) scope).bind fun _ s₂ holds₂ => ?_
    exact ih (Regime.of_gain holds₂)

/-- Custody begins with the global frame. -/
theorem holds_start (collectOnError : Bool) (limit : Nat) :
    (custody (Session.start collectOnError limit).globals).Holds
      (Session.start collectOnError limit).store {} := by
  have fits : Zones.Fits ⟨∅, ∅, ∅, ∅, 0⟩ {} := by
    refine ⟨False.elim, False.elim, False.elim, False.elim, False.elim, False.elim, fun found => ?_⟩
    cases found
  have made := fits.registerFrame {} ⟨by simp, by simp, fun _ => rfl⟩
  have first : (custody 0).Holds (Store.register {} (.environment {})) { scopes := [0] } := by
    refine ⟨_, made, fun q member => member.elim, rfl, .inl rfl,
      ⟨[], [], .nil, by simp, by simp⟩, by simp, by simp, ?_⟩
    intro env member
    exact .inl (List.mem_singleton.1 member)
  have installed := installOperators first (List.mem_singleton_self 0) Op.all
  obtain ⟨store, ran⟩ := Discipline.Lawful.installOperators_ok 0 Op.all
    (Store.register {} (.environment {}))
  have ended : makeGlobals {} = .ok 0 store := by
    have allocated : allocate (.environment {}) {} =
        .ok 0 (Store.register {} (.environment {})) := rfl
    rw [makeGlobals, StoreM.bind_ok allocated, StoreM.bind_ok ran]
    rfl
  rw [Session.start, ended]
  exact Regime.empty (installed.ok ran).2

end custody

namespace Session

/-! ## Moments -/

/-- Read a line and evaluate it in the global frame, but stop at the first moment that is waited
for. -/
def lineUntil (watch : Watch) (limit : Nat) (globals : Loc) (line : String) : StoreM Ref := do
  let expr ← readValue limit line
  evaluateUntil watch limit expr globals

/-- The store at a moment of an action: the first one that is waited for, or the last, if there is
none. -/
def storeAt (session : Session) (watch : Watch) : Action → Store
  | .run line | .execute line =>
    StoreM.storeAfter (lineUntil watch session.limit session.globals line) session.store
  | .collect | .limit _ => session.store

end Session

namespace custody

variable {root : Loc} {s s' : Store}

/-- Custody depends on contents only. -/
theorem of_alike (alike : s.Alike s') (holds : (custody root).Holds s {}) :
    (custody root).Holds s' {} := by
  obtain ⟨z, fits, whole, outermost, root, -⟩ := holds
  have same := alike.node?
  refine ⟨z, ⟨?_, ?_, ?_, fits.apart, fits.own, ?_, ?_⟩, ?_, outermost, root,
    ⟨[], [], .nil, by simp, by simp⟩, by simp, by simp, by simp⟩
  · rw [← same]
    exact fits.node
  · rw [← alike.frame?]
    exact fits.frame
  · rw [← alike.frame?]
    exact fits.captured
  · rw [← same]
    exact fits.expr
  · intro q params body env found
    rw [← same] at found
    exact (fits.procedure found).congr (fun _ => id) (fun _ => id) fun c _ => by rw [same]
  · intro q member params body found
    rw [← same] at found
    exact whole q member params body found

theorem preserves_of_alike (alike : s.Alike s') : s.Preserves s' :=
  ⟨fun found => alike.node? ▸ found, fun _ laid => laid.congr fun c _ => by rw [alike.node?],
    fun _ frame => alike.frame? ▸ frame⟩

theorem itself (watch : Watch) : (custody root).Ordered watch watch :=
  ⟨trivial, trivial, fun _ _ => id⟩

theorem before_never (watch : Watch) : (custody root).Ordered watch .never :=
  ⟨trivial, trivial, by simp [Watch.never]⟩

/-- Custody holds at every moment of a line. -/
theorem lineUntil {early late : Watch} (ordered : (custody root).Ordered early late) (limit : Nat)
    (line : String) (holds : (custody root).Holds s {}) :
    (custody root).Runs (Session.lineUntil early limit root line)
      (Session.lineUntil late limit root line) s ((custody root).Yields { scopes := [root] }) := by
  have inside : (custody root).Holds s { scopes := [root] } := by
    obtain ⟨z, guards⟩ := holds
    exact ⟨z, { guards with has := { guards.has with scopes := by simpa using guards.root } }⟩
  refine (readValue limit line inside).bind fun expr s₁ holds₁ => ?_
  exact (lawful_custody root).evaluateUntil ordered limit holds₁ (List.mem_singleton_self _)

end custody

namespace Session

variable {session : Session}

/-! ## Lines -/

/-- Behind a part of a line that has ended well, the next one goes on. -/
theorem bind_of_ok {α β : Type} {action : SessionM α} {a : α} {session' : Session}
    (ended : action session = .ok a session') (next : α → SessionM β) :
    (action >>= next) session = next a session' := by
  change EStateM.bind action next session = _
  rw [EStateM.bind, ended]

theorem bind_of_error {α β : Type} {action : SessionM α} {fault : Fault} {session' : Session}
    (ended : action session = .error fault session') (next : α → SessionM β) :
    (action >>= next) session = .error fault session' := by
  change EStateM.bind action next session = _
  rw [EStateM.bind, ended]

theorem attempt_of_ok {α : Type} (deep : Error) {action : StoreM α} {a : α} {s : Store}
    (ended : action session.store = .ok a s) :
    attempt deep action session = .ok a { session with store := s } := by
  have onStore : onStore action session = .ok a { session with store := s } := by
    simp only [Session.onStore, ended]
  simp only [attempt, onStore]

/-- A part of a line that fails is followed by what the session does after a failure. -/
theorem attempt_of_error {α : Type} (deep : Error) {action : StoreM α} {fault : Fault} {s : Store}
    (ended : action session.store = .error fault s) :
    ∃ session', attempt deep action session = .error (fault.reported deep) session' ∧
      Alike { session with store := s } session' := by
  have onStore : onStore action session = .error fault { session with store := s } := by
    simp only [Session.onStore, ended]
  obtain ⟨session', failed, alike⟩ := alike_afterFailure { session with store := s }
  have stopped (e : Error) : (do afterFailure; throw (.error e) : SessionM α)
      { session with store := s } = .error (.error e) session' :=
    bind_of_ok failed _
  cases fault with
  | tooDeep | error e =>
    refine ⟨session', ?_, alike⟩
    simp only [attempt, onStore, stopped, Fault.reported]
  | literalTooLong | malformedToken | namelessParameter | endless =>
    refine ⟨{ session with store := s }, ?_, .refl _⟩
    simp only [attempt, onStore, Fault.reported]

/-- A line is read and evaluated as a whole. -/
abbrev wholeLine (session : Session) (line : String) : StoreM Ref :=
  lineUntil .never session.limit session.globals line

/-- How a line has ended. -/
structure Ends (session : Session) (line : String) (ended : EStateM.Result Fault Session String) :
    Prop where
  /-- The store has the contents that the evaluation has left it with. -/
  alike : Alike { session with store := StoreM.storeAfter (session.wholeLine line) session.store }
    (left ended)
  /-- If the line has failed, it has gone too deep, or the evaluation or the printing has failed. -/
  cause : ∀ {fault session'}, ended = .error fault session' →
    fault = .error .nestingTooDeep ∨ fault = .error .recursionTooDeep ∨
      (∃ s, session.wholeLine line session.store = .error fault s) ∨
      ∃ r s, session.wholeLine line session.store = .ok r s ∧
        s.render session.depth r = .error fault
  /-- A depth that is used up is reported as an error. -/
  shallow : ∀ {fault session'}, ended = .error fault session' → fault ≠ .tooDeep
  /-- If the line has not failed, the value that it has been evaluated to has been printed. -/
  shown : ∀ {text session'}, ended = .ok text session' →
    ∃ r s, session.wholeLine line session.store = .ok r s ∧
      s.render session.depth r = .ok text

theorem valueText_of_ok {budget : Nat} {globals : Loc} {expr r : Ref} {s s' : Store}
    (evaluated : evaluate budget expr globals s = .ok r s') (depth : Nat) :
    valueText budget depth globals expr s = match s'.render depth r with
      | .ok text => .ok text s'
      | .error fault => .error fault s' := by
  rw [valueText, StoreM.bind_ok evaluated]
  change (match s'.render depth r with
    | .ok text => (Pure.pure text : StoreM String)
    | .error fault => throw fault) s' = _
  cases s'.render depth r <;> rfl

theorem ends_runExpression {line : String} {expr : Ref} {s : Store}
    (read : readValue session.limit line session.store = .ok expr s) :
    session.Ends line (runExpression expr { session with store := s }) := by
  have whole : session.wholeLine line session.store =
      evaluate session.limit expr session.globals s := by
    rw [wholeLine, lineUntil, evaluateUntil_never, StoreM.bind_ok read]
  have unfolded : runExpression expr { session with store := s } =
      (attempt .recursionTooDeep (valueText session.limit session.depth session.globals expr) >>=
        fun text => discard collect >>= fun _ => Pure.pure text) { session with store := s } := rfl
  have failed {fault : Fault} {s' : Store}
      (text : valueText session.limit session.depth session.globals expr s = .error fault s')
      (left : StoreM.storeAfter (session.wholeLine line) session.store = s')
      (cause : (∃ s, session.wholeLine line session.store = .error fault s) ∨ ∃ r s,
        session.wholeLine line session.store = .ok r s ∧ s.render session.depth r = .error fault) :
      session.Ends line (runExpression expr { session with store := s }) := by
    obtain ⟨session', ended, alike⟩ :=
      @attempt_of_error { session with store := s } _ .recursionTooDeep _ _ _ text
    rw [unfolded, bind_of_error ended]
    refine ⟨left ▸ alike, ?_, ?_, by rintro _ _ ⟨⟩⟩
    · rintro _ _ ⟨⟩
      rcases fault.reported_eq .recursionTooDeep with same | deep
      · rw [same]
        exact .inr (.inr cause)
      · exact .inr (.inl deep)
    · rintro _ _ ⟨⟩
      exact fault.reported_ne_tooDeep _
  cases evaluated : evaluate session.limit expr session.globals s with
  | error fault s' =>
    rw [evaluated] at whole
    refine failed (StoreM.bind_error evaluated _) ?_ (.inl ⟨s', whole⟩)
    rw [StoreM.storeAfter, whole]
  | ok r s' =>
    rw [evaluated] at whole
    have left : StoreM.storeAfter (session.wholeLine line) session.store = s' := by
      rw [StoreM.storeAfter, whole]
    have printed := valueText_of_ok evaluated session.depth
    cases rendered : s'.render session.depth r with
    | error fault =>
      rw [rendered] at printed
      exact failed printed left (.inr ⟨r, s', whole, rendered⟩)
    | ok text =>
      rw [rendered] at printed
      rw [unfolded, bind_of_ok (@attempt_of_ok { session with store := s } _ _ _ _ _ printed)]
      refine ⟨?_, by rintro _ _ ⟨⟩, by rintro _ _ ⟨⟩, ?_⟩
      · rw [left]
        exact alike_afterChore _ .collect
      · rintro _ _ ⟨⟩
        exact ⟨r, s', whole, rendered⟩

/-- How a line ends. -/
theorem ends_run (session : Session) (line : String) : session.Ends line (run line session) := by
  have unfolded : run line session =
      (attempt .nestingTooDeep (readValue session.limit line) >>= runExpression) session := rfl
  cases read : readValue session.limit line session.store with
  | ok expr s =>
    rw [unfolded, bind_of_ok (attempt_of_ok _ read)]
    exact ends_runExpression read
  | error fault s =>
    have whole : session.wholeLine line session.store = .error fault s := StoreM.bind_error read _
    obtain ⟨session', ended, alike⟩ := attempt_of_error .nestingTooDeep read
    rw [unfolded, bind_of_error ended]
    refine ⟨?_, ?_, ?_, by rintro _ _ ⟨⟩⟩
    · rw [StoreM.storeAfter, whole]
      exact alike
    · rintro _ _ ⟨⟩
      rcases fault.reported_eq .nestingTooDeep with same | deep
      · rw [same]
        exact .inr (.inr (.inl ⟨s, whole⟩))
      · exact .inl deep
    · rintro _ _ ⟨⟩
      exact fault.reported_ne_tooDeep _

/-- Whether errors of the program are outcomes is no matter to the session. -/
theorem alike_execute (session : Session) (line : String) :
    Alike (left (run line session)) (left (execute line session)) := by
  rw [execute]
  cases run line session with
  | ok text session' => exact .refl _
  | error fault session' =>
    cases fault with
    | error e => exact ⟨.refl _, rfl, rfl⟩
    | tooDeep | literalTooLong | malformedToken | namelessParameter | endless => exact .refl _

/-- After an action, the store has the contents of its last moment, and the global frame is the
same. -/
theorem alike_after (session : Session) (action : Action) :
    (session.storeAt .never action).Alike (session.after action).store ∧
      session.globals = (session.after action).globals := by
  cases action with
  | run line =>
    have alike := (ends_run session line).alike
    exact ⟨alike.store, alike.globals⟩
  | execute line =>
    have alike := (ends_run session line).alike.trans (alike_execute session line)
    exact ⟨alike.store, alike.globals⟩
  | collect => exact ⟨Store.alike_collect _ _, rfl⟩
  | limit n => exact ⟨.refl _, rfl⟩

/-! ## Sessions -/

/-- Custody holds of a session. -/
abbrev InCustody (session : Session) : Prop := (custody session.globals).Holds session.store {}

/-- Custody holds at every moment of an action, and what is fixed at one moment stays fixed until a
later one. -/
theorem InCustody.storeAt (holds : session.InCustody) {early late : Watch}
    (ordered : (custody session.globals).Ordered early late) (action : Action) :
    (custody session.globals).Holds (session.storeAt early action) {} ∧
      (session.storeAt early action).Preserves (session.storeAt late action) ∧
      session.store.Preserves (session.storeAt early action) := by
  cases action with
  | run line | execute line =>
    have runs := custody.lineUntil ordered session.limit line holds
    have itself := custody.lineUntil (custody.itself early) session.limit line holds
    obtain ⟨holds', kept⟩ := runs.storeAfter fun _ _ => Regime.empty
    exact ⟨holds', kept, itself.since⟩
  | collect | limit n => exact ⟨holds, .refl _, .refl _⟩

theorem InCustody.after (holds : session.InCustody) (action : Action) :
    (session.after action).InCustody := by
  obtain ⟨alike, globals⟩ := alike_after session action
  rw [InCustody, ← globals]
  exact custody.of_alike alike (holds.storeAt (custody.itself .never) action).1

theorem InCustody.afterAll (holds : session.InCustody) (actions : List Action) :
    (session.afterAll actions).InCustody := by
  induction actions generalizing session with
  | nil => exact holds
  | cons action actions ih => exact ih (holds.after action)

/-- What is fixed at a moment of an action is fixed after the action. -/
theorem InCustody.preserves_after (holds : session.InCustody) (watch : Watch)
    (action : Action) : (session.storeAt watch action).Preserves (session.after action).store := by
  have last := (holds.storeAt (custody.before_never watch) action).2.1
  exact last.trans (custody.preserves_of_alike (alike_after session action).1)

theorem InCustody.preserves_afterAll (holds : session.InCustody) (actions : List Action) :
    session.store.Preserves (session.afterAll actions).store := by
  induction actions generalizing session with
  | nil => exact .refl _
  | cons action actions ih =>
    have first := (holds.storeAt (custody.itself .never) action).2.2
    exact (first.trans (holds.preserves_after .never action)).trans (ih (holds.after action))

end Session

/-! ## The code of procedures -/

/-- What a call of the procedure at `q` executes in this store.  A call copies the procedure, which
gives one with the same code, and the body, which gives values that stand for the same forms. -/
structure Store.Executes (s : Store) (q : Loc) (params body : List Ref) (names forms : List Datum) :
    Prop where
  copy : ∀ {depth c s'}, duplicate depth (.cell q) s = .ok c s' →
    ∃ params' body' captured cells, s'.node? c = some (.closure params' body' captured) ∧
      params'.length = params.length ∧ s'.LaidAll (params' ++ body') (names ++ forms) cells
  body : ∀ {depth copies s'}, copyEach (duplicate depth) body s = .ok copies s' →
    ∃ cells, s'.LaidAll copies forms cells

/-- The procedures of `s` are procedures of `s'` with the same code.  In both stores, the parameters
and the forms of the body stand for the same data by the same cells, each of which is used once.  So
they are finite, without cycles, and made of atoms and pairs only. -/
def Store.KeepsCode (s s' : Store) : Prop :=
  ∀ q params body env, s.node? (.cell q) = some (.closure params body (some env)) →
    s'.node? (.cell q) = some (.closure params body (some env)) ∧
      ∃ names forms cells, names.length = params.length ∧ cells.Nodup ∧
        s.LaidAll (params ++ body) (names ++ forms) cells ∧
        s'.LaidAll (params ++ body) (names ++ forms) cells ∧ s'.Executes q params body names forms

theorem custody.keepsCode {root root' : Loc} {s s' : Store} (holds : (custody root).Holds s {})
    (holds' : (custody root').Holds s' {}) (kept : s.Preserves s') : s.KeepsCode s' := by
  intro q params body env found
  obtain ⟨z, guards⟩ := holds
  obtain ⟨z', guards'⟩ := holds'
  obtain ⟨-, -, ds, cells, laid, distinct, -⟩ := (guards.fits.procedure found).coded
  obtain ⟨names, forms, cells₁, cells₂, left, right, rfl, rfl⟩ := laid.of_append
  have found' := kept.node? found
  have laid' := kept.laid found laid
  refine ⟨found', names, forms, _, left.length_eq.symm, distinct, laid, laid', ⟨?_, ?_⟩⟩
  · intro depth c s₁ ended
    exact guards'.fits.duplicate_closure found' laid' ended
  · intro depth copies s₁ ended
    obtain ⟨ds₁, ds₂, own, others, heading, rest, data, same⟩ := laid'.of_append
    have lengths : names.length = ds₁.length := left.length_eq.symm.trans heading.length_eq
    obtain ⟨-, rfl⟩ := List.append_inj data lengths
    rw [same] at distinct
    have copied := Zones.copyEachCode (Zones.copying_duplicate Set.univ depth) guards'.fits rest
      (List.nodup_append.1 distinct).2.1 fun _ _ => trivial
    obtain ⟨-, -, -, -, cells, standing, -⟩ := copied.ok ended
    exact ⟨cells, standing⟩

/-- **Procedures never change.**  Take any moment of a session: the first of those that are waited
for while an action is carried out, or its end.  The procedures that are there then have the same
code at every later moment of the same action, and at every moment of the actions that follow; and a
call of theirs executes the same forms. -/
theorem code_unchanged (collectOnError : Bool) (limit : Nat) (before between : List Session.Action)
    (action action' : Session.Action) (watch watch' : Watch) :
    let session := (Session.start collectOnError limit).afterAll before
    let early := session.storeAt (fun m s => watch m s || watch' m s) action
    early.KeepsCode (session.storeAt watch' action) ∧
      early.KeepsCode (((session.after action).afterAll between).storeAt watch' action') := by
  intro session early
  have holds : session.InCustody :=
    Session.InCustody.afterAll (custody.holds_start collectOnError limit) before
  have ordered : (custody session.globals).Ordered (fun m s => watch m s || watch' m s) watch' :=
    ⟨trivial, trivial, fun m s waited => by simp [waited]⟩
  obtain ⟨here, kept, -⟩ := holds.storeAt ordered action
  obtain ⟨there, -⟩ := holds.storeAt (custody.itself watch') action
  have next := holds.after action
  obtain ⟨there', -, kept'⟩ := (next.afterAll between).storeAt (custody.itself watch') action'
  have behind := (holds.preserves_after (fun m s => watch m s || watch' m s) action).trans
    ((next.preserves_afterAll between).trans kept')
  exact ⟨custody.keepsCode here there kept, custody.keepsCode here there' behind⟩

end LittleScheme
