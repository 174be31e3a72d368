import LittleScheme.Proofs.Evaluation.Discipline
import LittleScheme.Session

/-!
# Disciplines of sessions

A session goes on from action to action: lines are run, some of which fail, the store is collected
on request, and the recursion limit, which belongs to the process and not to the session, may be
moved in between, so that a line can be cut short at any depth.  A lawful discipline that
collections keep too holds in `Session.afterAll`, after any actions.
-/

namespace LittleScheme

namespace Session

/-- What can be done to a session. -/
inductive Action
  /-- Run a line. -/
  | run (line : String)
  /-- Run a line, with errors of the program as outcomes. -/
  | execute (line : String)
  /-- Collect from the global frame. -/
  | collect
  /-- Put another recursion limit in force. -/
  | limit (n : Nat)
deriving DecidableEq

/-- The session that a computation leaves behind, however it ended. -/
def left {α : Type} : EStateM.Result Fault Session α → Session
  | .ok _ session => session
  | .error _ session => session

/-- The session after an action. -/
def after (session : Session) : Action → Session
  | .run line => left (run line session)
  | .execute line => left (execute line session)
  | .collect => left (collect session)
  | .limit n => { session with limit := n }

/-- The session after a sequence of actions. -/
def afterAll (session : Session) (actions : List Action) : Session := actions.foldl after session

/-- The action is a line that succeeds, or a collection. -/
def Succeeds (session : Session) : Action → Prop
  | .run line => ∃ text session', run line session = .ok text session'
  | .execute line => ∃ text session', execute line session = .ok (.value text) session'
  | .collect => True
  | .limit _ => False

end Session

namespace Discipline

/-- The store of the session is sound, and its global frame is a scope. -/
structure Holds (d : Discipline) (session : Session) : Prop where
  sound : d.Sound session.store
  scope : d.Scope session.store session.globals

/-- The discipline held when the session was last collected, and nothing has happened since. -/
def Collected (d : Discipline) (session : Session) : Prop :=
  ∃ s, d.Sound s ∧ d.Scope s session.globals ∧
    session.store = (s.collect (.cell session.globals)).2

/-- A computation on the session leaves one of which the discipline holds, and its result is as
asked. -/
structure Serves (d : Discipline) {α : Type} (action : SessionM α) (session : Session)
    (post : α → Session → Prop) : Prop where
  ok : ∀ {a session'}, action session = .ok a session' → d.Holds session' ∧ post a session'
  error : ∀ {fault session'}, action session = .error fault session' → d.Holds session'

/-- Collections from a scope keep to the discipline. -/
def Collects (d : Discipline) : Prop :=
  ∀ s env, d.Sound s → d.Scope s env →
    d.Sound (s.collect (.cell env)).2 ∧ d.Scope (s.collect (.cell env)).2 env

section Serve

variable {d : Discipline} {α β : Type} {session : Session}

theorem Serves.left {action : SessionM α} {post : α → Session → Prop}
    (h : d.Serves action session post) : d.Holds (Session.left (action session)) := by
  cases ended : action session with
  | ok a session' => exact (h.ok ended).1
  | error fault session' => exact h.error ended

theorem Serves.of_ok {action : SessionM α} {a : α} {session' : Session}
    {post : α → Session → Prop} (ended : action session = .ok a session')
    (holds : d.Holds session') (h : post a session') : d.Serves action session post := by
  constructor
  · intro b session'' ended'
    rw [ended] at ended'
    cases ended'
    exact ⟨holds, h⟩
  · intro fault session'' ended'
    rw [ended] at ended'
    cases ended'

theorem Serves.of_error {action : SessionM α} {fault : Fault} {session' : Session}
    {post : α → Session → Prop} (ended : action session = .error fault session')
    (holds : d.Holds session') : d.Serves action session post := by
  constructor
  · intro b session'' ended'
    rw [ended] at ended'
    cases ended'
  · intro fault' session'' ended'
    rw [ended] at ended'
    cases ended'
    exact holds

theorem Serves.congr {action action' : SessionM α} {session' : Session}
    {post : α → Session → Prop} (same : action session = action' session')
    (h : d.Serves action' session' post) : d.Serves action session post :=
  ⟨fun ended => h.ok (same.symm.trans ended), fun ended => h.error (same.symm.trans ended)⟩

theorem Serves.pure {a : α} {post : α → Session → Prop} (holds : d.Holds session)
    (h : post a session) : d.Serves (Pure.pure a) session post :=
  .of_ok rfl holds h

theorem Serves.bind {action : SessionM α} {next : α → SessionM β} {post : α → Session → Prop}
    {post' : β → Session → Prop} (first : d.Serves action session post)
    (second : ∀ a session', d.Holds session' → post a session' →
      d.Serves (next a) session' post') :
    d.Serves (action >>= next) session post' := by
  have unfolded : (action >>= next) session = EStateM.bind action next session := rfl
  rw [EStateM.bind] at unfolded
  cases h : action session with
  | error fault session' =>
    rw [h] at unfolded
    exact .of_error unfolded (first.error h)
  | ok a session' =>
    rw [h] at unfolded
    obtain ⟨holds, asked⟩ := first.ok h
    exact .congr unfolded (second a session' holds asked)

theorem Serves.get {next : Session → SessionM α} {post : α → Session → Prop}
    (h : d.Serves (next session) session post) :
    d.Serves (MonadState.get >>= next) session post :=
  ⟨h.ok, h.error⟩

theorem Serves.discard {action : SessionM α} {post : α → Session → Prop}
    (h : d.Serves action session post) :
    d.Serves (Functor.discard action) session fun _ session' => ∃ a, post a session' := by
  have unfolded : (Functor.discard action : SessionM PUnit) = action >>= fun _ => Pure.pure () := by
    funext session
    change EStateM.map _ _ session = EStateM.bind _ _ session
    rw [EStateM.map, EStateM.bind]
    cases action session <;> rfl
  rw [unfolded]
  exact h.bind fun a _ holds asked => .pure holds ⟨a, asked⟩

end Serve

namespace Lawful

variable {d : Discipline} (law : d.Lawful) (collects : d.Collects) {s : Store} {session : Session}

/-! ## Reading -/

include law in
theorem build (sound : d.Sound s) (datum : Datum) :
    d.Runs (LittleScheme.build datum) s d.Result := by
  induction datum generalizing s with
  | nil => exact .pure sound law.nil
  | leaf atom => exact law.atom atom sound
  | pair first second ihFirst ihSecond =>
    refine (ihFirst sound).bind ?_
    intro a s₁ kept₁ first
    refine (ihSecond kept₁.sound).bind ?_
    intro b s₂ kept₂ second
    exact law.pair kept₂.sound (kept₂.value first) second

include law in
theorem abandon {α : Type} (sound : d.Sound s) (fault : Fault) (finished : List Datum)
    {post : α → Store → Prop} : d.Runs (LittleScheme.abandon fault finished) s post := by
  have all : ∀ {s}, d.Sound s → d.Runs (buildAll finished) s fun _ _ => True := by
    induction finished with
    | nil => exact fun sound => .pure sound trivial
    | cons datum data ih =>
      intro s sound
      refine (law.build sound datum).bind ?_
      intro _ s₁ kept₁ _
      refine (ih kept₁.sound).bind ?_
      intro _ s₂ kept₂ _
      exact .pure kept₂.sound trivial
  refine (all sound).discard.bind ?_
  intro _ s' kept _
  exact .throw kept.sound

include law in
theorem readValue (sound : d.Sound s) (limit : Nat) (source : String) :
    d.Runs (LittleScheme.readValue limit source) s d.Result := by
  rw [LittleScheme.readValue]
  split
  · exact law.build sound _
  · exact law.abandon sound _ _

include law in
theorem valueText (sound : d.Sound s) {globals : Loc} (scope : d.Scope s globals) {expr : Ref}
    (value : d.Value s expr) (budget depth : Nat) :
    d.Runs (Session.valueText budget depth globals expr) s fun _ _ => True := by
  refine (law.evaluate budget sound value scope).bind ?_
  intro r s' kept _
  refine .get ?_
  split
  · exact .pure kept.sound trivial
  · exact .throw kept.sound

/-! ## Lines -/

include collects in
theorem collect (holds : d.Holds session) :
    d.Serves Session.collect session fun _ session' => d.Collected session' := by
  obtain ⟨sound, scope⟩ := collects _ _ holds.sound holds.scope
  exact .of_ok rfl ⟨sound, scope⟩ ⟨_, holds.sound, holds.scope, rfl⟩

include collects in
theorem afterFailure (holds : d.Holds session) :
    d.Serves Session.afterFailure session fun _ _ => True := by
  refine .get ?_
  split
  · exact (Lawful.collect collects holds).discard.bind fun _ _ holds _ => .pure holds trivial
  · exact .pure holds trivial

theorem onStore {α : Type} {action : StoreM α} {post : α → Store → Prop} (holds : d.Holds session)
    (runs : d.Runs action session.store post) :
    d.Serves (Session.onStore action) session fun a session' => post a session'.store := by
  obtain ⟨store, globals, collectOnError, limit, journal⟩ := session
  cases ended : action store with
  | ok a store' =>
    obtain ⟨kept, asked⟩ := runs.ok ended
    have left : Session.onStore action ⟨store, globals, collectOnError, limit, journal⟩ =
        .ok a ⟨store', globals, collectOnError, limit, journal⟩ := by
      simp [Session.onStore, ended]
    exact .of_ok left ⟨kept.sound, kept.scope holds.scope⟩ asked
  | error fault store' =>
    have kept := runs.error ended
    have left : Session.onStore action ⟨store, globals, collectOnError, limit, journal⟩ =
        .error fault ⟨store', globals, collectOnError, limit, journal⟩ := by
      simp [Session.onStore, ended]
    exact .of_error left ⟨kept.sound, kept.scope holds.scope⟩

include collects in
theorem attempt {α : Type} (deep : Error) {action : StoreM α} {post : α → Store → Prop}
    (holds : d.Holds session) (runs : d.Runs action session.store post) :
    d.Serves (Session.attempt deep action) session fun a session' => post a session'.store := by
  have served := onStore holds runs
  have failed (e : Error) {session' : Session} (holds : d.Holds session') :
      d.Serves (do Session.afterFailure; throw (.error e) : SessionM α) session'
        fun a session' => post a session'.store :=
    (afterFailure collects holds).bind fun _ _ holds _ => .of_error rfl holds
  cases ended : Session.onStore action session with
  | ok a session' =>
    have left : Session.attempt deep action session = .ok a session' := by
      simp only [Session.attempt, ended]
    exact .of_ok left (served.ok ended).1 (served.ok ended).2
  | error fault session' =>
    have holds' := served.error ended
    cases fault with
    | tooDeep =>
      exact .congr (by simp only [Session.attempt, ended]) (failed deep holds')
    | error e =>
      exact .congr (by simp only [Session.attempt, ended]) (failed e holds')
    | literalTooLong | malformedToken | namelessParameter | endless =>
      exact .of_error (by simp only [Session.attempt, ended]; rfl) holds'

include law collects in
/-- Running a line keeps to the discipline, and a line that succeeds ends with a collection. -/
theorem run (holds : d.Holds session) (line : String) :
    d.Serves (Session.run line) session fun _ session' => d.Collected session' := by
  refine .get ?_
  refine (attempt collects .nestingTooDeep holds
    (law.readValue holds.sound session.limit line)).bind ?_
  intro expr session₁ holds₁ value
  refine .get ?_
  refine (attempt collects .recursionTooDeep holds₁
    (law.valueText holds₁.sound holds₁.scope value _ _)).bind ?_
  intro text session₂ holds₂ _
  refine (Lawful.collect collects holds₂).discard.bind ?_
  rintro _ session₃ holds₃ ⟨_, collected⟩
  exact .pure holds₃ collected

include law collects in
theorem execute (holds : d.Holds session) (line : String) :
    d.Serves (Session.execute line) session fun outcome session' =>
      ∀ text, outcome = .value text → d.Collected session' := by
  have served := law.run collects holds line
  cases ended : Session.run line session with
  | ok text session' =>
    have left : Session.execute line session = .ok (.value text) session' := by
      simp only [Session.execute, ended]
    exact .of_ok left (served.ok ended).1 fun _ _ => (served.ok ended).2
  | error fault session' =>
    have holds' := served.error ended
    cases fault with
    | error e =>
      have left : Session.execute line session =
          .ok (.failed e) (session'.note (.failed line e)) := by
        simp only [Session.execute, ended]
      exact .of_ok left ⟨holds'.sound, holds'.scope⟩ (by simp)
    | tooDeep | literalTooLong | malformedToken | namelessParameter | endless =>
      exact .of_error (by simp only [Session.execute, ended]; rfl) holds'

/-! ## Sessions -/

include law in
theorem installOperators {env : Loc} (sound : d.Sound s) (scope : d.Scope s env) (ops : List Op) :
    d.Runs (LittleScheme.installOperators env ops) s fun _ _ => True := by
  induction ops generalizing s with
  | nil => exact .pure sound trivial
  | cons op ops ih =>
    refine .assoc ((law.operator op op.name sound scope).bind ?_)
    intro _ s₁ kept _
    exact ih kept.sound (kept.scope scope)

theorem installOperators_ok (env : Loc) (ops : List Op) (s : Store) :
    ∃ s', LittleScheme.installOperators env ops s = .ok () s' := by
  induction ops generalizing s with
  | nil => exact ⟨s, rfl⟩
  | cons op ops ih => exact ih _

include law in
theorem makeGlobals (first : d.Runs (allocate (.environment {})) s fun env s => d.Scope s env) :
    d.Runs LittleScheme.makeGlobals s fun env s => d.Scope s env := by
  rw [LittleScheme.makeGlobals]
  refine first.bind ?_
  intro env s₁ kept₁ scope
  refine (law.installOperators kept₁.sound scope Op.all).bind ?_
  intro _ s₂ kept₂ _
  exact .pure kept₂.sound (kept₂.scope scope)

theorem makeGlobals_ok (s : Store) : ∃ s', LittleScheme.makeGlobals s = .ok s.size s' := by
  obtain ⟨s', installed⟩ := installOperators_ok s.size Op.all (s.register (.environment {}))
  refine ⟨s', ?_⟩
  have allocated : allocate (.environment {}) s = .ok s.size (s.register (.environment {})) := rfl
  rw [LittleScheme.makeGlobals]
  rw [StoreM.bind_ok allocated, StoreM.bind_ok installed]
  rfl

include law in
/-- A discipline holds of a new session if the first frame of a store is a scope. -/
theorem holds_start
    (first : d.Runs (allocate (.environment {})) {} fun env s => d.Scope s env)
    (collectOnError : Bool) (limit : Nat) : d.Holds (Session.start collectOnError limit) := by
  have made := law.makeGlobals first
  obtain ⟨store, ended⟩ := makeGlobals_ok {}
  obtain ⟨kept, scope⟩ := made.ok ended
  rw [Session.start]
  rw [ended]
  exact ⟨kept.sound, scope⟩

include law collects in
theorem holds_after (holds : d.Holds session) (action : Session.Action) :
    d.Holds (session.after action) := by
  cases action with
  | run line => exact (law.run collects holds line).left
  | execute line => exact (law.execute collects holds line).left
  | collect => exact (Lawful.collect collects holds).left
  | limit n => exact ⟨holds.sound, holds.scope⟩

include law collects in
/-- A discipline that holds of a session holds of it after any actions. -/
theorem holds_afterAll (holds : d.Holds session) (actions : List Session.Action) :
    d.Holds (session.afterAll actions) := by
  induction actions generalizing session with
  | nil => exact holds
  | cons action actions ih => exact ih (law.holds_after collects holds action)

include law collects in
/-- After an action that succeeds, nothing has happened since the last collection. -/
theorem collected_after (holds : d.Holds session) {action : Session.Action}
    (succeeds : session.Succeeds action) : d.Collected (session.after action) := by
  cases action with
  | run line =>
    obtain ⟨text, session', ended⟩ := succeeds
    simpa [Session.after, ended, Session.left] using ((law.run collects holds line).ok ended).2
  | execute line =>
    obtain ⟨text, session', ended⟩ := succeeds
    simpa [Session.after, ended, Session.left] using
      ((law.execute collects holds line).ok ended).2 text rfl
  | collect => exact ((Lawful.collect collects holds).ok rfl).2
  | limit n => exact succeeds.elim

end Lawful

end Discipline

end LittleScheme
