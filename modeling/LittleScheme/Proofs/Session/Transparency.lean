import LittleScheme.Proofs.Evaluation.Contents
import LittleScheme.Proofs.Session.Exactness

/-!
# Collections cannot be observed

Between the lines of a session its store may be collected, or all values may be struck from the
register; after a line that fails, the session may or may not collect by itself.  None of this shows
in `Session.transcript`: what the lines come to, and the names of the global frame.

Two sessions with the same contents, the same global frame and the same recursion limit stay so from
line to line, because a line sees contents only.  As long as nothing is struck from the register by
force, both registers are closed, and both are exact after a line that succeeds; then they hold the
same values.
-/

namespace LittleScheme

namespace Session

/-- The stores have the same contents, and the global frame and the recursion limit are the same.
-/
structure Alike (a b : Session) : Prop where
  store : a.store.Alike b.store
  globals : a.globals = b.globals
  limit : a.limit = b.limit

/-- What can be done to a session between lines. -/
inductive Chore
  /-- Collect from the global frame. -/
  | collect
  /-- Strike all values from the register. -/
  | close
deriving DecidableEq

/-- The session after a chore. -/
def afterChore (session : Session) : Chore → Session
  | .collect => left (collect session)
  | .close => left (close session)

/-- The session after some chores. -/
def afterChores (session : Session) (chores : List Chore) : Session :=
  chores.foldl afterChore session

/-- What is seen of a session after a line. -/
structure Entry where
  /-- What the line came to, or the fault that it was left with. -/
  outcome : Except Fault Outcome
  /-- The names of the global frame. -/
  names : String
  /-- The number of registered values. -/
  live : Nat
deriving DecidableEq

/-- The number of registered values, if the line succeeded. -/
def Entry.live? (entry : Entry) : Option Nat :=
  match entry.outcome with
  | .ok (.value _) => some entry.live
  | _ => none

/-- What a computation came to, apart from the session that it left behind. -/
def outcome {α : Type} : EStateM.Result Fault Session α → Except Fault α
  | .ok a _ => .ok a
  | .error fault _ => .error fault

/-- What is seen after a line that ended as given. -/
def entry (ended : EStateM.Result Fault Session Outcome) : Entry where
  outcome := outcome ended
  names := (left ended).globalNames
  live := (left ended).store.live

/-- What is seen of a session that runs lines, if before the `i`-th one `chores i` are done. -/
def transcript (session : Session) (chores : Nat → List Chore) : List String → List Entry
  | [] => []
  | line :: lines =>
    let ended := execute line (session.afterChores (chores 0))
    entry ended :: (left ended).transcript (fun i => chores (i + 1)) lines

variable {a b : Session}

theorem Alike.refl (a : Session) : a.Alike a := ⟨.refl _, rfl, rfl⟩

theorem Alike.symm (alike : a.Alike b) : b.Alike a :=
  ⟨alike.store.symm, alike.globals.symm, alike.limit.symm⟩

theorem Alike.trans {c : Session} (alike : a.Alike b) (alike' : b.Alike c) : a.Alike c :=
  ⟨alike.store.trans alike'.store, alike.globals.trans alike'.globals,
    alike.limit.trans alike'.limit⟩

theorem Alike.globalNames (alike : a.Alike b) : a.globalNames = b.globalNames := by
  rw [Session.globalNames, Session.globalNames, alike.store.frame?, alike.globals]

/-! ## Chores -/

theorem alike_afterChore (a : Session) (chore : Chore) : a.Alike (a.afterChore chore) := by
  cases chore with
  | collect => exact ⟨Store.alike_collect _ _, rfl, rfl⟩
  | close => exact ⟨Store.alike_clear _, rfl, rfl⟩

theorem alike_afterChores (a : Session) (chores : List Chore) : a.Alike (a.afterChores chores) := by
  induction chores generalizing a with
  | nil => exact .refl a
  | cons chore chores ih => exact (alike_afterChore a chore).trans (ih _)

theorem alike_start (collectOnError collectOnError' : Bool) (limit : Nat) :
    (start collectOnError limit).Alike (start collectOnError' limit) := by
  obtain ⟨store, ended⟩ := Discipline.Lawful.makeGlobals_ok {}
  rw [start, start, ended]
  exact ⟨.refl _, rfl, rfl⟩

/-! ## Lines -/

theorem respects_onStore {α : Type} {action : StoreM α} (blind : StoreM.Blind action) :
    Respects Alike (onStore action) := by
  rintro ⟨s, globals, collectOnError, limit, journal⟩
    ⟨t, globals', collectOnError', limit', journal'⟩ ⟨stores, rfl, rfl⟩
  have matched := blind s t stores
  rw [onStore, onStore]
  dsimp only
  generalize action s = ended, action t = ended' at matched
  cases matched with
  | ok a stores' => exact .ok a ⟨stores', rfl, rfl⟩
  | error fault stores' => exact .error fault ⟨stores', rfl, rfl⟩

theorem alike_afterFailure (a : Session) : ∃ a', afterFailure a = .ok () a' ∧ a.Alike a' := by
  have collected : a.Alike (left (collect a)) := alike_afterChore a .collect
  have unfolded : afterFailure a = if a.collectOnError then (Functor.discard collect) a
      else .ok () a := by
    change (if a.collectOnError then Functor.discard collect else Pure.pure () :
      SessionM Unit) a = _
    split <;> rfl
  rw [unfolded]
  split
  · exact ⟨_, rfl, collected⟩
  · exact ⟨a, rfl, .refl a⟩

/-- Whether the session collects after a failure cannot be observed. -/
theorem respects_afterFailure : Respects Alike afterFailure := by
  intro a b alike
  obtain ⟨a', ended, left⟩ := alike_afterFailure a
  obtain ⟨b', ended', left'⟩ := alike_afterFailure b
  rw [ended, ended']
  exact .ok () (left.symm.trans (alike.trans left'))

theorem respects_attempt {α : Type} (deep : Error) {action : StoreM α}
    (blind : StoreM.Blind action) : Respects Alike (attempt deep action) := by
  have failed (e : Error) :
      Respects Alike (do afterFailure; throw (.error e) : SessionM α) :=
    respects_afterFailure.bind fun _ => .throw _
  intro a b alike
  have matched := respects_onStore blind a b alike
  rw [attempt, attempt]
  generalize onStore action a = ended, onStore action b = ended' at matched
  cases matched with
  | ok value alike' => exact .ok value alike'
  | error fault alike' =>
    cases fault with
    | tooDeep => exact failed deep _ _ alike'
    | error e => exact failed e _ _ alike'
    | literalTooLong | malformedToken | namelessParameter | endless => exact .error _ alike'

/-- How many values a collection finds dead can be observed, but nothing else of it. -/
theorem respects_discard_collect : Respects Alike (Functor.discard collect) := by
  intro a b alike
  exact .ok _ ((alike_afterChore a .collect).symm.trans (alike.trans (alike_afterChore b .collect)))

theorem respects_runExpression (expr : Ref) : Respects Alike (runExpression expr) := by
  refine .get (fun alike => by rw [alike.limit, alike.globals, depth, depth, alike.limit]) ?_
  intro session
  refine (respects_attempt _ (blind_valueText _ _ _ _)).bind fun text => ?_
  exact respects_discard_collect.bind fun _ => .pure text

theorem respects_run (line : String) : Respects Alike (run line) := by
  refine .get (fun alike => by rw [alike.limit]) fun session => ?_
  exact (respects_attempt _ (blind_readValue _ _)).bind fun expr => respects_runExpression expr

/-- Lines do not tell sessions apart that are alike. -/
theorem respects_execute (line : String) : Respects Alike (execute line) := by
  intro a b alike
  have matched := respects_run line a b alike
  rw [execute, execute]
  generalize run line a = ended, run line b = ended' at matched
  cases matched with
  | ok text alike' => exact .ok _ alike'
  | error fault alike' =>
    cases fault with
    | error e => exact .ok _ ⟨alike'.store, alike'.globals, alike'.limit⟩
    | tooDeep | literalTooLong | malformedToken | namelessParameter | endless =>
      exact .error _ alike'

theorem alike_left {α : Type} {alike : Session → Session → Prop}
    {ended ended' : EStateM.Result Fault Session α}
    (matched : Matches alike ended ended') : alike (left ended) (left ended') := by
  cases matched with
  | ok a alike => exact alike
  | error fault alike => exact alike

theorem outcome_eq {α : Type} {alike : Session → Session → Prop}
    {ended ended' : EStateM.Result Fault Session α}
    (matched : Matches alike ended ended') : outcome ended = outcome ended' := by
  cases matched with
  | ok a alike => rfl
  | error fault alike => rfl

/-! ## Registers -/

/-- What is registered after a collection is what can be reached from the global frame. -/
theorem mem_registry_of_collected (collected : registration.Collected a) (loc : Loc) :
    loc ∈ a.store.registry ↔ a.store.Reaches (.cell a.globals) (.cell loc) := by
  obtain ⟨s, closed, scope, store⟩ := collected
  rw [store]
  simpa [Store.isRegistered] using Store.Closed.isRegistered_collect closed scope (.cell loc)

/-- Registers that were just collected hold the same values in sessions that are alike. -/
theorem Alike.live (alike : a.Alike b) (holds : registration.Holds a)
    (holds' : registration.Holds b) (collected : registration.Collected a)
    (collected' : registration.Collected b) :
    a.store.live = b.store.live := by
  have members (loc : Loc) : loc ∈ a.store.registry ↔ loc ∈ b.store.registry := by
    rw [mem_registry_of_collected collected, mem_registry_of_collected collected', alike.globals]
    constructor
    · exact fun path => path.of_node? fun r => (congrFun alike.store.node? r).symm
    · exact fun path => path.of_node? fun r => congrFun alike.store.node? r
  have closed : a.store.Closed := holds.sound
  have closed' : b.store.Closed := holds'.sound
  exact ((List.perm_ext_iff_of_nodup closed.nodup closed'.nodup).2 members).length_eq

theorem holds_afterChores (holds : registration.Holds a) {chores : List Chore}
    (spared : .close ∉ chores) : registration.Holds (a.afterChores chores) := by
  induction chores generalizing a with
  | nil => exact holds
  | cons chore chores ih =>
    refine ih ?_ fun member => spared (by simp [member])
    cases chore with
    | collect => exact (Discipline.Lawful.collect collects_registration holds).left
    | close => exact absurd (by simp) spared

/-- After a line that comes to the same in two sessions, as many values are registered in both if it
succeeds, provided that registers which were just collected are of the same size. -/
theorem live?_of_matches {alike : Session → Session → Prop}
    (same : ∀ {a b : Session}, alike a b → registration.Holds a → registration.Holds b →
      registration.Collected a → registration.Collected b → a.store.live = b.store.live)
    (holds : registration.Holds a) (holds' : registration.Holds b) {line : String}
    (matched : Matches alike (execute line a) (execute line b)) :
    (entry (execute line a)).live? = (entry (execute line b)).live? := by
  have served := lawful_registration.execute collects_registration holds line
  have served' := lawful_registration.execute collects_registration holds' line
  generalize ended : execute line a = end₁, ended' : execute line b = end₂ at matched
  cases matched with
  | error fault behind => rfl
  | ok outcome behind =>
    cases outcome with
    | failed e => rfl
    | value text =>
      obtain ⟨holds₁, collected₁⟩ := served.ok ended
      obtain ⟨holds₂, collected₂⟩ := served'.ok ended'
      exact congrArg some (same behind holds₁ holds₂ (collected₁ text rfl) (collected₂ text rfl))

/-- After a line that succeeds, as many values are registered in sessions that are alike. -/
theorem live?_entry (alike : a.Alike b) (holds : registration.Holds a)
    (holds' : registration.Holds b) (line : String) :
    (entry (execute line a)).live? = (entry (execute line b)).live? :=
  live?_of_matches (fun alike => alike.live) holds holds' (respects_execute line a b alike)

/-! ## Transcripts -/

theorem Alike.afterChores (alike : a.Alike b) (chores chores' : List Chore) :
    (a.afterChores chores).Alike (b.afterChores chores') :=
  (alike_afterChores a chores).symm.trans (alike.trans (alike_afterChores b chores'))

theorem map_outcome_transcript (alike : a.Alike b) (chores chores' : Nat → List Chore)
    (lines : List String) :
    (a.transcript chores lines).map (fun entry => (entry.outcome, entry.names)) =
      (b.transcript chores' lines).map fun entry => (entry.outcome, entry.names) := by
  induction lines generalizing a b chores chores' with
  | nil => rfl
  | cons line lines ih =>
    have matched := respects_execute line _ _ (alike.afterChores (chores 0) (chores' 0))
    have behind := alike_left matched
    simp only [transcript, List.map_cons, entry, outcome_eq matched, behind.globalNames]
    rw [ih behind]

theorem map_live?_transcript (alike : a.Alike b) (holds : registration.Holds a)
    (holds' : registration.Holds b) {chores chores' : Nat → List Chore}
    (spared : ∀ i, .close ∉ chores i) (spared' : ∀ i, .close ∉ chores' i) (lines : List String) :
    (a.transcript chores lines).map Entry.live? = (b.transcript chores' lines).map Entry.live? := by
  induction lines generalizing a b chores chores' with
  | nil => rfl
  | cons line lines ih =>
    have before := alike.afterChores (chores 0) (chores' 0)
    have ready := holds_afterChores holds (spared 0)
    have ready' := holds_afterChores holds' (spared' 0)
    have behind := alike_left (respects_execute line _ _ before)
    have holds₁ := (lawful_registration.execute collects_registration ready line).left
    have holds₂ := (lawful_registration.execute collects_registration ready' line).left
    simp only [transcript, List.map_cons, live?_entry before ready ready' line]
    rw [ih behind holds₁ holds₂ (fun i => spared (i + 1)) (fun i => spared' (i + 1))]

end Session

/-- **Collections cannot be observed.**  Whether a session collects after failures, and which
collections and closings are done between its lines, does not show in what the lines come to, nor
in the names of the global frame behind each of them.  If the session is never closed, it does not
show in the number of registered values after lines that succeed either. -/
theorem transcript_chores (limit : Nat) (collectOnError collectOnError' : Bool)
    (chores chores' : Nat → List Session.Chore) (lines : List String) :
    let entries := (Session.start collectOnError limit).transcript chores lines
    let entries' := (Session.start collectOnError' limit).transcript chores' lines
    entries.map (fun entry => (entry.outcome, entry.names)) =
        entries'.map (fun entry => (entry.outcome, entry.names)) ∧
      ((∀ i, .close ∉ chores i) → (∀ i, .close ∉ chores' i) →
        entries.map Session.Entry.live? = entries'.map Session.Entry.live?) := by
  intro entries entries'
  have alike := Session.alike_start collectOnError collectOnError' limit
  refine ⟨Session.map_outcome_transcript alike chores chores' lines, fun spared spared' => ?_⟩
  exact Session.map_live?_transcript alike (registration_holds_start collectOnError limit)
    (registration_holds_start collectOnError' limit) spared spared' lines

end LittleScheme
