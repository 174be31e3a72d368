import LittleScheme.Proofs.Evaluation.Renaming
import LittleScheme.Proofs.Session.Custody
import Mathlib.Data.List.Nodup

/-!
# Sessions up to the names of cells

One session is found in another if its store is, and if the global frames correspond.  The same
line, run in both of them, comes to the same outcome, text or error, and leaves sessions behind of
which one is found in the other again.

The names of the global frame are the same in both sessions.  Behind a line that succeeds, so is the
number of registered values: the registers hold what can be reached from the global frames, and what
can be reached in one store corresponds to what can be reached in the other.
-/

namespace LittleScheme

/-! ## What can be reached -/

namespace Store

variable {s t : Store} {f : Loc → Loc} {r r' : Ref}

theorem Reaches.rename (renamed : s.Renamed f t) (path : s.Reaches r r') :
    t.Reaches (r.rename f) (r'.rename f) := by
  induction path with
  | refl => exact .refl
  | step _ found child ih =>
    refine .step ih ((renamed.node? _).trans (congrArg _ found)) ?_
    rw [Node.children_rename]
    exact List.mem_map_of_mem child

theorem Renamed.exists_reaches (renamed : s.Renamed f t) (path : t.Reaches (r.rename f) r') :
    ∃ q, r' = q.rename f ∧ s.Reaches r q := by
  induction path with
  | refl => exact ⟨r, rfl, .refl⟩
  | step _ found child ih =>
    obtain ⟨q, rfl, path⟩ := ih
    rw [renamed.node?] at found
    obtain ⟨node, here, rfl⟩ := Option.map_eq_some_iff.1 found
    rw [Node.children_rename] at child
    obtain ⟨c, member, rfl⟩ := List.mem_map.1 child
    exact ⟨c, rfl, .step path here member⟩

end Store

namespace Session

/-- The session `a` is found in `b`. -/
structure Renamed (f : Loc → Loc) (a b : Session) : Prop where
  store : a.store.Renamed f b.store
  globals : b.globals = f a.globals
  exist : a.globals < a.store.size
  limit : b.limit = a.limit

/-- Both parts of a line have come to the same end, and the session that one of them has left behind
is found in that of the other.  The results correspond as `g` says, the first one being as asked. -/
inductive TracksLine (f : Loc → Loc) {α β : Type} (g : α → β) (post : α → Store → Prop) :
    EStateM.Result Fault Session α → EStateM.Result Fault Session β → Prop
  | ok {x : α} {y : β} {a b : Session} (renamed : a.Renamed f b) (asked : post x a.store)
    (same : y = g x) : TracksLine f g post (.ok x a) (.ok y b)
  | error {fault : Fault} {a b : Session} (renamed : a.Renamed f b) :
    TracksLine f g post (.error fault a) (.error fault b)

variable {f : Loc → Loc} {a b : Session}

theorem Renamed.of_alike (renamed : a.Renamed f b) {a' b' : Session} (alike : a.Alike a')
    (alike' : b.Alike b') : a'.Renamed f b' where
  store := renamed.store.congr (fun r => (congrFun alike.store.node? r).symm)
    fun r => (congrFun alike'.store.node? r).symm
  globals := by rw [← alike.globals, ← alike'.globals, renamed.globals]
  exist := by
    rw [← alike.globals, ← alike.store.size]
    exact renamed.exist
  limit := by rw [← alike.limit, ← alike'.limit, renamed.limit]

/-! ## Lines -/

namespace TracksLine

variable {α α' β β' : Type} {g : α → α'} {h : β → β'} {post : α → Store → Prop}
  {post' : β → Store → Prop}

theorem bind {action : SessionM α} {action' : SessionM α'} {next : α → SessionM β}
    {next' : α' → SessionM β'} (first : TracksLine f g post (action a) (action' b))
    (second : ∀ x a' b', a'.Renamed f b' → post x a'.store →
      TracksLine f h post' (next x a') (next' (g x) b')) :
    TracksLine f h post' ((action >>= next) a) ((action' >>= next') b) := by
  generalize ended : action a = end₁, ended' : action' b = end₂ at first
  cases first with
  | ok renamed asked same =>
    rw [bind_of_ok ended, bind_of_ok ended', same]
    exact second _ _ _ renamed asked
  | error renamed =>
    rw [bind_of_error ended, bind_of_error ended']
    exact .error renamed

/-- What is done to both stores as part of a line. -/
theorem attempt (renamed : a.Renamed f b) (deep : Error) {action : StoreM α} {action' : StoreM α'}
    (tracks : Tracks f a.store.size g post (action a.store) (action' b.store)) :
    TracksLine f g post (Session.attempt deep action a) (Session.attempt deep action' b) := by
  have withStores {s t : Store} (stores : s.Renamed f t) (grown : a.store.size ≤ s.size) :
      Renamed f { a with store := s } { b with store := t } :=
    ⟨stores, renamed.globals, Nat.lt_of_lt_of_le renamed.exist grown, renamed.limit⟩
  generalize ended : action a.store = end₁, ended' : action' b.store = end₂ at tracks
  cases tracks with
  | ok stores grown asked same =>
    rw [attempt_of_ok deep ended, attempt_of_ok deep ended']
    exact .ok (withStores stores grown) asked same
  | error stores grown =>
    obtain ⟨a', failed, alike⟩ := attempt_of_error deep ended
    obtain ⟨b', failed', alike'⟩ := attempt_of_error deep ended'
    rw [failed, failed']
    exact .error ((withStores stores grown).of_alike alike alike')

end TracksLine

namespace Renamed

variable (renamed : a.Renamed f b)
include renamed

theorem tracks_runExpression {expr : Ref} (has : a.store.Has expr) :
    TracksLine f id (fun _ _ => True) (runExpression expr a)
      (runExpression (expr.rename f) b) := by
  have unfolded (expr : Ref) (session : Session) : runExpression expr session =
      (attempt .recursionTooDeep (valueText session.limit session.depth session.globals expr) >>=
        fun text => discard collect >>= fun _ => Pure.pure text) session := rfl
  have depth : b.depth = a.depth := by rw [Session.depth, Session.depth, renamed.limit]
  rw [unfolded, unfolded, renamed.globals, renamed.limit, depth]
  refine (TracksLine.attempt renamed .recursionTooDeep
    (tracks_valueText a.limit a.depth renamed.store has renamed.exist)).bind ?_
  intro text a' b' behind _
  exact .ok (behind.of_alike (alike_afterChore _ .collect) (alike_afterChore _ .collect)) trivial
    rfl

theorem tracks_run (line : String) :
    TracksLine f id (fun _ _ => True) (run line a) (run line b) := by
  have unfolded (session : Session) : run line session =
      (attempt .nestingTooDeep (readValue session.limit line) >>= runExpression) session := rfl
  rw [unfolded, unfolded, renamed.limit]
  refine (TracksLine.attempt renamed .nestingTooDeep
    (tracks_readValue a.limit line renamed.store)).bind ?_
  intro expr a' b' behind has
  exact behind.tracks_runExpression has

/-- The same line comes to the same in both sessions. -/
theorem execute (line : String) :
    Matches (Renamed f) (execute line a) (execute line b) := by
  have tracks := renamed.tracks_run line
  rw [Session.execute, Session.execute]
  generalize ended : run line a = end₁, ended' : run line b = end₂ at tracks
  cases tracks with
  | ok behind _ same =>
    subst same
    exact .ok _ behind
  | @error fault _ _ behind =>
    cases fault with
    | error e => exact .ok _ ⟨behind.store, behind.globals, behind.exist, behind.limit⟩
    | tooDeep | literalTooLong | malformedToken | namelessParameter | endless =>
      exact .error _ behind

/-! ## What is seen of the sessions -/

theorem globalNames : a.globalNames = b.globalNames := by
  rw [Session.globalNames, Session.globalNames, renamed.globals, renamed.store.frame?]
  cases a.store.frame? a.globals with
  | none => rfl
  | some frame => exact frame.brief_rename.symm

/-- Registers that were just collected hold what corresponds. -/
theorem live (holds : registration.Holds a) (holds' : registration.Holds b)
    (collected : registration.Collected a) (collected' : registration.Collected b) :
    a.store.live = b.store.live := by
  have members (loc : Loc) : loc ∈ b.store.registry ↔ loc ∈ a.store.registry.map f := by
    rw [mem_registry_of_collected collected', renamed.globals, ← Ref.rename_cell, List.mem_map]
    constructor
    · intro path
      obtain ⟨q, eq, path'⟩ := renamed.store.exists_reaches path
      cases q with
      | nil => cases eq
      | cell loc' =>
        cases eq
        exact ⟨loc', (mem_registry_of_collected collected loc').2 path', rfl⟩
    · rintro ⟨loc', member, rfl⟩
      exact ((mem_registry_of_collected collected loc').1 member).rename renamed.store
  have closed : a.store.Closed := holds.sound
  have closed' : b.store.Closed := holds'.sound
  have distinct := List.Nodup.map renamed.store.injective closed.nodup
  have same := ((List.perm_ext_iff_of_nodup closed'.nodup distinct).2 members).length_eq
  rw [Store.live, Store.live, same, List.length_map]

/-- After a line that succeeds, as many values are registered in both sessions. -/
theorem live?_entry (holds : registration.Holds a) (holds' : registration.Holds b)
    (line : String) :
    (entry (Session.execute line a)).live? = (entry (Session.execute line b)).live? :=
  live?_of_matches (fun renamed => renamed.live) holds holds' (renamed.execute line)

end Renamed

/-! ## New sessions -/

theorem tracks_installOperators {s t : Store} {env : Loc} (stores : s.Renamed f t) (ops : List Op) :
    TracksSame f s.size (installOperators env ops s) (installOperators (f env) ops t) := by
  induction ops generalizing s t with
  | nil => exact .pure stores trivial
  | cons op ops ih =>
    refine (tracks_make (.builtin op) stores (by simp [Node.children, Store.HasAll])).bind ?_
    intro r s₁ t₁ stores₁ _ has
    refine (tracks_define stores₁ env op.name has).bind ?_
    intro _ s₂ t₂ stores₂ _ _
    exact ih stores₂

theorem tracks_makeGlobals {s t : Store} (stores : s.Renamed f t) :
    TracksLoc f s.size (makeGlobals s) (makeGlobals t) := by
  refine (tracks_allocate (.environment {}) stores
    (by simp [Node.children, Store.HasAll])).bind ?_
  rintro _ _ t₁ stores₁ - ⟨rfl, rfl⟩
  refine (tracks_installOperators stores₁ Op.all).bind ?_
  intro _ s₂ t₂ stores₂ grown₂ _
  exact .pure stores₂ (Nat.lt_of_lt_of_le (by simp) grown₂)

/-- A new session is found in itself. -/
theorem renamed_start (collectOnError : Bool) (limit : Nat) :
    (start collectOnError limit).Renamed id (start collectOnError limit) := by
  have vacant (r : Ref) : Store.node? {} r = none := by cases r <;> rfl
  have tidy : Store.Tidy {} := by
    constructor
    · intro r node found
      simp [vacant] at found
    · intro loc frame around found
      simp [Store.frame?, vacant] at found
  obtain ⟨store, ended⟩ := Discipline.Lawful.makeGlobals_ok {}
  have tracks := tracks_makeGlobals tidy.renamed
  rw [ended] at tracks
  rw [start, ended]
  cases tracks with
  | ok stores _ exist _ => exact ⟨stores, rfl, exist, rfl⟩

end Session

end LittleScheme
