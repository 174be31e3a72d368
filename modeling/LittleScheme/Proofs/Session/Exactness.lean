import LittleScheme.Proofs.Session.Discipline
import LittleScheme.Proofs.Store.Collection
import LittleScheme.Proofs.Store.Registration

/-!
# Collections are exact

Between any two actions of a session, everything that can be reached from the global frame or from a
registered value is registered, and the number of registered values is the number of values ever
registered less those found dead.  Lines that fail leave registered values behind that nothing leads
to; after a line that succeeds, and after a collection, there are none.
-/

namespace LittleScheme

namespace Store

/-- What can be reached from a registered value is registered. -/
theorem Closed.knows_of_reaches {s : Store} (closed : s.Closed) {r r' : Ref} (known : s.Knows r)
    (path : s.Reaches r r') : s.Knows r' := by
  induction path with
  | refl => exact known
  | @step r' c node _ found child ih =>
    cases r' with
    | nil => simp at found
    | cell loc => exact closed.children loc (ih loc rfl) node found c child

theorem isRegistered_iff {s : Store} {r : Ref} :
    s.isRegistered r = true ↔ r ≠ .nil ∧ s.Knows r := by
  cases r with
  | nil => simp [isRegistered]
  | cell loc => simp [isRegistered]

/-- After a collection of a closed register, the registered values are those that can be reached
from the root. -/
theorem Closed.isRegistered_collect {s : Store} (closed : s.Closed) {env : Loc}
    (scope : env ∈ s.registry) (r : Ref) :
    (s.collect (.cell env)).2.isRegistered r = true ↔
      r ≠ .nil ∧ (s.collect (.cell env)).2.Reaches (.cell env) r := by
  have exist : ∀ loc ∈ s.registry, ∃ node, s.node? (.cell loc) = some node :=
    fun loc member => exists_node? (closed.exist loc member)
  have registered : ∀ r, s.Reaches (.cell env) r → r ≠ .nil → s.isRegistered r = true :=
    fun r path ne => isRegistered_iff.2 ⟨ne, closed.knows_of_reaches (knows_cell.2 scope) path⟩
  have same : ∀ r, (s.collect (.cell env)).2.node? r = s.node? r := node?_collect s _
  rw [isRegistered_collect_iff exist registered]
  constructor
  · rintro ⟨ne, path⟩
    exact ⟨ne, path.of_node? same⟩
  · rintro ⟨ne, path⟩
    exact ⟨ne, path.of_node? fun r => (same r).symm⟩

/-- A collection leaves a closed register closed. -/
theorem Closed.collect {s : Store} (closed : s.Closed) {env : Loc} (scope : env ∈ s.registry) :
    (s.collect (.cell env)).2.Closed := by
  have registered := closed.isRegistered_collect scope
  have fewer : (s.collect (.cell env)).2.registry.Sublist s.registry := by
    rw [registry_collect]
    exact List.filter_sublist
  have reached : ∀ {loc : Loc}, loc ∈ (s.collect (.cell env)).2.registry ↔
      (s.collect (.cell env)).2.Reaches (.cell env) (.cell loc) := by
    intro loc
    simpa [isRegistered] using registered (.cell loc)
  constructor
  · intro loc member
    obtain ⟨node, found⟩ := exists_node? (closed.exist loc (fewer.subset member))
    exact lt_size (by rw [node?_collect]; exact found)
  · intro loc member node found c child loc' eq
    subst eq
    exact reached.2 (.step (reached.1 member) found child)
  · exact closed.nodup.sublist fewer
  · obtain ⟨live, allocations⟩ := live_collect s (.cell env)
    rw [live, closed.count, allocations]

end Store

/-- Collections keep registers closed. -/
theorem collects_registration : registration.Collects := by
  intro s env closed scope
  refine ⟨Store.Closed.collect closed scope, ?_⟩
  have registered := (Store.Closed.isRegistered_collect closed scope (.cell env)).2
    ⟨by simp, .refl⟩
  simpa [registration, Store.isRegistered] using registered

/-- The register of a new session is closed, and holds its global frame. -/
theorem registration_holds_start (collectOnError : Bool) (limit : Nat) :
    registration.Holds (Session.start collectOnError limit) := by
  refine lawful_registration.holds_start ?_ collectOnError limit
  have closed : ({} : Store).Closed := ⟨by simp, by simp, by simp, rfl⟩
  exact registration.allocate closed (by simp [Node.children])

/-- The register of a session.  At every moment between two actions, all that can be reached from
the global frame or from a registered value is registered, and `live` is the number of values ever
registered less those found dead.  After a line that succeeds and after a collection, a value is
registered exactly if it can be reached from the global frame. -/
theorem registered_iff_reaches_after (collectOnError : Bool) (limit : Nat)
    (actions : List Session.Action) :
    let session := (Session.start collectOnError limit).afterAll actions
    (∀ r, session.store.Reaches (.cell session.globals) r → r ≠ .nil →
        session.store.isRegistered r = true) ∧
      (∀ r r', session.store.isRegistered r = true → session.store.Reaches r r' → r' ≠ .nil →
        session.store.isRegistered r' = true) ∧
      (session.store.registry.Nodup ∧ session.store.reclaimed ≤ session.store.allocations ∧
        session.store.live = session.store.allocations - session.store.reclaimed) ∧
      ∀ action, session.Succeeds action → ∀ r,
        ((session.after action).store.isRegistered r = true ↔
          r ≠ .nil ∧
            (session.after action).store.Reaches (.cell (session.after action).globals) r) := by
  intro session
  have holds : registration.Holds session :=
    lawful_registration.holds_afterAll collects_registration
      (registration_holds_start collectOnError limit) actions
  have closed : session.store.Closed := holds.sound
  refine ⟨?_, ?_, ?_, ?_⟩
  · intro r path ne
    exact Store.isRegistered_iff.2
      ⟨ne, closed.knows_of_reaches (Store.knows_cell.2 holds.scope) path⟩
  · intro r r' registered path ne
    exact Store.isRegistered_iff.2
      ⟨ne, closed.knows_of_reaches (Store.isRegistered_iff.1 registered).2 path⟩
  · have count := closed.count
    exact ⟨closed.nodup, by omega, by omega⟩
  · intro action succeeds r
    obtain ⟨s, closed', scope, collected⟩ :=
      lawful_registration.collected_after collects_registration holds succeeds
    rw [collected]
    exact Store.Closed.isRegistered_collect closed' scope r

end LittleScheme
