import LittleScheme.Proofs.Evaluation.Regime

/-!
# Disciplines of evaluation

If the elementary steps of evaluation keep a discipline, evaluation keeps it
(`Discipline.Lawful.evaluate`).  A discipline is the simple case of a regime: all references in hand
are values, nothing is fixed at any moment, and any fault may occur.
-/

namespace LittleScheme

namespace Discipline

/-! ## The elementary steps -/

/-- The steps at which evaluation looks into values, makes new ones and changes the store keep to
the discipline. -/
structure Lawful (d : Discipline) : Prop where
  nil : ∀ {s}, d.Value s .nil
  lookup : ∀ {s env name r}, d.Sound s → d.Scope s env → s.lookup? env name = some r → d.Value s r
  fields : ∀ {s r fields}, d.Sound s → d.Value s r → s.pair? r = some fields →
    d.Value s fields.1 ∧ d.Value s fields.2
  code : ∀ {s r params body captured}, d.Sound s → d.Value s r →
    s.node? r = some (.closure params body captured) →
    d.Results params s ∧ d.Results body s ∧ ∀ env ∈ captured, d.Captured s env
  /-- A new atom. -/
  atom : ∀ {s} (a : Atom), d.Sound s → d.Runs (make a.node) s d.Result
  /-- A new pair of values. -/
  pair : ∀ {s a b}, d.Sound s → d.Value s a → d.Value s b → d.Runs (make (.pair a b)) s d.Result
  /-- A new procedure. -/
  procedure : ∀ {s params body env}, d.Sound s → d.Results params s → d.Results body s →
    d.Scope s env → d.Runs (makeClosure params body (some env)) s d.Result
  /-- A copy that is not stored. -/
  copy : ∀ {s r} (depth : Nat), d.Sound s → d.Value s r → d.Runs (duplicate depth r) s d.Result
  /-- A name defined as a copy. -/
  define : ∀ {s r env} (depth : Nat) (name : String), d.Sound s → d.Value s r → d.Scope s env →
    d.Runs (duplicate depth r >>= LittleScheme.define env name) s fun _ _ => True
  /-- A name defined as a new procedure. -/
  defineProcedure : ∀ {s params body env} (name : String), d.Sound s → d.Results params s →
    d.Results body s → d.Scope s env →
    d.Runs (makeClosure params body (some env) >>= LittleScheme.define env name) s fun _ _ => True
  /-- A name defined as an operator. -/
  operator : ∀ {s env} (op : Op) (name : String), d.Sound s → d.Scope s env →
    d.Runs (make (.builtin op) >>= LittleScheme.define env name) s fun _ _ => True
  /-- A name assigned a copy. -/
  assign : ∀ {s r env} (depth : Nat) (name : String), d.Sound s → d.Value s r → d.Scope s env →
    d.Runs (duplicate depth r >>= LittleScheme.assign env name) s d.Result
  /-- A field of a pair replaced by a copy. -/
  replace : ∀ {s loc fields r} (depth : Nat) (field : Field), d.Sound s → d.Value s (.cell loc) →
    s.pair? (.cell loc) = some fields → d.Value s r → r ≠ .cell loc →
    d.Runs (duplicate depth r >>= fun value => overwrite loc (field.set value fields)) s
      fun _ _ => True
  /-- A field of a pair replaced by the pair itself. -/
  tie : ∀ {s loc fields} (field : Field), d.Sound s → d.Value s (.cell loc) →
    s.pair? (.cell loc) = some fields →
    d.Runs (overwrite loc (field.set (.cell loc) fields)) s fun _ _ => True
  /-- The frame of a call. -/
  enter : ∀ {s captured params values} {engine : Engine} (depth : Nat),
    engine.copy = duplicate depth → d.Sound s → (∀ env ∈ captured, d.Captured s env) →
    d.Results values s →
    d.Runs (engine.enterCall params values captured) s fun inner s' => d.Scope s' inner

/-! ## Disciplines as regimes -/

/-- All that is in hand is as the discipline asks. -/
structure Has (d : Discipline) (s : Store) (hand : Hand) : Prop where
  exprs : d.Results hand.exprs s
  values : d.Results hand.values s
  calls : ∀ call ∈ hand.calls, d.Results call.params s ∧ d.Results call.body s ∧
    ∀ env ∈ call.captured, d.Captured s env
  scopes : ∀ env ∈ hand.scopes, d.Scope s env

/-- The regime of the stores that the discipline leads to from `base`.  Nothing is known between a
copy and its storing, so there must be no stop. -/
def regime (d : Discipline) (base : Store) : Regime where
  Admits watch := ∀ copy s, watch (.copied copy) s = false
  Holds s hand := d.Keeps base s ∧ d.Has s hand
  Since _ _ := True
  Fails _ := True
  weaken within holds := ⟨holds.1, fun r member => holds.2.exprs r (within.exprs.subset member),
    fun r member => holds.2.values r (within.values member),
    fun call member => holds.2.calls call (within.calls member),
    fun env member => holds.2.scopes env (within.scopes member)⟩
  refl _ := trivial
  trans _ _ := trivial

variable {d : Discipline} {base s s' : Store} {hand : Hand}

theorem Has.keep (has : d.Has s hand) (kept : d.Keeps s s') : d.Has s' hand where
  exprs := kept.values has.exprs
  values := kept.values has.values
  calls call member := by
    obtain ⟨params, body, captured⟩ := has.calls call member
    exact ⟨kept.values params, kept.values body, fun env h => kept.captured (captured env h)⟩
  scopes env member := kept.scope (has.scopes env member)

theorem Has.gain (has : d.Has s hand) {rs : List Ref} (values : d.Results rs s) :
    d.Has s (hand.gain rs) :=
  { has with
    values := fun r member => (List.mem_append.1 member).elim (values r) (has.values r) }

theorem Has.expect (has : d.Has s hand) {es : List Ref} (values : d.Results es s) :
    d.Has s (hand.expect es) :=
  { has with
    exprs := fun r member => (List.mem_append.1 member).elim (values r) (has.exprs r) }

theorem Has.of_expect {es : List Ref} (has : d.Has s (hand.expect es)) :
    d.Has s hand ∧ d.Results es s :=
  ⟨{ has with exprs := fun r member => has.exprs r (List.mem_append_right _ member) },
    fun r member => has.exprs r (List.mem_append_left _ member)⟩

/-- What keeps to a discipline keeps to its regime. -/
theorem Runs.does {α : Type} {action : StoreM α} {post : α → Store → Prop}
    (runs : d.Runs action s post) (holds : (d.regime base).Holds s hand) :
    (d.regime base).Does action s fun a s' => (d.regime base).Holds s' hand ∧ post a s' := by
  refine ⟨fun ended => ?_, fun ended => ?_, .inl rfl⟩
  · obtain ⟨kept, asked⟩ := runs.ok ended
    exact ⟨trivial, ⟨holds.1.trans kept, holds.2.keep kept⟩, asked⟩
  · exact ⟨trivial, Regime.empty (R := d.regime base)
      ⟨holds.1.trans (runs.error ended), holds.2.keep (runs.error ended)⟩, trivial⟩

theorem Runs.yields {action : StoreM Ref} (runs : d.Runs action s d.Result)
    (holds : (d.regime base).Holds s hand) :
    (d.regime base).Does action s ((d.regime base).Yields hand) :=
  (runs.does holds).imp fun r _ ⟨holds', value⟩ =>
    ⟨holds'.1, holds'.2.gain fun r' member => by rwa [List.mem_singleton.1 member]⟩

/-- A regime of a lawful discipline is lawful. -/
theorem Lawful.regime (law : d.Lawful) (base : Store) : (d.regime base).Lawful where
  ordinary _ := trivial
  unbound _ _ := trivial
  endless _ _ _ := trivial
  stuck _ _ := trivial
  settle holds := ⟨holds.1, holds.2.of_expect.1.gain holds.2.of_expect.2⟩
  split holds found := by
    obtain ⟨has, values⟩ := holds.2.of_expect
    obtain ⟨first, second⟩ := law.fields holds.1.sound (values _ (by simp)) found
    exact ⟨holds.1, has.expect (by simp [Results, first, second])⟩
  nil holds := ⟨holds.1, holds.2.gain (by simp [Results, law.nil])⟩
  lookup holds scope found := by
    have value := law.lookup holds.1.sound (holds.2.scopes _ scope) found
    exact ⟨holds.1, holds.2.gain (by simp [Results, value])⟩
  fields holds member found := by
    obtain ⟨first, second⟩ := law.fields holds.1.sound (holds.2.values _ member) found
    exact ⟨holds.1, holds.2.gain (by simp [Results, first, second])⟩
  code holds member found := by
    have code := law.code holds.1.sound (holds.2.values _ member) found
    exact ⟨holds.1, { holds.2 with
      calls := fun call member => (List.mem_cons.1 member).elim (fun same => same ▸ code)
        (holds.2.calls call) }⟩
  perform _ _ _ := trivial
  atom a _ holds := (law.atom a holds.1.sound).yields holds
  pair holds first second :=
    (law.pair holds.1.sound (holds.2.values _ first) (holds.2.values _ second)).yields holds
  procedure holds _ scope := by
    obtain ⟨has, code⟩ := holds.2.of_expect
    obtain ⟨params, body⟩ := List.forall_mem_append.1 code
    exact (law.procedure holds.1.sound params body (has.scopes _ scope)).yields ⟨holds.1, has⟩
  copy depth ordered holds member := by
    rw [duplicateUntil_eq ordered.admits, duplicateUntil_eq ordered.admits']
    exact (law.copy depth holds.1.sound (holds.2.values _ member)).yields holds
  define depth name _ ordered holds member scope := by
    rw [duplicateUntil_eq ordered.admits, duplicateUntil_eq ordered.admits']
    exact ((law.define depth name holds.1.sound (holds.2.values _ member)
      (holds.2.scopes _ scope)).does holds).imp fun _ _ asked => asked.1
  defineProcedure name _ holds _ scope := by
    obtain ⟨has, code⟩ := holds.2.of_expect
    obtain ⟨params, body⟩ := List.forall_mem_append.1 code
    have runs := law.defineProcedure name holds.1.sound params body (has.scopes _ scope)
    exact (runs.does ⟨holds.1, has⟩).imp fun _ _ asked => asked.1
  assign depth name _ ordered holds _ member scope := by
    rw [duplicateUntil_eq ordered.admits, duplicateUntil_eq ordered.admits']
    exact (law.assign depth name holds.1.sound (holds.2.values _ member)
      (holds.2.scopes _ scope)).yields holds
  replace depth field _ ordered holds pair found member different := by
    rw [duplicateUntil_eq ordered.admits, duplicateUntil_eq ordered.admits']
    exact ((law.replace depth field holds.1.sound (holds.2.values _ pair) found
      (holds.2.values _ member) different).does holds).imp fun _ _ asked => asked.1
  tie field _ holds pair found :=
    ((law.tie field holds.1.sound (holds.2.values _ pair) found).does holds).imp
      fun _ _ asked => asked.1
  enter depth ordered copy copy' holds called values := by
    rw [duplicateUntil_eq ordered.admits] at copy
    rw [duplicateUntil_eq ordered.admits'] at copy'
    obtain ⟨_, _, captured⟩ := holds.2.calls _ called
    have results : d.Results _ _ := fun r member => holds.2.values r (values member)
    rw [Engine.enterCall, copy, ← copy', ← Engine.enterCall]
    refine ((law.enter depth copy' holds.1.sound captured results).does holds).imp ?_
    rintro inner s' ⟨holds', scope⟩
    exact ⟨holds'.1, { holds'.2 with
      scopes := fun env member => (List.mem_cons.1 member).elim (fun same => same ▸ scope)
        (holds'.2.scopes env) }⟩
  unfold depth ordered holds called := by
    rw [duplicateUntil_eq ordered.admits, duplicateUntil_eq ordered.admits']
    obtain ⟨_, body, _⟩ := holds.2.calls _ called
    have runs := Runs.copyEach (fun _ _ => trivial)
      (fun sound _ value => law.copy depth sound value) holds.1.sound trivial body
    exact (runs.does holds).imp fun _ _ asked => ⟨asked.1.1, asked.1.2.expect asked.2⟩

/-- Evaluation keeps to a lawful discipline, within any budget. -/
theorem Lawful.evaluate (law : d.Lawful) (budget : Nat) (sound : d.Sound s) {expr : Ref} {env : Loc}
    (value : d.Value s expr) (scope : d.Scope s env) :
    d.Runs (LittleScheme.evaluate budget expr env) s d.Result := by
  have holds : (d.regime s).Holds s (Hand.expect { scopes := [env] } [expr]) :=
    ⟨.refl sound, by simpa [Results, Hand.expect] using value, by simp [Results, Hand.expect],
      by simp [Hand.expect], by simpa [Hand.expect] using scope⟩
  have runs := (law.regime s).evaluate (fun _ _ => rfl) budget holds (List.mem_cons_self ..)
  constructor
  · intro r s' ended
    obtain ⟨kept, has⟩ := (runs.ok ended).2
    exact ⟨kept, has.values r (by simp)⟩
  · intro fault s' ended
    exact (runs.error ended).2.1.1

end Discipline

end LittleScheme
