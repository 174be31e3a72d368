import LittleScheme.Evaluation.Evaluate
import LittleScheme.Proofs.Evaluation.Arithmetic
import LittleScheme.Proofs.Fault
import LittleScheme.Proofs.Store.Extension
import LittleScheme.Store.Build
import Mathlib.Data.List.Perm.Subperm

/-!
# Regimes

While it runs, an evaluation has a number of references *in hand*: expressions that are still to be
evaluated, values, procedures that are being called, and the frames it works in.  Values stay in
hand once they are there.  An expression does not: it is evaluated once, and with that it is taken
apart, or turned into a value as a whole, or made into the code of a procedure.

A *regime* says what holds of a store while a computation has something in hand, what one moment of
a computation fixes for all later ones, and with which faults a computation may stop.  Evaluation is
one recursion through the evaluator, the forms, the primitives and the calls of procedures.  It is
gone through once, here: a regime that the elementary steps keep is kept by evaluation as a whole.
The elementary steps are those at which the store changes; where a value is copied in order to be
stored, the copy and the storing are one step, since what the copy is like is known only until
something else happens.

The moments at which an evaluation inside of another begins or ends, and those at which a copy has
been made, are shown by a *watch*, which stops the whole evaluation at the first moment that it
waits for.  A watch may look at the store, so it can single out the moment at which the store is in
a given state.  Two watches, of which one waits for more, give two moments, the earlier one and the
later one.

## Main definitions

* `Hand` — what a computation has in hand.
* `Regime` — what holds of a store, what moments fix, and the faults that may occur.
* `Regime.Runs` — a computation keeps to a regime, and so does a watched one on the way.
* `Regime.Ordered` — two watches, of which the first waits for more.
* `Regime.Lawful` — the elementary steps keep to a regime.
* `Moment`, `Watch`, `evaluateUntil` — evaluation under a watch.

## Main statements

* `evaluateUntil_never` — evaluation is evaluation under a watch that waits for nothing.
* `Regime.Lawful.evaluateUntil` — evaluation keeps to a lawful regime at every moment.
-/

namespace LittleScheme

/-- Nodes that an expression can be made of. -/
def Node.isCode : Node → Bool
  | .integer _ | .boolean _ | .symbol _ | .pair _ _ => true
  | .environment _ | .builtin _ | .closure _ _ _ => false

/-- Atoms that evaluation makes: booleans, and integers in range. -/
def Atom.IsComputed : Atom → Prop
  | .integer value => Integer64.InRange value
  | .boolean _ => True
  | .symbol _ => False

/-- Parameters are bound to some of the values, in their order. -/
theorem parameterBindings_sublist (s : Store) (params values : List Ref) :
    ((Engine.parameterBindings s params values).map (·.2)).Sublist values := by
  rw [Engine.parameterBindings]
  induction params generalizing values with
  | nil => simp
  | cons param params ih =>
    cases values with
    | nil => simp
    | cons value values =>
      cases named : s.symbolName? param with
      | none => simpa [named] using (ih values).cons value
      | some name => simpa [named] using ih values

/-! ## What a computation has in hand -/

/-- A procedure that is being called. -/
structure Call where
  params : List Ref
  body : List Ref
  captured : Option Loc

/-- What a computation has in hand. -/
structure Hand where
  /-- Expressions that are still to be evaluated, each of them once. -/
  exprs : List Ref := []
  /-- Values, which may be used any number of times. -/
  values : List Ref := []
  /-- Procedures that are being called. -/
  calls : List Call := []
  /-- Frames in which expressions are evaluated. -/
  scopes : List Loc := []

namespace Hand

/-- More expressions are to be evaluated, before all others. -/
def expect (hand : Hand) (exprs : List Ref) : Hand := { hand with exprs := exprs ++ hand.exprs }

/-- More values are there. -/
def gain (hand : Hand) (values : List Ref) : Hand := { hand with values := values ++ hand.values }

/-- One more procedure is being called. -/
def call (hand : Hand) (call : Call) : Hand := { hand with calls := call :: hand.calls }

/-- One more frame is there to work in. -/
def enter (hand : Hand) (env : Loc) : Hand := { hand with scopes := env :: hand.scopes }

section Parts

variable (hand : Hand) (exprs exprs' values values' : List Ref) (env : Loc)

theorem expect_expect : (hand.expect exprs).expect exprs' = hand.expect (exprs' ++ exprs) := by
  simp [expect]

theorem gain_gain : (hand.gain values).gain values' = hand.gain (values' ++ values) := by
  simp [gain]

@[simp] theorem mem_values_gain {r : Ref} :
    r ∈ (hand.gain values).values ↔ r ∈ values ∨ r ∈ hand.values :=
  List.mem_append

@[simp] theorem values_expect : (hand.expect exprs).values = hand.values := rfl

@[simp] theorem scopes_gain : (hand.gain values).scopes = hand.scopes := rfl

@[simp] theorem mem_scopes_enter {loc : Loc} :
    loc ∈ (hand.enter env).scopes ↔ loc = env ∨ loc ∈ hand.scopes :=
  List.mem_cons

end Parts

/-- All of the one is in the other, and no expression more often. -/
structure Within (small large : Hand) : Prop where
  exprs : small.exprs.Subperm large.exprs
  values : small.values ⊆ large.values
  calls : small.calls ⊆ large.calls
  scopes : small.scopes ⊆ large.scopes

variable {hand : Hand}

theorem Within.refl (hand : Hand) : hand.Within hand :=
  ⟨.refl _, List.Subset.refl _, List.Subset.refl _, List.Subset.refl _⟩

theorem within_of_values {values values' : List Ref} (subset : values' ⊆ values) :
    Within { hand with values := values' } { hand with values } :=
  { Within.refl { hand with values := values } with values := subset }

theorem within_of_exprs {exprs exprs' : List Ref} (subperm : exprs'.Subperm exprs) :
    Within { hand with exprs := exprs' } { hand with exprs } :=
  { Within.refl { hand with exprs := exprs } with exprs := subperm }

end Hand

/-! ## Moments -/

/-- Moments of an evaluation. -/
inductive Moment
  /-- An expression is about to be evaluated in a scope. -/
  | before (expr : Ref) (env : Loc)
  /-- An expression has been evaluated in a scope. -/
  | behind (expr : Ref) (env : Loc)
  /-- A copy has been made. -/
  | copied (copy : Ref)

/-- The moments that are waited for; it may depend on the store whether they are. -/
abbrev Watch := Moment → Store → Bool

/-- Wait for nothing. -/
def Watch.never : Watch := fun _ _ => false

/-- Stop if this moment is waited for. -/
def pause (watch : Watch) (moment : Moment) : StoreM Unit := do
  if watch moment (← get) then throw .tooDeep

/-- Copy a value, but stop behind it if that is waited for. -/
def duplicateUntil (watch : Watch) (depth : Nat) (r : Ref) : StoreM Ref := do
  let copy ← duplicate depth r
  pause watch (.copied copy)
  return copy

theorem pause_eq (watch : Watch) (moment : Moment) (s : Store) :
    pause watch moment s = if watch moment s then .error .tooDeep s else .ok () s := by
  change (if watch moment s then (throw .tooDeep : StoreM Unit) else pure ()) s = _
  split <;> rfl

/-- What is not waited for does not show. -/
theorem duplicateUntil_eq {watch : Watch} (never : ∀ copy s, watch (.copied copy) s = false)
    (depth : Nat) : duplicateUntil watch depth = duplicate depth := by
  have idle (copy : Ref) : pause watch (.copied copy) = pure () := by
    funext s
    rw [pause_eq, never]
    rfl
  funext r
  simp [duplicateUntil, idle]

theorem duplicate_of_until {watch : Watch} {depth : Nat} {r c : Ref} {s s' : Store}
    (ended : duplicateUntil watch depth r s = .ok c s') : duplicate depth r s = .ok c s' := by
  obtain ⟨copy, s₁, copied, rest⟩ := StoreM.exists_of_bind ended
  obtain ⟨_, s₂, paused, rest⟩ := StoreM.exists_of_bind rest
  cases rest
  rw [pause_eq] at paused
  split at paused
  · cases paused
  · cases paused
    exact copied

/-! ## Regimes -/

/-- What holds of a store while a computation has something in hand, what a moment fixes for later
ones, the watches that may stop a computation behind a copy, the faults with which it may stop, and
the forms that it may perform.
-/
structure Regime where
  Admits : Watch → Prop
  Holds : Store → Hand → Prop
  Since : Store → Store → Prop
  Fails : Fault → Prop
  Performs : Form → Prop := fun _ => True
  weaken : ∀ {s small large}, small.Within large → Holds s large → Holds s small
  refl : ∀ s, Since s s
  trans : ∀ {s s' s''}, Since s s' → Since s' s'' → Since s s''

namespace Regime

/-- From `s`, a computation keeps to the regime however it ends, and its result is as asked.  A
watched computation may stop on the way; then the regime holds at that moment, too, and what the
moment fixes stays fixed. -/
structure Runs (R : Regime) {α : Type} (watched full : StoreM α) (s : Store)
    (post : α → Store → Prop) : Prop where
  ok : ∀ {a s'}, full s = .ok a s' → R.Since s s' ∧ post a s'
  error : ∀ {fault s'}, full s = .error fault s' →
    R.Since s s' ∧ R.Holds s' {} ∧ R.Fails fault
  watched : watched s = full s ∨ ∃ fault m, watched s = .error fault m ∧ R.Holds m {} ∧
    R.Since m (StoreM.storeAfter full s)

/-- Two watches, of which the first waits for more. -/
structure Ordered (R : Regime) (early late : Watch) : Prop where
  admits : R.Admits early
  admits' : R.Admits late
  more : ∀ moment s, late moment s = true → early moment s = true

/-- A computation without a watch on it keeps to the regime. -/
abbrev Does (R : Regime) {α : Type} (action : StoreM α) (s : Store) (post : α → Store → Prop) :
    Prop :=
  R.Runs action action s post

/-- The result is one more value in hand. -/
def Yields (R : Regime) (hand : Hand) (r : Ref) (s : Store) : Prop := R.Holds s (hand.gain [r])

section Compose

variable {R : Regime} {s s' : Store} {hand : Hand} {α β : Type} {post : α → Store → Prop}

theorem gain_of_mem (holds : R.Holds s hand) {rs : List Ref} (known : rs ⊆ hand.values) :
    R.Holds s (hand.gain rs) :=
  R.weaken (Hand.within_of_values (by simp [known])) holds

theorem of_gain {rs : List Ref} (holds : R.Holds s (hand.gain rs)) : R.Holds s hand :=
  R.weaken (Hand.within_of_values (by simp)) holds

theorem gain_subset {rs rs' : List Ref} (subset : rs' ⊆ rs) (holds : R.Holds s (hand.gain rs)) :
    R.Holds s (hand.gain rs') :=
  R.weaken (Hand.within_of_values
    (List.append_subset.2 ⟨List.subset_append_of_subset_left _ subset, by simp⟩)) holds

theorem expect_subperm {es es' : List Ref} (subperm : es'.Subperm es)
    (holds : R.Holds s (hand.expect es)) : R.Holds s (hand.expect es') :=
  R.weaken (Hand.within_of_exprs ((List.subperm_append_right _).2 subperm)) holds

theorem of_expect {es : List Ref} (holds : R.Holds s (hand.expect es)) : R.Holds s hand :=
  expect_subperm (List.nil_subperm) holds

theorem expect_cons {e : Ref} {es : List Ref} (holds : R.Holds s (hand.expect (e :: es))) :
    R.Holds s ((hand.expect es).expect [e]) :=
  holds

theorem expect_gain {es rs : List Ref} (holds : R.Holds s ((hand.expect es).gain rs)) :
    R.Holds s ((hand.gain rs).expect es) :=
  holds

theorem of_call {call : Call} (holds : R.Holds s (hand.call call)) : R.Holds s hand := by
  have within : hand.Within (hand.call call) :=
    ⟨.refl _, List.Subset.refl _, List.subset_cons_self _ _, List.Subset.refl _⟩
  exact R.weaken within holds

theorem of_enter {env : Loc} (holds : R.Holds s (hand.enter env)) : R.Holds s hand := by
  have within : hand.Within (hand.enter env) :=
    ⟨.refl _, List.Subset.refl _, List.Subset.refl _, List.subset_cons_self _ _⟩
  exact R.weaken within holds

/-- Whoever stops has nothing in hand. -/
theorem empty (holds : R.Holds s hand) : R.Holds s {} :=
  R.weaken ⟨List.nil_subperm, by simp, by simp, by simp⟩ holds

theorem Runs.of_ok {action : StoreM α} {a : α} (ended : action s = .ok a s') (since : R.Since s s')
    (h : post a s') : R.Does action s post := by
  refine ⟨?_, ?_, .inl rfl⟩
  · intro b s'' ended'
    rw [ended] at ended'
    cases ended'
    exact ⟨since, h⟩
  · intro fault s'' ended'
    rw [ended] at ended'
    cases ended'

theorem Runs.of_error {action : StoreM α} {fault : Fault} (ended : action s = .error fault s')
    (since : R.Since s s') (holds : R.Holds s' hand) (fails : R.Fails fault) :
    R.Does action s post := by
  refine ⟨?_, ?_, .inl rfl⟩
  · intro b s'' ended'
    rw [ended] at ended'
    cases ended'
  · intro fault' s'' ended'
    rw [ended] at ended'
    cases ended'
    exact ⟨since, empty holds, fails⟩

theorem Runs.pure {a : α} (h : post a s) : R.Does (Pure.pure a : StoreM α) s post :=
  .of_ok rfl (R.refl s) h

theorem Runs.throw {fault : Fault} (holds : R.Holds s hand) (fails : R.Fails fault) :
    R.Does (MonadExcept.throw fault : StoreM α) s post :=
  .of_error rfl (R.refl s) holds fails

variable {watched full : StoreM α}

theorem Runs.since (runs : R.Runs watched full s post) :
    R.Since s (StoreM.storeAfter full s) := by
  rw [StoreM.storeAfter]
  split
  · exact (runs.ok ‹_›).1
  · exact (runs.error ‹_›).1

/-- Wherever a watched computation stops, the regime holds, and what is fixed there stays fixed. -/
theorem Runs.storeAfter (runs : R.Runs watched full s post)
    (holds : ∀ a s', post a s' → R.Holds s' {}) :
    R.Holds (StoreM.storeAfter watched s) {} ∧
      R.Since (StoreM.storeAfter watched s) (StoreM.storeAfter full s) := by
  rcases runs.watched with same | ⟨fault, m, stopped, holds', since⟩
  · have left : StoreM.storeAfter watched s = StoreM.storeAfter full s := by
      rw [StoreM.storeAfter, same, StoreM.storeAfter]
    rw [left]
    refine ⟨?_, R.refl _⟩
    rw [StoreM.storeAfter]
    split
    · exact holds _ _ (runs.ok ‹_›).2
    · exact (runs.error ‹_›).2.1
  · have left : StoreM.storeAfter watched s = m := by rw [StoreM.storeAfter, stopped]
    rw [left]
    exact ⟨holds', since⟩

theorem Runs.imp {post' : α → Store → Prop} (runs : R.Runs watched full s post)
    (imp : ∀ a s', post a s' → post' a s') : R.Runs watched full s post' :=
  ⟨fun ended => (runs.ok ended).imp_right (imp _ _), runs.error, runs.watched⟩

/-- What is known anyway of a result may be used. -/
theorem Runs.and {post' : α → Store → Prop} (runs : R.Runs watched full s post)
    (known : ∀ {a s'}, full s = .ok a s' → post' a s') :
    R.Runs watched full s fun a s' => post a s' ∧ post' a s' :=
  ⟨fun ended => (runs.ok ended).imp_right fun asked => ⟨asked, known ended⟩, runs.error,
    runs.watched⟩

/-- One computation after the other: what a moment of the first fixes, the second leaves alone. -/
theorem Runs.bind {next next' : α → StoreM β} {post' : β → Store → Prop}
    (first : R.Runs watched full s post)
    (second : ∀ a s', post a s' → R.Runs (next a) (next' a) s' post') :
    R.Runs (watched >>= next) (full >>= next') s post' := by
  cases h : full s with
  | error fault s' =>
    have ended := StoreM.bind_error h next'
    have left : StoreM.storeAfter (full >>= next') s = StoreM.storeAfter full s := by
      simp only [StoreM.storeAfter, ended, h]
    refine ⟨?_, ?_, ?_⟩
    · intro b s'' ended'
      rw [ended] at ended'
      cases ended'
    · intro fault' s'' ended'
      rw [ended] at ended'
      cases ended'
      exact first.error h
    · rcases first.watched with same | ⟨fault', m, stopped, holds, since⟩
      · exact .inl ((StoreM.bind_error (same.trans h) next).trans ended.symm)
      · exact .inr ⟨fault', m, StoreM.bind_error stopped next, holds, left ▸ since⟩
  | ok a s' =>
    obtain ⟨since, asked⟩ := first.ok h
    have rest := second a s' asked
    have ended := StoreM.bind_ok h next'
    have left : StoreM.storeAfter (full >>= next') s = StoreM.storeAfter (next' a) s' := by
      simp only [StoreM.storeAfter, ended]
    refine ⟨?_, ?_, ?_⟩
    · intro b s'' ended'
      exact (rest.ok (ended.symm.trans ended')).imp_left (R.trans since)
    · intro fault s'' ended'
      exact (rest.error (ended.symm.trans ended')).imp_left (R.trans since)
    · rcases first.watched with same | ⟨fault, m, stopped, holds, since'⟩
      · have ended' := StoreM.bind_ok (same.trans h) next
        rcases rest.watched with same' | ⟨fault, m, stopped, holds, since'⟩
        · exact .inl (ended'.trans (same'.trans ended.symm))
        · exact .inr ⟨fault, m, ended'.trans stopped, holds, left ▸ since'⟩
      · -- The watch has stopped the first part; what is fixed then stays fixed through the second.
        have before : StoreM.storeAfter full s = s' := by simp only [StoreM.storeAfter, h]
        refine .inr ⟨fault, m, StoreM.bind_error stopped next, holds, ?_⟩
        rw [left]
        exact R.trans (before ▸ since') rest.since

/-- The store is there to be looked at. -/
theorem Runs.get {next next' : Store → StoreM α} (runs : R.Runs (next s) (next' s) s post) :
    R.Runs (MonadState.get >>= next) (MonadState.get >>= next') s post :=
  ⟨runs.ok, runs.error, runs.watched⟩

theorem Runs.look {r : Ref} {next next' : Option Node → StoreM α}
    (runs : R.Runs (next (s.node? r)) (next' (s.node? r)) s post) :
    R.Runs (LittleScheme.look r >>= next) (LittleScheme.look r >>= next') s post :=
  ⟨runs.ok, runs.error, runs.watched⟩

theorem Runs.assoc {γ : Type} {action action' : StoreM β} {next next' : β → StoreM γ}
    {last last' : γ → StoreM α}
    (runs : R.Runs ((action >>= next) >>= last) ((action' >>= next') >>= last') s post) :
    R.Runs (action >>= fun b => next b >>= last) (action' >>= fun b => next' b >>= last') s
      post := by
  rwa [← bind_assoc, ← bind_assoc]

/-- Nothing happens at a moment that is waited for. -/
theorem Runs.pause {early late : Watch} {moment : Moment} (known : Store → Prop)
    (more : ∀ s, late moment s = true → early moment s = true) (holds : R.Holds s hand)
    (fails : R.Fails .tooDeep) (h : known s) :
    R.Runs (pause early moment) (pause late moment) s fun _ s' => known s' := by
  by_cases waited : late moment s = true
  · have stopped : LittleScheme.pause late moment s = .error .tooDeep s := by
      rw [pause_eq, if_pos waited]
    have same : LittleScheme.pause early moment s = LittleScheme.pause late moment s := by
      rw [pause_eq, pause_eq, if_pos waited, if_pos (more s waited)]
    have does : R.Does (LittleScheme.pause late moment) s fun _ s' => known s' :=
      .of_error stopped (R.refl s) holds fails
    exact ⟨does.ok, does.error, .inl same⟩
  · have passed : LittleScheme.pause late moment s = .ok () s := by rw [pause_eq, if_neg waited]
    have does : R.Does (LittleScheme.pause late moment) s fun _ s' => known s' :=
      .of_ok passed (R.refl s) h
    refine ⟨does.ok, does.error, ?_⟩
    by_cases waited' : early moment s = true
    · have left : StoreM.storeAfter (LittleScheme.pause late moment) s = s := by
        simp only [StoreM.storeAfter, passed]
      refine .inr ⟨.tooDeep, s, by rw [pause_eq, if_pos waited'], empty holds, ?_⟩
      rw [left]
      exact R.refl s
    · exact .inl (by rw [pause_eq, pause_eq, if_neg waited, if_neg waited'])

/-- A copy under a watch keeps to the regime if the copy does. -/
theorem Runs.duplicateUntil {early late : Watch} {depth : Nat} {r : Ref} {post : Ref → Store → Prop}
    (ordered : R.Ordered early late) (fails : R.Fails .tooDeep)
    (does : R.Does (duplicate depth r) s post) (holds : ∀ c s', post c s' → R.Holds s' hand) :
    R.Runs (duplicateUntil early depth r) (duplicateUntil late depth r) s post := by
  refine does.bind fun c s' asked => ?_
  refine (Runs.pause (post c) (ordered.more _) (holds c s' asked) fails asked).bind ?_
  exact fun _ s'' asked' => .pure asked'

theorem Runs.discard {action : StoreM β} {post' : β → Store → Prop} (does : R.Does action s post') :
    R.Does (Functor.discard action) s fun _ s' => ∃ b, post' b s' := by
  rw [StoreM.discard_eq]
  exact does.bind fun b _ asked => .pure ⟨b, asked⟩

end Compose

/-! ## The elementary steps -/

/-- The steps at which evaluation looks into expressions and values, makes new ones and changes the
store keep to the regime. -/
structure Lawful (R : Regime) : Prop where
  ordinary : ∀ {fault : Fault}, fault.isGeneric = true → R.Fails fault
  /-- A symbol that is not bound. -/
  unbound : ∀ {s} {hand : Hand} {r name}, R.Holds s hand → s.node? r = some (.symbol name) →
    R.Fails (.error (.unbound name))
  /-- A scope that goes round. -/
  endless : ∀ {s} {hand : Hand} {env}, R.Holds s hand → env ∈ hand.scopes →
    s.isEndless env = true → R.Fails .endless
  /-- An expression that is neither an atom nor a pair. -/
  stuck : ∀ {s} {hand : Hand} {expr}, R.Holds s (hand.expect [expr]) →
    (∀ node, s.node? expr = some node → node.isCode = false) →
    R.Fails (s.objection .cannotEvaluate expr)
  /-- An expression is turned into a value. -/
  settle : ∀ {s} {hand : Hand} {expr}, R.Holds s (hand.expect [expr]) → R.Holds s (hand.gain [expr])
  /-- An expression is taken apart. -/
  split : ∀ {s} {hand : Hand} {expr fields}, R.Holds s (hand.expect [expr]) →
    s.pair? expr = some fields → R.Holds s (hand.expect [fields.1, fields.2])
  nil : ∀ {s} {hand : Hand}, R.Holds s hand → R.Holds s (hand.gain [.nil])
  lookup : ∀ {s} {hand : Hand} {env name r}, R.Holds s hand → env ∈ hand.scopes →
    s.lookup? env name = some r → R.Holds s (hand.gain [r])
  fields : ∀ {s} {hand : Hand} {r fields}, R.Holds s hand → r ∈ hand.values →
    s.pair? r = some fields → R.Holds s (hand.gain [fields.1, fields.2])
  code : ∀ {s} {hand : Hand} {r params body captured}, R.Holds s hand → r ∈ hand.values →
    s.node? r = some (.closure params body captured) →
    R.Holds s (hand.call ⟨params, body, captured⟩)
  /-- A form that is called. -/
  perform : ∀ {s} {hand : Hand} {r f}, R.Holds s hand → r ∈ hand.values →
    s.node? r = some (.builtin (.form f)) → R.Performs f
  /-- A new atom. -/
  atom : ∀ {s} {hand : Hand} (a : Atom), a.IsComputed → R.Holds s hand →
    R.Does (make a.node) s (R.Yields hand)
  /-- A new pair of values. -/
  pair : ∀ {s} {hand : Hand} {a b}, R.Holds s hand → a ∈ hand.values → b ∈ hand.values →
    R.Does (make (.pair a b)) s (R.Yields hand)
  /-- A new procedure. -/
  procedure : ∀ {s} {hand : Hand} {params body env}, R.Holds s (hand.expect (params ++ body)) →
    body ≠ [] → env ∈ hand.scopes → R.Does (makeClosure params body (some env)) s (R.Yields hand)
  /-- A copy that is not stored. -/
  copy : ∀ {early late s} {hand : Hand} {r} (depth : Nat), R.Ordered early late → R.Holds s hand →
    r ∈ hand.values →
    R.Runs (duplicateUntil early depth r) (duplicateUntil late depth r) s (R.Yields hand)
  /-- A name defined as a copy. -/
  define : ∀ {early late s} {hand : Hand} {r env} (depth : Nat) (name : String),
    R.Performs .define → R.Ordered early late → R.Holds s hand → r ∈ hand.values →
    env ∈ hand.scopes →
    R.Runs (duplicateUntil early depth r >>= LittleScheme.define env name)
      (duplicateUntil late depth r >>= LittleScheme.define env name) s fun _ s' => R.Holds s' hand
  /-- A name defined as a new procedure. -/
  defineProcedure : ∀ {s} {hand : Hand} {params body env} (name : String), R.Performs .define →
    R.Holds s (hand.expect (params ++ body)) → body ≠ [] → env ∈ hand.scopes →
    R.Does (makeClosure params body (some env) >>= LittleScheme.define env name) s
      fun _ s' => R.Holds s' hand
  /-- A name assigned a copy. -/
  assign : ∀ {early late s} {hand : Hand} {r env} (depth : Nat) (name : String),
    R.Performs .assign → R.Ordered early late → R.Holds s hand →
    R.Fails (.error (.unbound name)) → r ∈ hand.values → env ∈ hand.scopes →
    R.Runs (duplicateUntil early depth r >>= LittleScheme.assign env name)
      (duplicateUntil late depth r >>= LittleScheme.assign env name) s (R.Yields hand)
  /-- A field of a pair replaced by a copy. -/
  replace : ∀ {early late s} {hand : Hand} {loc fields r} (depth : Nat) (field : Field),
    R.Performs field.form → R.Ordered early late → R.Holds s hand → .cell loc ∈ hand.values →
    s.pair? (.cell loc) = some fields → r ∈ hand.values → r ≠ .cell loc →
    R.Runs (duplicateUntil early depth r >>= fun value => overwrite loc (field.set value fields))
      (duplicateUntil late depth r >>= fun value => overwrite loc (field.set value fields)) s
      fun _ s' => R.Holds s' hand
  /-- A field of a pair replaced by the pair itself. -/
  tie : ∀ {s} {hand : Hand} {loc fields} (field : Field), R.Performs field.form →
    R.Holds s hand → .cell loc ∈ hand.values → s.pair? (.cell loc) = some fields →
    R.Does (overwrite loc (field.set (.cell loc) fields)) s fun _ s' => R.Holds s' hand
  /-- The frame of a call. -/
  enter : ∀ {early late s} {hand : Hand} {call values} {watched full : Engine} (depth : Nat),
    R.Ordered early late → watched.copy = duplicateUntil early depth →
    full.copy = duplicateUntil late depth → R.Holds s hand → call ∈ hand.calls →
    values ⊆ hand.values →
    R.Runs (watched.enterCall call.params values call.captured)
      (full.enterCall call.params values call.captured) s
      fun inner s' => R.Holds s' (hand.enter inner)
  /-- The copy of the body of a procedure, to be evaluated. -/
  unfold : ∀ {early late s} {hand : Hand} {call} (depth : Nat), R.Ordered early late →
    R.Holds s hand → call ∈ hand.calls →
    R.Runs (copyEach (duplicateUntil early depth) call.body)
      (copyEach (duplicateUntil late depth) call.body) s
      fun forms s' => R.Holds s' (hand.expect forms)

namespace Lawful

variable {R : Regime} (law : R.Lawful) {s : Store} {hand : Hand}
include law

theorem fail {α : Type} {post : α → Store → Prop} {e : Error} (holds : R.Holds s hand)
    (generic : (Fault.error e).isGeneric = true) : R.Does (LittleScheme.fail e) s post :=
  .throw holds (law.ordinary generic)

/-! ## Looking into values and expressions -/

theorem gain_chainFrom (fuel : Nat) (seen : Std.TreeSet Loc) {r : Ref} (holds : R.Holds s hand)
    (value : r ∈ hand.values) : R.Holds s (hand.gain (s.chainFrom fuel seen r).items) := by
  induction fuel generalizing seen r hand with
  | zero => exact holds
  | succ fuel ih =>
    simp only [Store.chainFrom]
    split
    · rename_i loc first second found
      split
      · exact holds
      · have both := law.fields holds value found
        have rest := ih (seen.insert loc) (r := second) both (by simp)
        rw [Hand.gain_gain] at rest
        exact gain_subset (by simp [Chain.items]) rest
    · exact holds

theorem expect_chainFrom (fuel : Nat) (seen : Std.TreeSet Loc) {r : Ref}
    (holds : R.Holds s (hand.expect [r])) :
    R.Holds s (hand.expect (s.chainFrom fuel seen r).items) := by
  induction fuel generalizing seen r hand with
  | zero => exact of_expect holds
  | succ fuel ih =>
    simp only [Store.chainFrom]
    split
    · rename_i loc first second found
      split
      · exact of_expect holds
      · have both := law.split holds found
        have swapped : R.Holds s ((hand.expect [first]).expect [second]) := by
          rw [Hand.expect_expect]
          exact expect_subperm (List.Perm.swap _ _ _).subperm both
        have rest := ih (seen.insert loc) swapped
        rw [Hand.expect_expect] at rest
        exact expect_subperm (List.perm_append_singleton _ _).symm.subperm rest
    · exact of_expect holds

theorem gain_toList? {r : Ref} {items : List Ref} (holds : R.Holds s hand) (value : r ∈ hand.values)
    (listed : s.toList? r = some items) : R.Holds s (hand.gain items) := by
  simp only [Store.toList?, Option.ite_none_right_eq_some, Option.some.injEq] at listed
  rw [← listed.2]
  exact law.gain_chainFrom _ _ holds value

theorem expect_toList? {r : Ref} {items : List Ref} (holds : R.Holds s (hand.expect [r]))
    (listed : s.toList? r = some items) : R.Holds s (hand.expect items) := by
  simp only [Store.toList?, Option.ite_none_right_eq_some, Option.some.injEq] at listed
  rw [← listed.2]
  exact law.expect_chainFrom _ _ holds

/-- The items of a list of expressions are to be evaluated in its place. -/
theorem listItems (category : Category) {r : Ref} (holds : R.Holds s (hand.expect [r])) :
    R.Does (LittleScheme.listItems category r) s
      fun items s' => R.Holds s' (hand.expect items) := by
  refine .get ?_
  split
  · exact .pure (law.expect_toList? holds ‹_›)
  · exact law.fail holds rfl

theorem gain_drop? (k : Nat) {r r' : Ref} (holds : R.Holds s hand) (value : r ∈ hand.values)
    (dropped : s.drop? k r = some r') : R.Holds s (hand.gain [r']) := by
  induction k generalizing r hand with
  | zero =>
    obtain rfl : r = r' := by simpa [Store.drop?] using dropped
    exact gain_of_mem holds (by simpa using value)
  | succ k ih =>
    rw [Store.drop?] at dropped
    split at dropped
    · rename_i first second found
      have rest := ih (r := second) (law.fields holds value found) (by simp) dropped
      rw [Hand.gain_gain] at rest
      exact gain_subset (by simp) rest
    · simp at dropped

theorem unresolved {env : Loc} {name : String} (holds : R.Holds s hand) (scope : env ∈ hand.scopes)
    (fails : R.Fails (.error (.unbound name))) : R.Fails (s.unresolved env name) := by
  rw [Store.unresolved]
  split
  · exact law.endless holds scope ‹_›
  · exact fails

theorem resolve {env : Loc} {r : Ref} {name : String} (holds : R.Holds s hand)
    (scope : env ∈ hand.scopes) (named : s.node? r = some (.symbol name)) :
    R.Does (LittleScheme.resolve env name) s (R.Yields hand) := by
  refine .get ?_
  split
  · exact .pure (law.lookup holds scope ‹_›)
  · exact .throw holds (law.unresolved holds scope (law.unbound holds named))

/-! ## Primitives -/

theorem makeList {items : List Ref} {tail : Ref} (holds : R.Holds s hand)
    (values : items ⊆ hand.values) (value : tail ∈ hand.values) :
    R.Does (LittleScheme.makeList items tail) s (R.Yields hand) := by
  induction items with
  | nil => exact .pure (gain_of_mem holds (by simpa using value))
  | cons item items ih =>
    refine (ih fun r member => values (by simp [member])).bind ?_
    intro rest s' made
    refine (law.pair made (a := item) (b := rest) ?_ (by simp)).imp fun r s'' made' => ?_
    · simp [values (show item ∈ item :: items by simp)]
    · rw [Yields, Hand.gain_gain] at made'
      exact gain_subset (by simp) made'

variable (p : Primitive) {args : List Ref}

theorem exactlyOne (holds : R.Holds s hand) (values : args ⊆ hand.values) :
    R.Does (p.exactlyOne args) s fun r s' => R.Holds s' hand ∧ r ∈ hand.values := by
  rw [Primitive.exactlyOne.eq_def]
  split
  · exact .pure ⟨holds, values (by simp)⟩
  · exact law.fail holds rfl

theorem exactlyTwo (holds : R.Holds s hand) (values : args ⊆ hand.values) :
    R.Does (p.exactlyTwo args) s fun rs s' =>
      R.Holds s' hand ∧ rs.1 ∈ hand.values ∧ rs.2 ∈ hand.values := by
  rw [Primitive.exactlyTwo.eq_def]
  split
  · exact .pure ⟨holds, values (by simp), values (by simp)⟩
  · exact law.fail holds rfl

theorem atLeastOne (holds : R.Holds s hand) :
    R.Does (p.atLeastOne args) s fun _ s' => R.Holds s' hand := by
  rw [Primitive.atLeastOne.eq_def]
  split
  · exact law.fail holds rfl
  · exact .pure holds

theorem integers (args : List Ref) (holds : R.Holds s hand) :
    R.Does (p.integers args) s fun _ s' => R.Holds s' hand := by
  refine .get ?_
  split
  · exact .pure holds
  · exact law.fail holds rfl

theorem compute {f : List Int → Except Error Int}
    (inRange : ∀ ns n, f ns = .ok n → Integer64.InRange n)
    (generic : ∀ ns e, f ns = .error e → (Fault.error e).isGeneric = true) (args : List Ref)
    (holds : R.Holds s hand) : R.Does (p.compute f args) s (R.Yields hand) := by
  refine (law.integers p args holds).bind ?_
  intro ns s' holds'
  split
  · exact law.atom (.integer _) (inRange _ _ ‹_›) holds'
  · exact law.fail holds' (generic _ _ ‹_›)

/-- What is computed without fail is made if it is in range. -/
theorem computeAlways {f : List Int → Int} (inRange : ∀ ns, Integer64.InRange (f ns))
    (args : List Ref) (holds : R.Holds s hand) :
    R.Does (p.compute (fun ns => .ok (f ns)) args) s (R.Yields hand) :=
  law.compute p (fun ns n made => by cases made; exact inRange ns) (by simp) args holds

theorem relate (relation : Int → Int → Bool) (args : List Ref) (holds : R.Holds s hand) :
    R.Does (p.relate relation args) s (R.Yields hand) := by
  refine (law.integers p args holds).bind ?_
  intro ns s' holds'
  exact law.atom (.boolean _) trivial holds'

theorem test (property : Store → Ref → Bool) (holds : R.Holds s hand)
    (values : args ⊆ hand.values) : R.Does (p.test property args) s (R.Yields hand) := by
  refine (law.exactlyOne p holds values).bind ?_
  rintro r s' ⟨holds', -⟩
  exact .get (law.atom (.boolean _) trivial holds')

theorem pairFields {r : Ref} (holds : R.Holds s hand) (value : r ∈ hand.values) :
    R.Does (p.fields r) s fun rs s' => R.Holds s' (hand.gain [rs.1, rs.2]) := by
  refine .get ?_
  split
  · exact .pure (law.fields holds value ‹_›)
  · exact law.fail holds rfl

theorem index (r : Ref) (holds : R.Holds s hand) :
    R.Does (p.index r) s fun _ s' => R.Holds s' hand := by
  refine .get ?_
  split
  · exact .pure holds
  · exact law.fail holds rfl

theorem item (holds : R.Holds s hand) (values : args ⊆ hand.values) :
    R.Does (p.item args) s (R.Yields hand) := by
  refine (law.exactlyTwo p holds values).bind ?_
  rintro ⟨r, k⟩ s₁ ⟨holds₁, value, -⟩
  have listed : R.Does (LittleScheme.listItems .runtime r) s₁ fun items s' =>
      R.Holds s' (hand.gain items) := by
    refine .get ?_
    split
    · exact .pure (law.gain_toList? holds₁ value ‹_›)
    · exact law.fail holds₁ rfl
  refine listed.bind ?_
  intro items s₂ holds₂
  refine (law.index p k holds₂).bind ?_
  intro k s₃ holds₃
  split
  · rename_i item found
    have member : item ∈ items := by
      by_cases negative : k < 0
      · simp [negative] at found
      · exact List.mem_of_getElem? (by simpa [negative] using found)
    exact .pure (gain_subset (by simpa using member) holds₃)
  · exact law.fail holds₃ rfl

theorem rest (holds : R.Holds s hand) (values : args ⊆ hand.values) :
    R.Does (p.rest args) s (R.Yields hand) := by
  refine (law.exactlyTwo p holds values).bind ?_
  rintro ⟨r, k⟩ s₁ ⟨holds₁, value, -⟩
  refine (law.index p k holds₁).bind ?_
  intro k s₂ holds₂
  refine .get ?_
  split
  · exact .pure (law.gain_drop? _ holds₂ value ‹_›)
  · exact law.fail holds₂ rfl

/-- Primitives keep to the regime. -/
theorem call (holds : R.Holds s hand) (values : args ⊆ hand.values) :
    R.Does (p.call args) s (R.Yields hand) := by
  cases p with
  | add | mul =>
    rw [Primitive.call]
    exact law.computeAlways _ (Arithmetic.inRange_fold _ (by decide)) args holds
  | sub =>
    exact (law.atLeastOne _ holds).bind fun args _ holds' =>
      law.computeAlways _ Arithmetic.inRange_difference args holds'
  | max | min =>
    exact (law.atLeastOne _ holds).bind fun args _ holds' =>
      law.computeAlways _ (Arithmetic.inRange_fold _ (by decide)) args holds'
  | div =>
    refine (law.atLeastOne _ holds).bind fun args s' holds' =>
      law.compute _ (fun _ _ => Arithmetic.inRange_ratio) ?_ args holds'
    intro ns e failed
    rw [Arithmetic.ratio_error failed]
    rfl
  | abs =>
    exact (law.exactlyOne _ holds values).bind fun r _ ⟨holds', _⟩ =>
      law.computeAlways _ Arithmetic.inRange_magnitude [r] holds'
  | eq | lt | gt | le | ge => exact law.relate _ _ args holds
  | isPair | isNull | isList | isNumber | isBoolean | isSymbol | not =>
    exact law.test _ _ holds values
  | list =>
    have made : R.Does (LittleScheme.makeList args .nil) s (R.Yields (hand.gain [.nil])) :=
      law.makeList (law.nil holds) (fun r member => by simp [values member]) (by simp)
    refine made.imp fun r s' made => ?_
    rw [Yields, Hand.gain_gain] at made
    exact gain_subset (by simp) made
  | cons =>
    exact (law.exactlyTwo _ holds values).bind fun rs _ ⟨holds', first, second⟩ =>
      law.pair holds' first second
  | car =>
    refine (law.exactlyOne _ holds values).bind ?_
    rintro r s₁ ⟨holds₁, value⟩
    refine (law.pairFields _ holds₁ value).bind ?_
    intro rs s₂ holds₂
    exact .pure (gain_subset (by simp) holds₂)
  | cdr =>
    refine (law.exactlyOne _ holds values).bind ?_
    rintro r s₁ ⟨holds₁, value⟩
    refine (law.pairFields _ holds₁ value).bind ?_
    intro rs s₂ holds₂
    exact .pure (gain_subset (by simp) holds₂)
  | listRef => exact law.item _ holds values
  | listTail => exact law.rest _ holds values

end Lawful

end Regime

/-! ## Forms -/

/-- The engines evaluate within the regime, one of them under a watch, and copy as the store
does. -/
structure Engine.Follows (R : Regime) (watched full : Engine) : Prop where
  evaluate : ∀ {s} {hand : Hand} {expr env} (place : Place), R.Holds s (hand.expect [expr]) →
    env ∈ hand.scopes →
    R.Runs (watched.evaluate place expr env) (full.evaluate place expr env) s (R.Yields hand)
  copy : ∃ early late depth, R.Ordered early late ∧ watched.copy = duplicateUntil early depth ∧
    full.copy = duplicateUntil late depth

namespace Regime.Lawful

variable {R : Regime} (law : R.Lawful) {watched full : Engine}
  (inside : Engine.Follows R watched full) {s : Store} {hand : Hand} {env : Loc}

include inside in
theorem evaluateAll {exprs : List Ref} (holds : R.Holds s (hand.expect exprs))
    (scope : env ∈ hand.scopes) :
    R.Runs (watched.evaluateAll env exprs) (full.evaluateAll env exprs) s
      fun rs s' => R.Holds s' (hand.gain rs) := by
  induction exprs generalizing s hand with
  | nil => exact .pure holds
  | cons expr exprs ih =>
    refine (inside.evaluate .row (expect_cons holds) scope).bind ?_
    intro r s₁ holds₁
    refine (ih (expect_gain holds₁) scope).bind ?_
    intro rs s₂ holds₂
    rw [Hand.gain_gain] at holds₂
    exact .pure (gain_subset (by simp) holds₂)

include inside in
theorem sequence {last : Ref} {exprs : List Ref} (holds : R.Holds s (hand.expect exprs))
    (value : last ∈ hand.values) (scope : env ∈ hand.scopes) :
    R.Runs (watched.sequence env last exprs) (full.sequence env last exprs) s (R.Yields hand) := by
  induction exprs generalizing s hand last with
  | nil => exact .pure (gain_of_mem holds (by simpa using value))
  | cons expr exprs ih =>
    refine (inside.evaluate .single (expect_cons holds) scope).bind ?_
    intro r s₁ holds₁
    refine (ih (expect_gain holds₁) (by simp) scope).imp fun r' s₂ holds₂ => ?_
    rw [Yields, Hand.gain_gain] at holds₂
    exact gain_subset (by simp) holds₂

include law in
theorem quote {args : List Ref} (holds : R.Holds s (hand.expect args)) :
    R.Does (Engine.quote args) s (R.Yields hand) := by
  rw [Engine.quote.eq_def]
  split
  · exact .pure (law.settle holds)
  · exact law.fail holds rfl

include law inside in
theorem branch {args : List Ref} (holds : R.Holds s (hand.expect args))
    (scope : env ∈ hand.scopes) :
    R.Runs (watched.branch env args) (full.branch env args) s (R.Yields hand) := by
  match args with
  | [] | [_] | _ :: _ :: _ :: _ :: _ => exact law.fail holds rfl
  | [condition, consequent] =>
    refine (inside.evaluate .single (expect_cons holds) scope).bind ?_
    intro r s₁ holds₁
    have rest : R.Holds s₁ (hand.expect [consequent]) := of_gain holds₁
    refine .get ?_
    split
    · exact inside.evaluate .single rest scope
    · exact .pure (law.nil (of_expect rest))
  | [condition, consequent, alternative] =>
    refine (inside.evaluate .single (expect_cons holds) scope).bind ?_
    intro r s₁ holds₁
    have rest : R.Holds s₁ (hand.expect [consequent, alternative]) := of_gain holds₁
    refine .get ?_
    split
    · refine inside.evaluate .single (expect_subperm ?_ rest) scope
      exact List.Sublist.subperm (by simp)
    · refine inside.evaluate .single (expect_subperm ?_ rest) scope
      exact List.Sublist.subperm (by simp)

include law inside in
theorem defineForm (performs : R.Performs .define) {args : List Ref}
    (holds : R.Holds s (hand.expect args)) (scope : env ∈ hand.scopes) :
    R.Runs (watched.define env args) (full.define env args) s (R.Yields hand) := by
  match args with
  | [] | [_] => exact law.fail holds rfl
  | target :: expr :: more =>
    refine .get ?_
    split
    · rename_i name _
      split
      · rename_i none
        subst none
        have named := expect_gain (law.settle (expect_cons holds))
        refine (inside.evaluate .single named scope).bind ?_
        intro r s₁ holds₁
        obtain ⟨early, late, depth, ordered, copy, copy'⟩ := inside.copy
        rw [copy, copy']
        refine .assoc ((law.define depth name performs ordered holds₁ (by simp) scope).bind ?_)
        intro _ s₂ holds₂
        rw [Hand.gain_gain] at holds₂
        exact .pure (gain_subset (by simp) holds₂)
      · exact law.fail holds rfl
    · split
      · rename_i name params listed
        split
        · rename_i text _
          have listed := law.expect_toList? (expect_cons holds) listed
          rw [Hand.expect_expect, List.cons_append] at listed
          have named := expect_gain (law.settle (expect_cons listed))
          refine .assoc ((law.defineProcedure text performs named (by simp) scope).bind ?_)
          intro _ s₁ holds₁
          exact .pure holds₁
        · exact law.fail holds rfl
      · exact law.fail holds rfl
    · exact law.fail holds rfl

include law in
theorem lambda {args : List Ref} (holds : R.Holds s (hand.expect args))
    (scope : env ∈ hand.scopes) : R.Does (Engine.lambda env args) s (R.Yields hand) := by
  match args with
  | [] | [_] => exact law.fail holds rfl
  | params :: expr :: more =>
    refine (law.listItems .grammar (expect_cons holds)).bind ?_
    intro params s₁ holds₁
    rw [Hand.expect_expect] at holds₁
    exact law.procedure holds₁ (by simp) scope

include law inside in
theorem assignForm (performs : R.Performs .assign) {args : List Ref}
    (holds : R.Holds s (hand.expect args)) (scope : env ∈ hand.scopes) :
    R.Runs (watched.assign env args) (full.assign env args) s (R.Yields hand) := by
  match args with
  | [] | [_] | _ :: _ :: _ :: _ => exact law.fail holds rfl
  | [target, expr] =>
    refine .get ?_
    split
    · exact law.fail holds rfl
    · rename_i name named
      have named : s.node? target = some (.symbol name) := Store.symbolName?_eq_some.1 named
      have rest : R.Holds s (hand.expect [expr]) := of_expect (expect_cons holds)
      refine (law.resolve rest scope named).discard.bind ?_
      rintro _ s₁ ⟨r, holds₁⟩
      refine (inside.evaluate .single (of_gain holds₁) scope).bind ?_
      intro r s₂ holds₂
      obtain ⟨early, late, depth, ordered, copy, copy'⟩ := inside.copy
      rw [copy, copy']
      refine (law.assign depth name performs ordered holds₂ (law.unbound rest named) (by simp)
        scope).imp ?_
      intro r s₃ holds₃
      rw [Yields, Hand.gain_gain] at holds₃
      exact gain_subset (by simp) holds₃

include law inside in
theorem storeField (field : Field) (performs : R.Performs field.form) {pair r : Ref}
    (holds : R.Holds s hand) (value : pair ∈ hand.values) (value' : r ∈ hand.values) :
    R.Runs (watched.storeField field pair r) (full.storeField field pair r) s (R.Yields hand) := by
  refine .get ?_
  split
  · rename_i loc fields found
    have both := law.fields holds value found
    have previous {s' : Store} (holds' : R.Holds s' (hand.gain [fields.1, fields.2])) :
        R.Holds s' (hand.gain [field.get fields]) :=
      gain_subset (by cases field <;> simp [Field.get]) holds'
    split
    · rename_i same
      subst same
      let stored : StoreM Ref := overwrite loc (field.set (.cell loc) fields) >>= fun _ =>
        Pure.pure (field.get fields)
      change R.Does stored s (R.Yields hand)
      refine (law.tie field performs both (by simp [value]) found).bind ?_
      intro _ s₁ holds₁
      exact .pure (previous holds₁)
    · rename_i different
      obtain ⟨early, late, depth, ordered, copy, copy'⟩ := inside.copy
      rw [copy, copy']
      refine .assoc ((law.replace depth field performs ordered both (by simp [value]) found
        (by simp [value']) different).bind ?_)
      intro _ s₁ holds₁
      exact .pure (previous holds₁)
  · exact law.fail holds rfl

include law inside in
theorem setField (field : Field) (performs : R.Performs field.form) {args : List Ref}
    (holds : R.Holds s (hand.expect args)) (scope : env ∈ hand.scopes) :
    R.Runs (watched.setField field env args) (full.setField field env args) s (R.Yields hand) := by
  match args with
  | [] | [_] | _ :: _ :: _ :: _ => exact law.fail holds rfl
  | [target, expr] =>
    refine (inside.evaluate .row (expect_cons holds) scope).bind ?_
    intro pair s₁ holds₁
    refine (inside.evaluate .row (expect_gain holds₁) scope).bind ?_
    intro r s₂ holds₂
    refine (law.storeField inside field performs holds₂ (by simp) (by simp)).imp ?_
    intro r' s₃ holds₃
    rw [Yields, Hand.gain_gain, Hand.gain_gain] at holds₃
    exact gain_subset (by simp) holds₃

include law inside in
theorem conj {args : List Ref} (holds : R.Holds s (hand.expect args))
    (scope : env ∈ hand.scopes) :
    R.Runs (watched.conj env args) (full.conj env args) s (R.Yields hand) := by
  induction args generalizing s with
  | nil => exact law.atom (.boolean true) trivial holds
  | cons expr exprs ih =>
    refine (inside.evaluate .single (expect_cons holds) scope).bind ?_
    intro r s₁ holds₁
    refine .get ?_
    split
    · split
      · exact .pure (of_expect (expect_gain holds₁))
      · exact ih (of_gain holds₁)
    · exact law.atom (.boolean false) trivial (of_expect (of_gain holds₁))

include law inside in
theorem disj {args : List Ref} (holds : R.Holds s (hand.expect args))
    (scope : env ∈ hand.scopes) :
    R.Runs (watched.disj env args) (full.disj env args) s (R.Yields hand) := by
  induction args generalizing s with
  | nil => exact law.atom (.boolean false) trivial holds
  | cons expr exprs ih =>
    refine (inside.evaluate .single (expect_cons holds) scope).bind ?_
    intro r s₁ holds₁
    refine .get ?_
    split
    · split
      · exact .pure (of_expect (expect_gain holds₁))
      · exact law.atom (.boolean true) trivial (of_expect (of_gain holds₁))
    · exact ih (of_gain holds₁)

include law inside in
/-- Forms keep to the regime. -/
theorem form (f : Form) (performs : R.Performs f) {operands : Ref}
    (holds : R.Holds s (hand.expect [operands])) (scope : env ∈ hand.scopes) :
    R.Runs (watched.form f operands env) (full.form f operands env) s (R.Yields hand) := by
  refine (law.listItems _ holds).bind ?_
  intro args s₁ holds₁
  cases f with
  | quote => exact law.quote holds₁
  | branch => exact law.branch inside holds₁ scope
  | define => exact law.defineForm inside performs holds₁ scope
  | lambda => exact law.lambda holds₁ scope
  | assign => exact law.assignForm inside performs holds₁ scope
  | setCar => exact law.setField inside .first performs holds₁ scope
  | setCdr => exact law.setField inside .second performs holds₁ scope
  | conj => exact law.conj inside holds₁ scope
  | disj => exact law.disj inside holds₁ scope

/-! ## Calls and evaluation -/

include law inside in
theorem applyClosure {call : Call} {operands : Ref} (holds : R.Holds s (hand.expect [operands]))
    (called : call ∈ hand.calls) (scope : env ∈ hand.scopes) :
    R.Runs (watched.applyClosure call.params call.body call.captured operands env)
      (full.applyClosure call.params call.body call.captured operands env) s (R.Yields hand) := by
  obtain ⟨early, late, depth, ordered, copy, copy'⟩ := inside.copy
  refine (law.listItems .runtime holds).bind ?_
  intro exprs s₁ holds₁
  split
  · refine (evaluateAll inside holds₁ scope).bind ?_
    intro values s₂ holds₂
    refine (law.enter depth ordered copy copy' holds₂ called
      fun r member => by simp [member]).bind ?_
    intro inner s₃ holds₃
    rw [copy, copy']
    refine (law.unfold depth ordered holds₃ called).bind ?_
    intro forms s₄ holds₄
    refine (sequence inside (expect_gain (law.nil holds₄)) (by simp) (by simp)).imp ?_
    intro r s₅ holds₅
    have inside : R.Holds s₅ ((((hand.gain values).gain [.nil]).gain [r]).enter inner) := holds₅
    rw [Hand.gain_gain, Hand.gain_gain] at inside
    exact gain_subset (by simp) (of_enter inside)
  · exact law.fail holds₁ rfl

include law inside in
theorem apply {head operands : Ref} (holds : R.Holds s (hand.expect [operands]))
    (procedure : head ∈ hand.values) (tagged : ((s.node? head).bind Node.tag?).isSome)
    (scope : env ∈ hand.scopes) :
    R.Runs (watched.apply head operands env) (full.apply head operands env) s (R.Yields hand) := by
  refine .get ?_
  split
  · exact law.form inside _ (law.perform holds procedure ‹_›) holds scope
  · refine (law.listItems .runtime holds).bind ?_
    intro exprs s₁ holds₁
    refine (evaluateAll inside holds₁ scope).bind ?_
    intro args s₂ holds₂
    refine (law.call _ holds₂ fun r member => by simp [member]).imp fun r s₃ holds₃ => ?_
    rw [Yields, Hand.gain_gain] at holds₃
    exact gain_subset (by simp) holds₃
  · rename_i params body captured found
    let call : Call := ⟨params, body, captured⟩
    have called : R.Holds s ((hand.call call).expect [operands]) := law.code holds procedure found
    have applied := law.applyClosure inside called (List.mem_cons_self ..) scope
    refine applied.imp fun r s₁ holds₁ => ?_
    have left : R.Holds s₁ ((hand.gain [r]).call call) := holds₁
    exact of_call left
  · rename_i form primitive closure
    exfalso
    cases found : s.node? head with
    | none => simp [found] at tagged
    | some node =>
      cases node with
      | builtin op =>
        cases op with
        | form f => exact form f found
        | primitive p => exact primitive p found
      | closure params body captured => exact closure params body captured found
      | integer | boolean | symbol | pair | environment => simp [found, Node.tag?] at tagged

include law inside in
theorem step {expr : Ref} (holds : R.Holds s (hand.expect [expr])) (scope : env ∈ hand.scopes) :
    R.Runs (watched.step expr env) (full.step expr env) s (R.Yields hand) := by
  refine .get ?_
  split
  · exact .pure (law.settle holds)
  · exact .pure (law.settle holds)
  · exact law.resolve (of_expect holds) scope ‹_›
  · rename_i head operands found
    have pair : s.pair? expr = some (head, operands) := Store.pair?_eq_some.2 found
    have both := law.split holds pair
    refine (inside.evaluate .head (expect_cons both) scope).bind ?_
    intro procedure s₁ holds₁
    have applied (tagged : ((s₁.node? procedure).bind Node.tag?).isSome) :
        R.Runs (watched.copy procedure >>= fun copy => watched.apply copy operands env)
          (full.copy procedure >>= fun copy => full.apply copy operands env) s₁
          (R.Yields hand) := by
      obtain ⟨early, late, depth, ordered, copy, copy'⟩ := inside.copy
      rw [copy, copy']
      refine ((law.copy depth ordered holds₁ (by simp)).and fun ended =>
        tag_duplicate (duplicate_of_until ended)).bind ?_
      rintro c s₂ ⟨holds₂, same⟩
      rw [Yields, Hand.gain_gain] at holds₂
      refine (law.apply inside (expect_gain holds₂) (by simp) (same ▸ tagged) scope).imp ?_
      intro r s₃ holds₃
      rw [Yields, Hand.gain_gain] at holds₃
      exact gain_subset (by simp) holds₃
    refine .look ?_
    split
    · rename_i found'
      exact applied (by rw [found']; rfl)
    · rename_i found'
      exact applied (by rw [found']; rfl)
    · exact law.fail holds₁ rfl
  · rename_i integer boolean symbol pair
    refine .throw holds (law.stuck holds fun node found => ?_)
    cases node with
    | integer => exact (integer _ found).elim
    | boolean => exact (boolean _ found).elim
    | symbol => exact (symbol _ found).elim
    | pair => exact (pair _ _ found).elim
    | environment | builtin | closure => rfl

end Regime.Lawful

/-! ## Evaluation under a watch -/

/-- Evaluate an expression, but stop at the first moment that is waited for.  The moments are those
at which an evaluation begins or ends, this one or one that is inside of it, and those at which a
copy has been made. -/
def evaluateUntil (watch : Watch) : (budget : Nat) → Ref → Loc → StoreM Ref
  | n + 5, expr, env => do
    pause watch (.before expr env)
    let value ← Engine.step {
      evaluate := fun
        | .head => evaluateUntil watch (n + 4)
        | .single => evaluateUntil watch (n + 2)
        | .row => evaluateUntil watch n
      copy := duplicateUntil watch (copyDepth (n + 5)) } expr env
    pause watch (.behind expr env)
    return value
  | _, _, _ => throw .tooDeep

/-- The engine for what is inside of an evaluation under a watch. -/
def Engine.withinUntil (watch : Watch) (budget : Nat) : Engine where
  evaluate place := evaluateUntil watch (budget - place.cost)
  copy := duplicateUntil watch (copyDepth budget)

theorem evaluateUntil_eq_step {watch : Watch} {budget : Nat} (h : Place.row.cost ≤ budget)
    (expr : Ref) (env : Loc) : evaluateUntil watch budget expr env = do
      pause watch (.before expr env)
      let value ← (Engine.withinUntil watch budget).step expr env
      pause watch (.behind expr env)
      return value := by
  obtain ⟨n, rfl⟩ := Nat.exists_eq_add_of_le' h
  have places : (Engine.withinUntil watch (n + 5)).evaluate = fun
      | .head => evaluateUntil watch (n + 4)
      | .single => evaluateUntil watch (n + 2)
      | .row => evaluateUntil watch n := by
    funext place
    cases place <;> rfl
  rw [Place.cost, evaluateUntil, ← places]
  rfl

theorem evaluateUntil_of_lt {watch : Watch} {budget : Nat} (h : budget < Place.row.cost)
    (expr : Ref) (env : Loc) : evaluateUntil watch budget expr env = throw .tooDeep := by
  match budget, h with
  | 0, _ | 1, _ | 2, _ | 3, _ | 4, _ => rfl

/-- What is inside of an evaluation has less to spend. -/
theorem sub_cost_lt {budget : Nat} (h : Place.row.cost ≤ budget) (place : Place) :
    budget - place.cost < budget := by
  have positive : 0 < place.cost := by cases place <;> decide
  have : 0 < Place.row.cost := by decide
  omega

/-- Evaluation is evaluation under a watch that waits for nothing. -/
theorem evaluateUntil_never (budget : Nat) : evaluateUntil .never budget = evaluate budget := by
  induction budget using Nat.strongRecOn with
  | ind budget ih =>
    funext expr env
    by_cases enough : Place.row.cost ≤ budget
    · have same : Engine.withinUntil .never budget = Engine.within budget := by
        rw [Engine.withinUntil, Engine.within, Engine.mk.injEq]
        exact ⟨funext fun place => ih _ (sub_cost_lt enough place),
          duplicateUntil_eq (fun _ _ => rfl) _⟩
      have idle (moment : Moment) : pause .never moment = pure () := rfl
      rw [evaluateUntil_eq_step enough, evaluate_eq_step enough, same, idle, idle]
      simp only [pure_bind, bind_pure]
    · rw [evaluateUntil_of_lt (by omega), evaluate_of_lt (by omega)]

namespace Regime.Lawful

variable {R : Regime} (law : R.Lawful) {s : Store} {hand : Hand}
include law

/-- Evaluation keeps to a lawful regime, within any budget and at every moment: at one that the
first watch waits for, and at a later one, that the second watch waits for. -/
theorem evaluateUntil {early late : Watch} (ordered : R.Ordered early late) (budget : Nat)
    {expr : Ref} {env : Loc} (holds : R.Holds s (hand.expect [expr])) (scope : env ∈ hand.scopes) :
    R.Runs (evaluateUntil early budget expr env) (evaluateUntil late budget expr env) s
      (R.Yields hand) := by
  have fails : R.Fails .tooDeep := law.ordinary rfl
  -- What is inside of an evaluation has less to spend, wherever it stands.
  induction budget using Nat.strongRecOn generalizing s hand expr env with
  | ind budget ih =>
    by_cases enough : Place.row.cost ≤ budget
    · have inside : Engine.Follows R (Engine.withinUntil early budget)
          (Engine.withinUntil late budget) :=
        ⟨fun place holds scope => ih _ (sub_cost_lt enough place) holds scope,
          early, late, _, ordered, rfl, rfl⟩
      rw [evaluateUntil_eq_step enough, evaluateUntil_eq_step enough]
      refine (Runs.pause (R.Holds · (hand.expect [expr])) (ordered.more _) holds fails
        holds).bind ?_
      intro _ s₁ holds₁
      refine (law.step inside holds₁ scope).bind fun r s₂ holds₂ => ?_
      refine (Runs.pause (R.Yields hand r) (ordered.more _) holds₂ fails holds₂).bind ?_
      intro _ s₃ holds₃
      exact .pure holds₃
    · rw [evaluateUntil_of_lt (by omega), evaluateUntil_of_lt (by omega)]
      exact .throw holds fails

/-- Evaluation keeps to a lawful regime, within any budget. -/
theorem evaluate (admits : R.Admits .never) (budget : Nat) {expr : Ref} {env : Loc}
    (holds : R.Holds s (hand.expect [expr])) (scope : env ∈ hand.scopes) :
    R.Does (LittleScheme.evaluate budget expr env) s (R.Yields hand) := by
  rw [← evaluateUntil_never]
  exact law.evaluateUntil ⟨admits, admits, fun _ _ => id⟩ budget holds scope

end Regime.Lawful

end LittleScheme
