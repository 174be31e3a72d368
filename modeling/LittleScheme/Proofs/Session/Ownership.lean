import LittleScheme.Proofs.Evaluation.Ownership
import LittleScheme.Proofs.Session.Discipline
import LittleScheme.Proofs.Store.Collection

/-!
# Bound data have one owner

Every pair that is part of the value of some variable is referred to once: by the binding of the
variable, or by a field of another such pair.  So the values of two variables have no pair in
common, what is stored in a field of a pair of one of them does not show in the other, and no chain
of fields leads back to where it started, except from a pair to itself.  All this holds after any
lines of a session (`holder_unique_afterAll`).
-/

namespace LittleScheme

namespace Store

/-- `r'` is part of `r`: it is met on some way from `r` along the fields of pairs. -/
inductive Contains (s : Store) (r : Ref) : Ref → Prop
  | refl : Contains s r r
  | step {r' : Ref} {fields : Ref × Ref} (path : Contains s r r') (found : s.pair? r' = some fields)
    (field : Field) : Contains s r (field.get fields)

variable {s s' : Store}

/-- Parts stay parts in a store where all of them have the same contents. -/
theorem Contains.of_node? {r r' : Ref} (same : ∀ q, s.Contains r q → s'.node? q = s.node? q)
    (path : s.Contains r r') : s'.Contains r r' := by
  induction path with
  | refl => exact .refl
  | step path found field ih =>
    refine .step ih ?_ field
    rw [pair?_eq, same _ path, ← pair?_eq, found]

/-- A store where all parts of a value have the same contents gives it no others. -/
theorem Contains.of_node?' {r r' : Ref} (same : ∀ q, s.Contains r q → s'.node? q = s.node? q)
    (path : s'.Contains r r') : s.Contains r r' := by
  induction path with
  | refl => exact .refl
  | step path found field ih =>
    refine .step ih ?_ field
    rw [pair?_eq, ← same _ ih, ← pair?_eq, found]

/-- On a way along the fields, ranks decrease or the place stays the same. -/
theorem Ranked.of_contains {rank : Loc → Nat} (ranked : s.Ranked rank) {p q : Loc}
    (path : s.Contains (.cell p) (.cell q)) : q = p ∨ rank q < rank p := by
  generalize eq : Ref.cell q = r at path
  induction path generalizing q with
  | refl =>
    left
    simpa using eq
  | @step r' fields path found field ih =>
    cases r' with
    | nil => simp [pair?] at found
    | cell l =>
      obtain ⟨-, -, order⟩ := ranked.data (pair?_eq_some.1 found) (Node.mem_data eq.symm)
      rcases order, ih rfl with ⟨rfl | less, rfl | less'⟩
      · exact .inl rfl
      · exact .inr less'
      · exact .inr less
      · exact .inr (Nat.lt_trans less less')

/-! ## Roots -/

/-- The owners of a cell lead up to a binding. -/
inductive Rooted (owner : Loc → Option Holder) (env : Loc) (name : String) : Loc → Prop
  | slot {p : Loc} (owned : owner p = some (.slot env name)) : Rooted owner env name p
  | field {p q : Loc} {field : Field} (root : Rooted owner env name p)
    (owned : owner q = some (.field p field)) : Rooted owner env name q

section Owners

variable {owner : Loc → Option Holder}

theorem Rooted.ne_none {env : Loc} {name : String} {p : Loc} (root : Rooted owner env name p) :
    owner p ≠ none := by
  cases root with
  | slot owned => simp [owned]
  | field _ owned => simp [owned]

/-- They lead to no more than one. -/
theorem Rooted.unique {env env' : Loc} {name name' : String} {p : Loc}
    (root : Rooted owner env name p) (root' : Rooted owner env' name' p) :
    env = env' ∧ name = name' := by
  induction root with
  | slot owned =>
    cases root' with
    | slot owned' => simpa [owned] using owned'
    | field _ owned' => simp [owned] at owned'
  | field _ owned ih =>
    cases root' with
    | slot owned' => simp [owned] at owned'
    | field root' owned' =>
      obtain ⟨rfl, -⟩ : _ ∧ _ := by simpa [owned] using owned'
      exact ih root'

/-- The parts of what is bound lie below the binding. -/
theorem Owned.rooted (owned : s.Owned owner) {env : Loc} {name : String} {v : Ref}
    (bound : s.valueAt? name env = some v) {p : Loc} (path : s.Contains v (.cell p)) :
    Rooted owner env name p := by
  generalize eq : Ref.cell p = r at path
  induction path generalizing p with
  | refl =>
    subst eq
    exact .slot (owned.slots bound).2.2
  | @step r' fields path found field ih =>
    cases r' with
    | nil => simp [pair?] at found
    | cell l =>
      have root := ih rfl
      by_cases self : p = l
      · subst self
        exact root
      · exact .field root (owned.fields root.ne_none fields found field p eq.symm self)

end Owners

end Store

/-- Storing in a field of a pair changes no other cell. -/
theorem node?_storeField {o : Ownership} {s s' : Store} (fits : o.Fits s) {engine : Engine}
    {depth : Nat} (copy : engine.copy = duplicate depth) {field : Field} {p : Loc}
    {r previous : Ref} (value : ownership.Value s r)
    (ended : engine.storeField field (.cell p) r s = .ok previous s') {l : Loc}
    (exist : l < s.size) (other : l ≠ p) : s'.node? (.cell l) = s.node? (.cell l) := by
  have written {t : Store} (node : Node) : (t.write p node).node? (.cell l) = t.node? (.cell l) :=
    Store.node?_write_of_ne t node (by simpa using other)
  have looked : (get : StoreM Store) s = .ok s s := rfl
  rw [Engine.storeField, StoreM.bind_ok looked] at ended
  cases found : s.pair? (.cell p) with
  | none =>
    simp only [found] at ended
    cases ended
  | some fields =>
    simp only [found] at ended
    split at ended
    · cases ended
      exact written _
    · rw [copy] at ended
      cases copied : duplicate depth r s with
      | error fault t =>
        rw [StoreM.bind_error copied] at ended
        cases ended
      | ok c t =>
        rw [StoreM.bind_ok copied] at ended
        cases ended
        obtain ⟨o', copies, -⟩ := (o.duplicate depth fits value).ok copied
        rw [written, copies.node? exist]

/-! ## Sessions -/

namespace Session

variable (session : Session)

/-- A frame that can be reached from the global one binds the name to the value. -/
def Binds (env : Loc) (name : String) (v : Ref) : Prop :=
  session.store.Reaches (.cell session.globals) (.cell env) ∧
    session.store.valueAt? name env = some v

/-- The value is part of what some name is bound to. -/
def Bound (r : Ref) : Prop := ∃ env name v, session.Binds env name v ∧ session.store.Contains v r

/-- The binding is bound to the value, or the field of a bound pair holds it. -/
def Refers : Holder → Ref → Prop
  | .slot env name, r => session.Binds env name r
  | .field p field, r =>
    session.Bound (.cell p) ∧
      ∃ fields, session.store.pair? (.cell p) = some fields ∧ field.get fields = r

variable {session} {o : Ownership} (fits : o.Fits session.store)
include fits

theorem owner_ne_none {p : Loc} (bound : session.Bound (.cell p)) : o.owner p ≠ none := by
  obtain ⟨env, name, v, ⟨-, binds⟩, path⟩ := bound
  exact (fits.owned.rooted binds path).ne_none

/-- What refers to a value from outside is its owner. -/
theorem owner_eq_of_refers {h : Holder} {p : Loc} (outside : ∀ field, h ≠ .field p field)
    (refers : session.Refers h (.cell p)) : o.owner p = some h := by
  cases h with
  | slot env name => exact (fits.owned.slots refers.2).2.2
  | field q field =>
    obtain ⟨bound, fields, found, held⟩ := refers
    refine fits.owned.fields (owner_ne_none fits bound) fields found field p held ?_
    rintro rfl
    exact outside field rfl

/-- What two bindings are bound to has no part in common. -/
theorem slot_unique {env env' : Loc} {name name' : String} {v v' : Ref}
    (binds : session.Binds env name v) (binds' : session.Binds env' name' v') {p : Loc}
    (path : session.store.Contains v (.cell p)) (path' : session.store.Contains v' (.cell p)) :
    env = env' ∧ name = name' :=
  (fits.owned.rooted binds.2 path).unique (fits.owned.rooted binds'.2 path')

/-- What happens to one part of what a binding is bound to does not show at another binding. -/
theorem node?_eq_of_contains {env env' : Loc} {name name' : String} {v v' : Ref}
    (binds : session.Binds env name v) (binds' : session.Binds env' name' v')
    (different : (env, name) ≠ (env', name')) {p : Loc}
    (path : session.store.Contains v (.cell p)) {s' : Store}
    (same : ∀ l, l < session.store.size → l ≠ p →
      s'.node? (.cell l) = session.store.node? (.cell l))
    {q : Ref} (path' : session.store.Contains v' q) : s'.node? q = session.store.node? q := by
  cases q with
  | nil => rfl
  | cell l =>
    refine same l ?_ ?_
    · refine Nat.lt_of_not_le fun beyond => ?_
      exact (fits.owned.rooted binds'.2 path').ne_none (fits.owned.vacant beyond)
    · rintro rfl
      obtain ⟨rfl, rfl⟩ := slot_unique fits binds binds' path path'
      exact different rfl

end Session

/-- Collections change no contents. -/
theorem collects_ownership : ownership.Collects := by
  rintro s env ⟨o, fits⟩ ⟨⟨frame, here⟩, scope⟩
  have same : ∀ r, (s.collect (.cell env)).2.node? r = s.node? r := Store.node?_collect s _
  refine ⟨⟨o, fits.congr same⟩, ⟨frame, ?_⟩, ?_⟩
  · rw [Store.frame?_eq, same, ← Store.frame?_eq, here]
  · intro l node found
    exact scope l node ((same _).symm.trans found)

/-- In a new session, nothing has captured the global frame. -/
theorem ownership_holds_start (collectOnError : Bool) (limit : Nat) :
    ownership.Holds (Session.start collectOnError limit) := by
  refine lawful_ownership.holds_start ?_ collectOnError limit
  have empty (r : Ref) : ({} : Store).node? r = none := by cases r <;> simp [Store.node?]
  have fits : Ownership.Fits ⟨fun _ => 0, fun _ => none⟩ {} := by
    refine ⟨⟨?_, ?_⟩, ⟨?_, ?_, fun _ => rfl⟩⟩
    · intro l node q found
      simp [empty] at found
    · intro l node env found
      simp [empty] at found
    · intro env name q bound
      simp [Store.valueAt?, Store.frame?_eq, empty] at bound
    · intro p has
      exact absurd rfl has
  exact .of_ok rfl (ownership.keeps_register (ownership.fits_registerFrame fits none)
    (by simp [Node.captured])) (ownership.scope_register fits _)

/-- Bound data have one owner.  Whatever a session has done, a pair that is part of what some name
is bound to is referred to at most once, by a binding or by a field of another such pair.  The
values of two bindings have no pair in common; what is stored in a field of a pair of one of them
leaves the other as it is.  Parts of each other are the same pair. -/
theorem holder_unique_afterAll (collectOnError : Bool) (limit : Nat)
    (actions : List Session.Action) :
    let session := (Session.start collectOnError limit).afterAll actions
    let s := session.store
    (∀ p fields, session.Bound (.cell p) → s.pair? (.cell p) = some fields →
        ∀ h h', (∀ field, h ≠ .field p field) → (∀ field, h' ≠ .field p field) →
          session.Refers h (.cell p) → session.Refers h' (.cell p) → h = h') ∧
      (∀ env name v env' name' v', session.Binds env name v → session.Binds env' name' v' →
        (env, name) ≠ (env', name') →
        ∀ p fields, s.pair? (.cell p) = some fields → s.Contains v (.cell p) →
          ¬s.Contains v' (.cell p) ∧
            ∀ budget field r previous s',
              (∀ l, r = .cell l → ∃ node, s.node? r = some node ∧ node.frame? = none) →
              (Engine.within budget).storeField field (.cell p) r s = .ok previous s' →
              ∀ q, (s'.Contains v' q ↔ s.Contains v' q) ∧
                (s.Contains v' q → s'.node? q = s.node? q)) ∧
      ∀ p q, session.Bound (.cell p) → s.Contains (.cell p) (.cell q) →
        s.Contains (.cell q) (.cell p) → p = q := by
  intro session s
  have holds : ownership.Holds session :=
    lawful_ownership.holds_afterAll collects_ownership
      (ownership_holds_start collectOnError limit) actions
  obtain ⟨o, fits⟩ := holds.sound
  refine ⟨?_, ?_, ?_⟩
  · intro p fields _ _ h h' outside outside' refers refers'
    have owner := Session.owner_eq_of_refers fits outside refers
    rw [Session.owner_eq_of_refers fits outside' refers', Option.some.injEq] at owner
    exact owner.symm
  · intro env name v env' name' v' binds binds' different p fields found path
    refine ⟨?_, ?_⟩
    · intro path'
      obtain ⟨rfl, rfl⟩ := Session.slot_unique fits binds binds' path path'
      exact different rfl
    · intro budget field r previous s' value ended q
      have known : ownership.Value s r := by
        rintro l rfl
        obtain ⟨node, found, plain⟩ := value l rfl
        exact ⟨Store.lt_size found, by rw [Store.frame?_eq, found]; exact plain⟩
      have kept {q : Ref} (path' : s.Contains v' q) : s'.node? q = s.node? q :=
        Session.node?_eq_of_contains fits binds binds' different path
          (fun l exist other => node?_storeField fits rfl known ended exist other) path'
      exact ⟨⟨.of_node?' fun _ => kept, .of_node? fun _ => kept⟩, kept⟩
  · intro p q _ down up
    rcases fits.ranked.of_contains down, fits.ranked.of_contains up with
      ⟨same | less, same' | less'⟩
    · exact same.symm
    · exact same.symm
    · exact same'
    · omega

end LittleScheme
