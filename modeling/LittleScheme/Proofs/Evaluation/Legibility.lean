import LittleScheme.Proofs.Datum.Refusal
import LittleScheme.Proofs.Evaluation.Regime
import LittleScheme.Proofs.Store.Description

/-!
# Legible values

A store is legible if its integers are signed 64-bit integers and its symbols have names that a
source can have.  Evaluation makes no other atoms, since what it computes is wrapped, and it makes
no symbols but copies.  So the errors that it may stop with stand on one line.  Nothing else is
asked of the store, so the regime `legibility` holds at any moment, whatever is in hand.
-/

namespace LittleScheme

open Text

/-- If the node is an atom, it is readable. -/
def Node.Legible : Node → Prop
  | .integer value => (Atom.integer value).Readable
  | .symbol name => (Atom.symbol name).Readable
  | _ => True

theorem Atom.Readable.legible {a : Atom} (readable : a.Readable) : a.node.Legible := by
  cases a with
  | boolean value => trivial
  | integer value | symbol name => exact readable

/-- Readable names stand on one line. -/
theorem Atom.Readable.oneLine {name : String} (readable : (Atom.symbol name).Readable) :
    OneLine name :=
  readable.spelled.oneLine

/-- What the store holds is legible. -/
def Store.Legible (s : Store) : Prop := ∀ r node, s.node? r = some node → node.Legible

namespace Store.Legible

variable {s : Store} {node : Node}

theorem register (legible : s.Legible) (new : node.Legible) : (s.register node).Legible := by
  intro r node' found
  rw [node?_register] at found
  split at found
  · cases found
    exact new
  · exact legible r node' found

theorem write (legible : s.Legible) (loc : Loc) (new : node.Legible) :
    (s.write loc node).Legible := by
  intro r node' found
  by_cases here : r = .cell loc
  · subst here
    by_cases exist : loc < s.size
    · rw [s.node?_write exist, if_pos rfl] at found
      cases found
      exact new
    · rw [node?_eq_none _ (by simpa using exist)] at found
      cases found
  · rw [s.node?_write_of_ne node here] at found
    exact legible r node' found

theorem define (legible : s.Legible) (env : Loc) (name : String) (value : Ref) :
    (s.define env name value).Legible := by
  rw [Store.define]
  split
  · exact legible.write env (by trivial)
  · exact legible

theorem congr {s' : Store} (legible : s.Legible) (same : s'.node? = s.node?) : s'.Legible := by
  rw [Store.Legible, same]
  exact legible

end Store.Legible

/-- The regime of legible stores, under which lines of these tokens are carried out. -/
def legibility (tokens : List Token) : Regime where
  Admits _ := True
  Holds s _ := s.Legible
  Since _ _ := True
  Fails fault := fault.isInternal = false → Reportable tokens fault
  weaken _ holds := holds
  refl _ := trivial
  trans _ _ := trivial

namespace legibility

variable {tokens : List Token} {s : Store}

/-- A computation keeps the store legible. -/
abbrev Keeps (tokens : List Token) {α : Type} (action : StoreM α) (s : Store) : Prop :=
  (legibility tokens).Does action s fun _ s' => s'.Legible

theorem throw {α : Type} {fault : Fault} (legible : s.Legible)
    (fails : (legibility tokens).Fails fault) :
    Keeps tokens (MonadExcept.throw fault : StoreM α) s := by
  have holds : (legibility tokens).Holds s {} := legible
  exact .throw holds fails

theorem fails_tooDeep : (legibility tokens).Fails .tooDeep := fun _ => .of_generic rfl

theorem fails_endless : (legibility tokens).Fails .endless := fun internal => by cases internal

theorem allocate {node : Node} (legible : s.Legible) (new : node.Legible) :
    Keeps tokens (LittleScheme.allocate node) s :=
  .of_ok rfl trivial (legible.register new)

theorem make {node : Node} (legible : s.Legible) (new : node.Legible) :
    Keeps tokens (LittleScheme.make node) s :=
  (allocate legible new).bind fun _ _ legible' => .pure legible'

theorem overwrite {node : Node} (legible : s.Legible) (loc : Loc) (new : node.Legible) :
    Keeps tokens (LittleScheme.overwrite loc node) s :=
  .of_ok rfl trivial (legible.write loc new)

theorem define (legible : s.Legible) (env : Loc) (name : String) (value : Ref) :
    Keeps tokens (LittleScheme.define env name value) s :=
  .of_ok rfl trivial (legible.define env name value)

theorem assign (legible : s.Legible) (env : Loc) {name : String} (value : Ref)
    (fails : (legibility tokens).Fails (.error (.unbound name))) :
    Keeps tokens (LittleScheme.assign env name value) s := by
  have holds : (legibility tokens).Holds s {} := legible
  cases bound : s.lookup? env name with
  | none =>
    refine .of_error (assign_of_unbound bound value) trivial holds ?_
    rw [Store.unresolved]
    split
    · exact fails_endless
    · exact fails
  | some previous =>
    refine .of_ok (assign_of_bound bound value) trivial ?_
    rw [Store.assign]
    split
    · exact legible.define _ name value
    · exact legible

theorem makeClosure (legible : s.Legible) (params body : List Ref) (env : Option Loc) :
    Keeps tokens (LittleScheme.makeClosure params body env) s := by
  refine .get ?_
  split
  · refine (allocate legible (by trivial)).bind fun captured s' legible' => ?_
    exact make legible' (by trivial)
  · exact throw legible fun _ => .of_generic rfl

/-! ## Copies -/

theorem copyEach {copy : Ref → StoreM Ref} {rs : List Ref}
    (one : ∀ {s r}, s.Legible → Keeps tokens (copy r) s) (legible : s.Legible) :
    Keeps tokens (LittleScheme.copyEach copy rs) s := by
  induction rs generalizing s with
  | nil => exact .pure legible
  | cons r rs ih =>
    refine (one legible).bind fun c s₁ legible₁ => ?_
    refine (ih legible₁).bind fun cs s₂ legible₂ => ?_
    exact .pure legible₂

theorem copyBindings {copy : Ref → StoreM Ref} {bindings : List (String × Ref)}
    (one : ∀ {s r}, s.Legible → Keeps tokens (copy r) s) (legible : s.Legible) :
    Keeps tokens (LittleScheme.copyBindings copy bindings) s := by
  induction bindings generalizing s with
  | nil => exact .pure legible
  | cons binding rest ih =>
    refine (one legible).bind fun c s₁ legible₁ => ?_
    refine (ih legible₁).bind fun cs s₂ legible₂ => ?_
    exact .pure legible₂

theorem copyCaptured {copy : Ref → StoreM Ref} {env : Option Loc}
    (one : ∀ {s r}, s.Legible → Keeps tokens (copy r) s) (legible : s.Legible) :
    Keeps tokens (LittleScheme.copyCaptured copy env) s := by
  cases env with
  | none => exact .pure legible
  | some env => exact (one legible).bind fun c s' legible' => .pure legible'

/-- Copies are legible: they are made of what was there, and of pairs, frames and procedures. -/
theorem copyFrom (fuel depth : Nat) (active : Active) (r : Ref) (legible : s.Legible) :
    Keeps tokens (LittleScheme.copyFrom fuel depth active r) s := by
  induction fuel generalizing s depth active r with
  | zero =>
    cases r with
    | nil => exact .pure legible
    | cell loc => exact throw legible fails_tooDeep
  | succ fuel ih =>
    cases r with
    | nil => exact .pure legible
    | cell loc =>
      cases depth with
      | zero => exact throw legible fails_tooDeep
      | succ depth =>
        rw [LittleScheme.copyFrom]
        split
        · exact .pure legible
        · refine .look ?_
          split
          · exact .pure legible
          · refine (allocate legible (by trivial)).bind fun copy s₁ legible₁ => ?_
            refine (ih _ _ _ legible₁).bind fun first s₂ legible₂ => ?_
            refine (ih _ _ _ legible₂).bind fun second s₃ legible₃ => ?_
            exact (overwrite legible₃ copy (by trivial)).bind fun _ _ legible₄ => .pure legible₄
          · refine (allocate legible (by trivial)).bind fun copy s₁ legible₁ => ?_
            refine (copyBindings (ih _ _ _) legible₁).bind fun bindings s₂ legible₂ => ?_
            exact (overwrite legible₂ copy (by trivial)).bind fun _ _ legible₃ => .pure legible₃
          · refine (allocate legible (by trivial)).bind fun copy s₁ legible₁ => ?_
            refine (copyEach (ih _ _ _) legible₁).bind fun params s₂ legible₂ => ?_
            refine (copyEach (ih _ _ _) legible₂).bind fun body s₃ legible₃ => ?_
            refine (copyCaptured (ih _ _ _) legible₃).bind fun env s₄ legible₄ => ?_
            exact (overwrite legible₄ copy (by trivial)).bind fun _ _ legible₅ => .pure legible₅
          · exact make legible (legible _ _ ‹_›)

theorem duplicateUntil {early late : Watch} (ordered : (legibility tokens).Ordered early late)
    (depth : Nat) (r : Ref) (legible : s.Legible) :
    (legibility tokens).Runs (LittleScheme.duplicateUntil early depth r)
      (LittleScheme.duplicateUntil late depth r) s fun _ s' => s'.Legible := by
  have copied : Keeps tokens (duplicate depth r) s := .get (copyFrom _ depth ∅ r legible)
  have holds (c : Ref) (s' : Store) (legible : s'.Legible) :
      (legibility tokens).Holds s' {} := legible
  exact .duplicateUntil ordered fails_tooDeep copied holds

theorem copyEachUntil {early late : Watch} (ordered : (legibility tokens).Ordered early late)
    (depth : Nat) (rs : List Ref) (legible : s.Legible) :
    (legibility tokens).Runs (LittleScheme.copyEach (LittleScheme.duplicateUntil early depth) rs)
      (LittleScheme.copyEach (LittleScheme.duplicateUntil late depth) rs) s
      fun _ s' => s'.Legible := by
  induction rs generalizing s with
  | nil => exact .pure legible
  | cons r rs ih =>
    refine (duplicateUntil ordered depth r legible).bind fun c s₁ legible₁ => ?_
    refine (ih legible₁).bind fun cs s₂ legible₂ => ?_
    exact .pure legible₂

end legibility

/-- The elementary steps of evaluation keep stores legible. -/
theorem lawful_legibility (tokens : List Token) : (legibility tokens).Lawful where
  ordinary generic _ := .of_generic generic
  unbound legible found _ := by
    have readable := legible _ _ found
    exact .of_error rfl (by simpa [Error.quotes] using Atom.Readable.oneLine readable)
  endless _ _ _ := legibility.fails_endless
  stuck {s} {_} {expr} _ _ := by
    rcases s.objection_cases .cannotEvaluate expr with ⟨shown, same⟩ | same | same <;> rw [same]
    · exact fun internal => by cases internal
    · exact legibility.fails_tooDeep
    · exact legibility.fails_endless
  settle := id
  split legible _ := legible
  nil := id
  lookup legible _ _ := legible
  fields legible _ _ := legible
  code legible _ _ := legible
  perform _ _ _ := trivial
  atom a computed legible := by
    refine legibility.make legible (Atom.Readable.legible ?_)
    cases a with
    | integer value => exact computed
    | boolean value => trivial
    | symbol name => exact computed.elim
  pair legible _ _ := legibility.make legible (by trivial)
  procedure legible _ _ := legibility.makeClosure legible _ _ _
  copy depth ordered legible _ := legibility.duplicateUntil ordered depth _ legible
  define depth name _ ordered legible _ _ :=
    (legibility.duplicateUntil ordered depth _ legible).bind fun c _ legible' =>
      legibility.define legible' _ name c
  defineProcedure name _ legible _ _ :=
    (legibility.makeClosure legible _ _ _).bind fun c _ legible' =>
      legibility.define legible' _ name c
  assign depth name _ ordered legible fails _ _ :=
    (legibility.duplicateUntil ordered depth _ legible).bind fun c _ legible' =>
      legibility.assign legible' _ c fails
  replace depth field _ ordered legible _ _ _ _ :=
    (legibility.duplicateUntil ordered depth _ legible).bind fun c _ legible' =>
      legibility.overwrite legible' _ (by cases field <;> trivial)
  tie field _ legible _ _ := legibility.overwrite legible _ (by cases field <;> trivial)
  enter depth ordered copies copies' legible _ _ := by
    rw [Engine.enterCall, Engine.enterCall, copies, copies']
    refine (legibility.copyEachUntil ordered depth _ legible).bind fun values s₁ legible₁ => ?_
    refine .get ?_
    split
    · refine (legibility.allocate legible₁ (by trivial)).discard.bind ?_
      rintro _ s₂ ⟨_, legible₂⟩
      exact legibility.throw legible₂ fun internal => by cases internal
    · exact legibility.allocate legible₁ (by trivial)
  unfold depth ordered legible _ := legibility.copyEachUntil ordered depth _ legible

end LittleScheme
