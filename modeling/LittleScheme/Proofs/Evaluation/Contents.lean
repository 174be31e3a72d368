import LittleScheme.Proofs.Store.Collection
import LittleScheme.Session

/-!
# Evaluation sees contents only

Two stores are `Alike` if they have the same contents, whatever their registers, marks and counters
are.  From such stores reading, evaluation and printing come to the same end, with the same result
or the same fault, and leave stores behind that are alike again (`StoreM.Blind`).

Each computation is put together from a few that read the store and a few that change it.  What is
read is a function of the contents, and stores that are changed in the same way stay alike.
-/

namespace LittleScheme

namespace Store

/-- The stores have the same contents. -/
def Alike (s t : Store) : Prop := s.node? = t.node?

variable {s t : Store}

/-! ## What is read -/

theorem Alike.node? (alike : s.Alike t) : s.node? = t.node? := alike

theorem Alike.refl (s : Store) : s.Alike s := rfl

theorem Alike.symm (alike : s.Alike t) : t.Alike s := alike.node?.symm

theorem Alike.trans {u : Store} (alike : s.Alike t) (alike' : t.Alike u) : s.Alike u :=
  alike.node?.trans alike'.node?

theorem Alike.size (alike : s.Alike t) : s.size = t.size :=
  size_eq_of_node? fun r => congrFun alike r

theorem Alike.frame? (alike : s.Alike t) : s.frame? = t.frame? := by
  funext loc
  simp only [Store.frame?, alike.node?]

theorem Alike.symbolName? (alike : s.Alike t) : s.symbolName? = t.symbolName? := by
  funext r
  simp only [Store.symbolName?, alike.node?]

theorem Alike.integer? (alike : s.Alike t) : s.integer? = t.integer? := by
  funext r
  simp only [Store.integer?, alike.node?]

theorem Alike.boolean? (alike : s.Alike t) : s.boolean? = t.boolean? := by
  funext r
  simp only [Store.boolean?, alike.node?]

theorem Alike.pair? (alike : s.Alike t) : s.pair? = t.pair? := by
  funext r
  simp only [Store.pair?, alike.node?]

theorem Alike.isTruthy (alike : s.Alike t) : s.isTruthy = t.isTruthy := by
  funext r
  simp only [Store.isTruthy, alike.node?]

theorem Alike.chain (alike : s.Alike t) : s.chain = t.chain := by
  have steps (fuel : Nat) (seen : Std.TreeSet Loc) (r : Ref) :
      s.chainFrom fuel seen r = t.chainFrom fuel seen r := by
    induction fuel generalizing seen r with
    | zero => rfl
    | succ fuel ih => simp only [chainFrom, alike.pair?, ih]
  funext r
  rw [Store.chain, Store.chain, alike.size, steps]

theorem Alike.isProperList (alike : s.Alike t) : s.isProperList = t.isProperList := by
  funext r
  simp only [Store.isProperList, alike.chain]

theorem Alike.toList? (alike : s.Alike t) : s.toList? = t.toList? := by
  funext r
  simp only [Store.toList?, alike.chain]

theorem Alike.scopeFrom (alike : s.Alike t) : s.scopeFrom = t.scopeFrom := by
  funext fuel
  induction fuel with
  | zero => rfl
  | succ fuel ih =>
    funext loc
    simp only [Store.scopeFrom, alike.frame?, ih]

theorem Alike.scope (alike : s.Alike t) : s.scope = t.scope := by
  funext loc
  rw [Store.scope, Store.scope, alike.size, alike.scopeFrom]

theorem Alike.isEndless (alike : s.Alike t) : s.isEndless = t.isEndless := by
  funext loc
  rw [Store.isEndless, Store.isEndless, alike.size, alike.scopeFrom]

theorem Alike.bindsAt (alike : s.Alike t) : s.bindsAt = t.bindsAt := by
  funext name loc
  simp only [Store.bindsAt, alike.frame?]

theorem Alike.find? (alike : s.Alike t) : s.find? = t.find? := by
  funext env name
  simp only [Store.find?, alike.scope, alike.bindsAt]

theorem Alike.valueAt? (alike : s.Alike t) : s.valueAt? = t.valueAt? := by
  funext name loc
  simp only [Store.valueAt?, alike.frame?]

theorem Alike.lookup? (alike : s.Alike t) : s.lookup? = t.lookup? := by
  funext env name
  simp only [Store.lookup?, alike.find?, alike.valueAt?]

theorem Alike.unresolved (alike : s.Alike t) : s.unresolved = t.unresolved := by
  funext env name
  rw [Store.unresolved, Store.unresolved, alike.isEndless]

theorem Alike.integers? (alike : s.Alike t) : s.integers? = t.integers? := by
  funext rs
  induction rs with
  | nil => rfl
  | cons r rs ih => simp only [Store.integers?, alike.integer?, ih]

theorem Alike.drop? (alike : s.Alike t) : s.drop? = t.drop? := by
  funext k
  induction k with
  | zero => rfl
  | succ k ih =>
    funext r
    simp only [Store.drop?, alike.pair?, ih]

theorem Alike.kindName (alike : s.Alike t) : s.kindName = t.kindName := by
  funext r
  simp only [Store.kindName, alike.node?]

theorem Alike.brief (alike : s.Alike t) : s.brief = t.brief := by
  have steps (fuel : Nat) : s.briefFrom fuel = t.briefFrom fuel := by
    induction fuel with
    | zero => rfl
    | succ fuel ih =>
      funext r
      simp only [briefFrom, alike.node?, alike.kindName, ih]
  funext r
  rw [Store.brief, Store.brief, alike.size, steps]

theorem Alike.scopeSummary (alike : s.Alike t) : s.scopeSummary = t.scopeSummary := by
  funext loc
  unfold Store.scopeSummary
  rw [alike.scope, alike.frame?]

theorem Alike.describe (alike : s.Alike t) : s.describe = t.describe := by
  funext r
  unfold Store.describe
  simp only [alike.node?, alike.brief, alike.scopeSummary, alike.isEndless]

theorem Alike.objection (alike : s.Alike t) : s.objection = t.objection := by
  funext wording r
  rw [Store.objection, Store.objection, alike.describe]

theorem Alike.render (alike : s.Alike t) : s.render = t.render := by
  have steps (fuel depth : Nat) (path : Std.TreeSet Loc) (r : Ref) :
      s.pictureFrom fuel depth path r = t.pictureFrom fuel depth path r := by
    induction fuel generalizing depth path r with
    | zero => cases r <;> simp [pictureFrom]
    | succ fuel ih =>
      cases r with
      | nil => simp [pictureFrom]
      | cell loc =>
        cases depth with
        | zero => simp [pictureFrom]
        | succ depth => simp only [pictureFrom, alike.node?, alike.objection, ih]
  funext depth r
  simp only [Store.render, picture, alike.size, steps]

/-! ## What is changed -/

theorem Alike.register (alike : s.Alike t) (node : Node) :
    (s.register node).Alike (t.register node) := by
  funext r
  simp only [node?_register, alike.node?, alike.size]

theorem Alike.write (alike : s.Alike t) (loc : Loc) (node : Node) :
    (s.write loc node).Alike (t.write loc node) := by
  by_cases inside : loc < s.size
  · funext r
    rw [node?_write s inside, node?_write t (alike.size ▸ inside), alike.node?]
  · have untouched {u : Store} (outside : ¬loc < u.size) : (u.write loc node).Alike u := by
      funext r
      by_cases here : r = .cell loc
      · subst here
        rw [node?_eq_none _ (by simpa using outside), node?_eq_none _ (by simpa using outside)]
      · exact node?_write_of_ne u node here
    exact (untouched inside).trans (alike.trans (untouched (alike.size ▸ inside)).symm)

theorem Alike.define (alike : s.Alike t) (env : Loc) (name : String) (value : Ref) :
    (s.define env name value).Alike (t.define env name value) := by
  rw [Store.define, Store.define, alike.frame?]
  split
  · exact alike.write _ _
  · exact alike

theorem Alike.assign (alike : s.Alike t) (env : Loc) (name : String) (value : Ref) :
    (s.assign env name value).Alike (t.assign env name value) := by
  rw [Store.assign, Store.assign, alike.find?]
  split
  · exact alike.define _ _ _
  · exact alike

theorem alike_collect (s : Store) (root : Ref) : s.Alike (s.collect root).2 := by
  funext r
  exact (node?_collect s root r).symm

theorem alike_clear (s : Store) : s.Alike s.clear := by
  funext r
  cases r <;> rfl

end Store

/-! ## Computations -/

section Respects

variable {σ α β : Type}

/-- Both computations have come to the same end, and left states that are alike. -/
inductive Matches (alike : σ → σ → Prop) :
    EStateM.Result Fault σ α → EStateM.Result Fault σ α → Prop
  | ok (a : α) {s t : σ} (left : alike s t) : Matches alike (.ok a s) (.ok a t)
  | error (fault : Fault) {s t : σ} (left : alike s t) :
    Matches alike (.error fault s) (.error fault t)

/-- The computation does not tell states apart that are alike. -/
def Respects (alike : σ → σ → Prop) (action : EStateM Fault σ α) : Prop :=
  ∀ s t, alike s t → Matches alike (action s) (action t)

namespace Respects

variable {alike : σ → σ → Prop}

theorem pure (a : α) : Respects alike (Pure.pure a : EStateM Fault σ α) :=
  fun _ _ left => .ok a left

theorem throw (fault : Fault) : Respects alike (MonadExcept.throw fault : EStateM Fault σ α) :=
  fun _ _ left => .error fault left

theorem bind {action : EStateM Fault σ α} {next : α → EStateM Fault σ β}
    (first : Respects alike action) (second : ∀ a, Respects alike (next a)) :
    Respects alike (action >>= next) := by
  intro s t left
  change Matches alike (EStateM.bind action next s) (EStateM.bind action next t)
  rw [EStateM.bind, EStateM.bind]
  have matched := first s t left
  generalize action s = ended, action t = ended' at matched
  cases matched with
  | ok a left' => exact second a _ _ left'
  | error fault left' => exact .error fault left'

/-- What goes on with the state that it has looked at does not tell states apart if it goes on in
the same way from states that are alike. -/
theorem get {next : σ → EStateM Fault σ α} (same : ∀ {s t}, alike s t → next s = next t)
    (each : ∀ s, Respects alike (next s)) : Respects alike (MonadState.get >>= next) := by
  intro s t left
  change Matches alike (next s s) (next t t)
  rw [same left]
  exact each t s t left

theorem discard {action : EStateM Fault σ α} (respects : Respects alike action) :
    Respects alike (Functor.discard action) := by
  intro s t left
  change Matches alike (EStateM.map _ action s) (EStateM.map _ action t)
  rw [EStateM.map, EStateM.map]
  have matched := respects s t left
  generalize action s = ended, action t = ended' at matched
  cases matched with
  | ok a left' => exact .ok _ left'
  | error fault left' => exact .error fault left'

end Respects

end Respects

/-- The computation sees contents only. -/
abbrev StoreM.Blind {α : Type} (action : StoreM α) : Prop := Respects Store.Alike action

theorem Respects.fail {α : Type} (e : Error) : StoreM.Blind (LittleScheme.fail e : StoreM α) :=
  .throw _

open StoreM

/-! ### Making and changing values -/

theorem blind_allocate (node : Node) : Blind (allocate node) := by
  intro s t alike
  change Matches Store.Alike (.ok s.size (s.register node)) (.ok t.size (t.register node))
  rw [alike.size]
  exact .ok _ (alike.register node)

theorem blind_make (node : Node) : Blind (make node) :=
  (blind_allocate node).bind fun _ => .pure _

theorem blind_overwrite (loc : Loc) (node : Node) : Blind (overwrite loc node) :=
  fun _ _ alike => .ok _ (alike.write loc node)

theorem blind_define (env : Loc) (name : String) (value : Ref) : Blind (define env name value) :=
  fun _ _ alike => .ok _ (alike.define env name value)

theorem blind_resolve (env : Loc) (name : String) : Blind (resolve env name) := by
  refine .get (fun alike => by simp only [alike.lookup?, alike.unresolved]) fun s => ?_
  split
  · exact .pure _
  · exact .throw _

theorem blind_assign (env : Loc) (name : String) (value : Ref) : Blind (assign env name value) :=
  (blind_resolve env name).bind fun _ =>
    .bind (fun _ _ alike => .ok _ (alike.assign env name value)) fun _ => .pure _

theorem blind_listItems (category : Category) (r : Ref) : Blind (listItems category r) := by
  refine .get (fun alike => by simp only [alike.toList?]) fun s => ?_
  split
  · exact .pure _
  · exact .fail _

theorem blind_makeList (items : List Ref) (tail : Ref) : Blind (makeList items tail) := by
  induction items with
  | nil => exact .pure tail
  | cons item items ih => exact ih.bind fun _ => blind_make _

theorem blind_makeClosure (params body : List Ref) (env : Option Loc) :
    Blind (makeClosure params body env) := by
  refine .get (fun alike => by simp only [alike.symbolName?]) fun s => ?_
  split
  · exact (blind_allocate _).bind fun _ => blind_make _
  · exact .fail _

/-! ### Copying -/

section Copy

variable {copy : Ref → StoreM Ref} (one : ∀ r, Blind (copy r))
include one

theorem blind_copyEach (rs : List Ref) : Blind (copyEach copy rs) := by
  induction rs with
  | nil => exact .pure []
  | cons r rs ih => exact (one r).bind fun _ => ih.bind fun _ => .pure _

theorem blind_copyBindings (bindings : List (String × Ref)) :
    Blind (copyBindings copy bindings) := by
  induction bindings with
  | nil => exact .pure []
  | cons binding rest ih => exact (one binding.2).bind fun _ => ih.bind fun _ => .pure _

theorem blind_copyCaptured (env : Option Loc) : Blind (copyCaptured copy env) := by
  cases env with
  | none => exact .pure none
  | some env => exact (one (.cell env)).bind fun _ => .pure _

end Copy

theorem blind_copyFrom (fuel depth : Nat) (active : Active) (r : Ref) :
    Blind (copyFrom fuel depth active r) := by
  induction fuel generalizing depth active r with
  | zero =>
    cases r with
    | nil => exact .pure _
    | cell loc => exact .throw _
  | succ fuel ih =>
    cases r with
    | nil => exact .pure _
    | cell loc =>
      cases depth with
      | zero => exact .throw _
      | succ depth =>
        rw [copyFrom]
        split
        · exact .pure _
        · refine .bind (.get (fun alike => by rw [alike.node?]) fun _ => .pure _) fun node => ?_
          split
          · exact .pure _
          · exact (blind_allocate _).bind fun _ => (ih _ _ _).bind fun _ => (ih _ _ _).bind fun _ =>
              (blind_overwrite _ _).bind fun _ => .pure _
          · exact (blind_allocate _).bind fun _ =>
              (blind_copyBindings (ih _ _) _).bind fun _ =>
              (blind_overwrite _ _).bind fun _ => .pure _
          · exact (blind_allocate _).bind fun _ =>
              (blind_copyEach (ih _ _) _).bind fun _ => (blind_copyEach (ih _ _) _).bind fun _ =>
              (blind_copyCaptured (ih _ _) _).bind fun _ =>
              (blind_overwrite _ _).bind fun _ => .pure _
          · exact blind_make _

theorem blind_duplicate (depth : Nat) (r : Ref) : Blind (duplicate depth r) :=
  .get (fun alike => by rw [alike.size]) fun _ => blind_copyFrom _ _ _ _

/-! ### Primitives -/

namespace Primitive

variable (p : Primitive)

theorem blind_exactlyOne (args : List Ref) : Blind (p.exactlyOne args) := by
  rw [Primitive.exactlyOne.eq_def]
  split
  · exact .pure _
  · exact .fail _

theorem blind_exactlyTwo (args : List Ref) : Blind (p.exactlyTwo args) := by
  rw [Primitive.exactlyTwo.eq_def]
  split
  · exact .pure _
  · exact .fail _

theorem blind_atLeastOne (args : List Ref) : Blind (p.atLeastOne args) := by
  rw [Primitive.atLeastOne.eq_def]
  split
  · exact .fail _
  · exact .pure _

theorem blind_integers (args : List Ref) : Blind (p.integers args) := by
  refine .get (fun alike => by simp only [alike.integers?]) fun s => ?_
  split
  · exact .pure _
  · exact .fail _

theorem blind_fields (r : Ref) : Blind (p.fields r) := by
  refine .get (fun alike => by simp only [alike.pair?]) fun s => ?_
  split
  · exact .pure _
  · exact .fail _

theorem blind_index (r : Ref) : Blind (p.index r) := by
  refine .get (fun alike => by simp only [alike.integer?]) fun s => ?_
  split
  · exact .pure _
  · exact .fail _

theorem blind_test {property : Store → Ref → Bool}
    (same : ∀ {s t}, s.Alike t → property s = property t) (args : List Ref) :
    Blind (p.test property args) :=
  (p.blind_exactlyOne args).bind fun _ =>
    .get (fun alike => by rw [same alike]) fun _ => blind_make _

theorem blind_relate (relation : Int → Int → Bool) (args : List Ref) :
    Blind (p.relate relation args) :=
  (p.blind_integers args).bind fun _ => blind_make _

theorem blind_compute (f : List Int → Except Error Int) (args : List Ref) :
    Blind (p.compute f args) := by
  refine (p.blind_integers args).bind fun ns => ?_
  split
  · exact blind_make _
  · exact .fail _

theorem blind_item (args : List Ref) : Blind (p.item args) := by
  refine (p.blind_exactlyTwo args).bind fun rs => ?_
  refine (blind_listItems _ _).bind fun items => (p.blind_index _).bind fun k => ?_
  split
  · exact .pure _
  · exact .fail _

theorem blind_rest (args : List Ref) : Blind (p.rest args) := by
  refine (p.blind_exactlyTwo args).bind fun rs => (p.blind_index _).bind fun k => ?_
  refine .get (fun alike => by simp only [alike.drop?]) fun s => ?_
  split
  · exact .pure _
  · exact .fail _

/-- Primitives see contents only. -/
theorem blind_call (args : List Ref) : Blind (p.call args) := by
  cases p with
  | add | mul =>
    rw [call]
    exact blind_compute _ _ args
  | sub | div | max | min => exact (blind_atLeastOne _ args).bind fun _ => blind_compute _ _ _
  | abs => exact (blind_exactlyOne _ args).bind fun _ => blind_compute _ _ _
  | eq | lt | gt | le | ge => exact blind_relate _ _ args
  | isPair => exact blind_test _ (fun alike => by simp only [alike.pair?]) args
  | isNull => exact blind_test _ (fun _ => rfl) args
  | isList => exact blind_test _ (fun alike => by simp only [alike.isProperList]) args
  | isNumber => exact blind_test _ (fun alike => by simp only [alike.integer?]) args
  | isBoolean => exact blind_test _ (fun alike => by simp only [alike.boolean?]) args
  | isSymbol => exact blind_test _ (fun alike => by simp only [alike.symbolName?]) args
  | not => exact blind_test _ (fun alike => by simp only [alike.isTruthy]) args
  | list => exact blind_makeList args .nil
  | cons => exact (blind_exactlyTwo _ args).bind fun _ => blind_make _
  | car | cdr =>
    exact (blind_exactlyOne _ args).bind fun _ => (blind_fields _ _).bind fun _ => .pure _
  | listRef => exact blind_item _ args
  | listTail => exact blind_rest _ args

end Primitive

/-! ### Forms, calls and evaluation -/

namespace Engine

/-- What the engine does sees contents only. -/
structure Blind (engine : Engine) : Prop where
  evaluate : ∀ place expr env, StoreM.Blind (engine.evaluate place expr env)
  copy : ∀ r, StoreM.Blind (engine.copy r)

variable {engine : Engine} (inside : engine.Blind)

theorem blind_quote (args : List Ref) : StoreM.Blind (quote args) := by
  rw [quote.eq_def]
  split
  · exact .pure _
  · exact .fail _

theorem blind_lambda (env : Loc) (args : List Ref) : StoreM.Blind (lambda env args) := by
  rw [lambda.eq_def]
  split
  · exact (blind_listItems _ _).bind fun _ => blind_makeClosure _ _ _
  · exact .fail _

include inside

theorem blind_evaluateAll (env : Loc) (exprs : List Ref) :
    StoreM.Blind (engine.evaluateAll env exprs) := by
  induction exprs with
  | nil => exact .pure []
  | cons expr exprs ih => exact (inside.evaluate _ _ _).bind fun _ => ih.bind fun _ => .pure _

theorem blind_sequence (env : Loc) (last : Ref) (exprs : List Ref) :
    StoreM.Blind (engine.sequence env last exprs) := by
  induction exprs generalizing last with
  | nil => exact .pure last
  | cons expr exprs ih => exact (inside.evaluate _ _ _).bind fun value => ih value

theorem blind_branch (env : Loc) (args : List Ref) : StoreM.Blind (engine.branch env args) := by
  rw [branch.eq_def]
  split
  · refine (inside.evaluate _ _ _).bind fun value => ?_
    refine .get (fun alike => by simp only [alike.isTruthy]) fun s => ?_
    split
    · exact inside.evaluate _ _ _
    · exact .pure _
  · refine (inside.evaluate _ _ _).bind fun value => ?_
    refine .get (fun alike => by simp only [alike.isTruthy]) fun s => ?_
    split
    · exact inside.evaluate _ _ _
    · exact inside.evaluate _ _ _
  · exact .fail _

theorem blind_define (env : Loc) (args : List Ref) : StoreM.Blind (engine.define env args) := by
  rw [define.eq_def]
  split
  · refine .get (fun alike => by simp only [alike.node?, alike.toList?, alike.symbolName?])
      fun s => ?_
    split
    · split
      · exact (inside.evaluate _ _ _).bind fun _ => (inside.copy _).bind fun _ =>
          (LittleScheme.blind_define _ _ _).bind fun _ => .pure _
      · exact .fail _
    · split
      · split
        · exact (blind_makeClosure _ _ _).bind fun _ =>
            (LittleScheme.blind_define _ _ _).bind fun _ => .pure _
        · exact .fail _
      · exact .fail _
    · exact .fail _
  · exact .fail _

theorem blind_assign (env : Loc) (args : List Ref) : StoreM.Blind (engine.assign env args) := by
  rw [assign.eq_def]
  split
  · refine .get (fun alike => by simp only [alike.symbolName?]) fun s => ?_
    split
    · exact .fail _
    · exact (blind_resolve _ _).discard.bind fun _ => (inside.evaluate _ _ _).bind fun _ =>
        (inside.copy _).bind fun _ => LittleScheme.blind_assign _ _ _
  · exact .fail _

theorem blind_storeField (field : Field) (pair value : Ref) :
    StoreM.Blind (engine.storeField field pair value) := by
  refine .get (fun alike => by simp only [alike.pair?]) fun s => ?_
  split
  · split
    · exact (blind_overwrite _ _).bind fun _ => .pure _
    · exact (inside.copy _).bind fun _ => (blind_overwrite _ _).bind fun _ => .pure _
  · exact .fail _

theorem blind_setField (field : Field) (env : Loc) (args : List Ref) :
    StoreM.Blind (engine.setField field env args) := by
  rw [setField.eq_def]
  split
  · exact (inside.evaluate _ _ _).bind fun _ => (inside.evaluate _ _ _).bind fun _ =>
      blind_storeField inside _ _ _
  · exact .fail _

theorem blind_conj (env : Loc) (args : List Ref) : StoreM.Blind (engine.conj env args) := by
  induction args with
  | nil => exact blind_make _
  | cons expr exprs ih =>
    refine (inside.evaluate _ _ _).bind fun value => ?_
    refine .get (fun alike => by simp only [alike.isTruthy]) fun s => ?_
    split
    · split
      · exact .pure _
      · exact ih
    · exact blind_make _

theorem blind_disj (env : Loc) (args : List Ref) : StoreM.Blind (engine.disj env args) := by
  induction args with
  | nil => exact blind_make _
  | cons expr exprs ih =>
    refine (inside.evaluate _ _ _).bind fun value => ?_
    refine .get (fun alike => by simp only [alike.isTruthy]) fun s => ?_
    split
    · split
      · exact .pure _
      · exact blind_make _
    · exact ih

/-- Forms see contents only. -/
theorem blind_form (f : Form) (operands : Ref) (env : Loc) :
    StoreM.Blind (engine.form f operands env) := by
  refine (blind_listItems _ _).bind fun args => ?_
  cases f with
  | quote => exact blind_quote args
  | branch => exact blind_branch inside env args
  | define => exact blind_define inside env args
  | lambda => exact blind_lambda env args
  | assign => exact blind_assign inside env args
  | setCar => exact blind_setField inside .first env args
  | setCdr => exact blind_setField inside .second env args
  | conj => exact blind_conj inside env args
  | disj => exact blind_disj inside env args

theorem blind_enterCall (params values : List Ref) (captured : Option Loc) :
    StoreM.Blind (engine.enterCall params values captured) := by
  refine (blind_copyEach inside.copy values).bind fun copies => ?_
  refine .get (fun alike => by
    simp only [namelessParameter?, parameterBindings, alike.symbolName?, alike.kindName])
    fun s => ?_
  split
  · exact (blind_allocate _).discard.bind fun _ => .throw _
  · exact blind_allocate _

theorem blind_applyClosure (params body : List Ref) (captured : Option Loc) (operands : Ref)
    (env : Loc) : StoreM.Blind (engine.applyClosure params body captured operands env) := by
  refine (blind_listItems _ _).bind fun exprs => ?_
  split
  · exact (blind_evaluateAll inside _ _).bind fun _ => (blind_enterCall inside _ _ _).bind fun _ =>
      (blind_copyEach inside.copy _).bind fun _ => blind_sequence inside _ _ _
  · exact .fail _

theorem blind_apply (head operands : Ref) (env : Loc) :
    StoreM.Blind (engine.apply head operands env) := by
  refine .get (fun alike => by simp only [alike.node?, alike.objection]) fun s => ?_
  split
  · exact blind_form inside _ _ _
  · exact (blind_listItems _ _).bind fun _ => (blind_evaluateAll inside _ _).bind fun _ =>
      Primitive.blind_call _ _
  · exact blind_applyClosure inside _ _ _ _ _
  · exact .throw _

theorem blind_step (expr : Ref) (env : Loc) : StoreM.Blind (engine.step expr env) := by
  refine .get (fun alike => by simp only [alike.node?, alike.objection]) fun s => ?_
  split
  · exact .pure _
  · exact .pure _
  · exact blind_resolve _ _
  · have applied (procedure operands : Ref) :
        StoreM.Blind (engine.copy procedure >>= fun copy => engine.apply copy operands env) :=
      (inside.copy _).bind fun _ => blind_apply inside _ _ _
    refine (inside.evaluate _ _ _).bind fun procedure => ?_
    refine .bind (.get (fun alike => by rw [alike.node?]) fun _ => .pure _) fun node => ?_
    split
    · exact applied _ _
    · exact applied _ _
    · exact .fail _
  · exact .throw _

end Engine

/-- Evaluation sees contents only. -/
theorem blind_evaluate (budget : Nat) (expr : Ref) (env : Loc) :
    Blind (evaluate budget expr env) := by
  induction budget using Nat.strongRecOn generalizing expr env with
  | ind budget ih =>
    by_cases enough : Place.row.cost ≤ budget
    · rw [evaluate_eq_step enough]
      refine Engine.blind_step ⟨?_, blind_duplicate _⟩ expr env
      intro place expr env
      have positive : 0 < place.cost := by cases place <;> decide
      have : 0 < Place.row.cost := by decide
      exact ih _ (by omega) expr env
    · rw [evaluate_of_lt (by omega)]
      exact .throw _

/-! ### Reading and printing -/

theorem blind_build (d : Datum) : Blind (build d) := by
  induction d with
  | nil => exact .pure _
  | leaf a => exact blind_make _
  | pair first second ihFirst ihSecond =>
    exact ihFirst.bind fun _ => ihSecond.bind fun _ => blind_make _

theorem blind_readValue (limit : Nat) (source : String) : Blind (readValue limit source) := by
  have all (ds : List Datum) : Blind (buildAll ds) := by
    induction ds with
    | nil => exact .pure []
    | cons d ds ih => exact (blind_build d).bind fun _ => ih.bind fun _ => .pure _
  rw [readValue]
  split
  · exact blind_build _
  · exact (all _).discard.bind fun _ => .throw _

theorem blind_valueText (budget depth : Nat) (globals : Loc) (expr : Ref) :
    Blind (Session.valueText budget depth globals expr) := by
  refine (blind_evaluate budget expr globals).bind fun value => ?_
  refine .get (fun alike => by simp only [alike.render]) fun s => ?_
  split
  · exact .pure _
  · exact .throw _

end LittleScheme
