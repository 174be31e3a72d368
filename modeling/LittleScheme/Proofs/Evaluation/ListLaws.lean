import LittleScheme.Proofs.Evaluation.Indexing
import LittleScheme.Proofs.Evaluation.Rebinding

/-!
# What is put together and taken apart

The operands of `cons` or `list` are evaluated from left to right (`Engine.InTurn`), and each of
them may do anything: bind names anew, change pairs that others hold, or fail.  What is put together
of their values is made of new cells, and `car`, `cdr` or `list-ref` only look at those.  So `car`
of `cons` is the very value of the first operand, in the store that both operands leave behind and
with nothing more than new cells.
-/

namespace LittleScheme

/-! ## Evaluating in turn -/

/-- Evaluated one after the other, beginning in the store `s`, the expressions have the values, and
`s'` is the store when the last of them has been evaluated. -/
inductive Engine.InTurn (engine : Engine) (env : Loc) :
    List Ref → Store → List Ref → Store → Prop
  | nil (s : Store) : engine.InTurn env [] s [] s
  | cons {expr value : Ref} {exprs values : List Ref} {s s₁ s' : Store}
    (first : engine.evaluate .row expr env s = .ok value s₁)
    (rest : engine.InTurn env exprs s₁ values s') :
    engine.InTurn env (expr :: exprs) s (value :: values) s'

namespace Engine.InTurn

variable {engine : Engine} {env : Loc} {exprs values : List Ref} {s s' : Store}

theorem evaluateAll (turns : engine.InTurn env exprs s values s') :
    engine.evaluateAll env exprs s = .ok values s' := by
  induction turns with
  | nil => rfl
  | cons first _ ih =>
    rw [Engine.evaluateAll, StoreM.bind_ok first, StoreM.bind_ok ih]
    rfl

/-- The first expression that fails is the last one that is evaluated. -/
theorem evaluateAll_of_error {expr : Ref} {fault : Fault} {t : Store}
    (turns : engine.InTurn env exprs s values s')
    (stopped : engine.evaluate .row expr env s' = .error fault t) (after : List Ref) :
    engine.evaluateAll env (exprs ++ expr :: after) s = .error fault t := by
  induction turns with
  | nil =>
    rw [List.nil_append, Engine.evaluateAll, StoreM.bind_error stopped]
  | cons first _ ih =>
    rw [List.cons_append, Engine.evaluateAll, StoreM.bind_ok first, StoreM.bind_error (ih stopped)]

theorem length_eq (turns : engine.InTurn env exprs s values s') :
    values.length = exprs.length := by
  induction turns with
  | nil => rfl
  | cons _ _ ih => simp [ih]

theorem contained {budget : Nat} (turns : (Engine.within budget).InTurn env exprs s values s') :
    s.Contained env s' := by
  suffices h : ∀ t : Store, t.Contained env s → t.Contained env s' from h s (.refl env s)
  induction turns with
  | nil => exact fun _ => id
  | @cons expr _ _ _ _ _ _ first _ ih =>
    intro t before
    have kept := Engine.within_contained budget .row expr before
    rw [StoreM.storeAfter, first] at kept
    exact ih t kept

end Engine.InTurn

/-! ## Applying a primitive -/

namespace Store

variable {s s' : Store} {env : Loc} {expr : Ref} {p outer inner : Primitive}
  {operands extra : List Ref}

/-- The store when the application of a primitive has started: the operator has been copied. -/
def started (s : Store) (p : Primitive) : Store := s.register (.builtin (.primitive p))

/-- The expression applies a name to the operands, and the name is bound to the primitive. -/
def Applies (s : Store) (env : Loc) (expr : Ref) (p : Primitive) (operands : List Ref) : Prop :=
  ∃ head tail name value, s.node? expr = some (.pair head tail) ∧ s.symbolName? head = some name ∧
    s.lookup? env name = some value ∧ s.node? value = some (.builtin (.primitive p)) ∧
    s.toList? tail = some operands

/-- The expression applies the primitive `outer` to an application of `inner` to the operands, and
to `extra`.  The name of each is bound to it when its application starts. -/
def Nests (s : Store) (env : Loc) (expr : Ref) (outer inner : Primitive)
    (operands extra : List Ref) : Prop :=
  ∃ made, s.Applies env expr outer (made :: extra) ∧
    (s.started outer).Applies env made inner operands

theorem Applies.extend (applies : s.Applies env expr p operands) (extended : s.Extended s') :
    s'.Applies env expr p operands := by
  obtain ⟨head, tail, name, value, found, named, bound, builtin, listed⟩ := applies
  exact ⟨head, tail, name, value, extended.node? found,
    symbolName?_eq_some.2 (extended.node? (symbolName?_eq_some.1 named)), extended.lookup? bound,
    extended.node? builtin, extended.toList? listed⟩

/-- Starting an application is no matter to the one inside of it. -/
theorem Applies.nests {made : Ref} (outside : s.Applies env expr outer (made :: extra))
    (inside : s.Applies env made inner operands) : s.Nests env expr outer inner operands extra :=
  ⟨made, outside, inside.extend (s.extended_register _)⟩

end Store

open Store

variable {s s' : Store} {env : Loc} {expr : Ref} {p outer inner : Primitive}
  {operands extra values : List Ref} {budget : Nat}

/-- A copy of an operator takes a single cell. -/
theorem duplicate_builtin {op : Op} {r : Ref} (found : s.node? r = some (.builtin op))
    (depth : Nat) :
    duplicate (depth + 1) r s = .ok (.cell s.size) (s.register (.builtin op)) := by
  have looked : (get : StoreM Store) s = .ok s s := rfl
  cases r with
  | nil => cases found
  | cell loc =>
    rw [duplicate, StoreM.bind_ok looked, copyFrom_cell (by simp) found]
    exact (congrFun (make_eq_construct _) s).symm

/-- The head of an application is evaluated, and what is found there is copied and applied. -/
theorem Store.Applies.exists_copy (applies : s.Applies env expr p operands)
    (enough : Place.row.cost < budget) :
    ∃ value tail, s.node? value = some (.builtin (.primitive p)) ∧
      s.toList? tail = some operands ∧
      evaluate budget expr env s = ((Engine.within budget).copy value >>=
        fun procedure => (Engine.within budget).apply procedure tail env) s := by
  obtain ⟨head, tail, name, value, found, named, bound, builtin, listed⟩ := applies
  have looked : (get : StoreM Store) s = .ok s s := rfl
  have resolved : (Engine.within budget).evaluate .head head env s = .ok value s := by
    change evaluate (budget - 1) head env s = _
    rw [evaluate_symbol (Nat.le_sub_one_of_lt enough) named, resolve_eq, bound]
  have seen : look value s = .ok (some (.builtin (.primitive p))) s := by
    rw [← builtin]
    rfl
  refine ⟨value, tail, builtin, listed, ?_⟩
  rw [evaluate_eq_step (Nat.le_of_lt enough), Engine.step, StoreM.bind_ok looked, found]
  simp only
  rw [StoreM.bind_ok resolved, StoreM.bind_ok seen]

/-- A primitive is called with the values of its operands. -/
theorem evaluate_applies (applies : s.Applies env expr p operands)
    (enough : Place.row.cost + 2 ≤ budget) :
    evaluate budget expr env s =
      ((Engine.within budget).evaluateAll env operands >>= p.call) (s.started p) := by
  obtain ⟨value, tail, builtin, listed, course⟩ := applies.exists_copy (Nat.lt_of_succ_lt enough)
  have looked : (get : StoreM Store) (s.started p) = .ok (s.started p) (s.started p) := rfl
  have copied : (Engine.within budget).copy value s = .ok (.cell s.size) (s.started p) := by
    have deep : copyDepth budget = (budget - (Place.row.cost + 2)) / 2 + 1 := by
      rw [copyDepth]
      omega
    change duplicate (copyDepth budget) value s = _
    rw [deep, duplicate_builtin builtin]
    rfl
  have here : (s.started p).node? (.cell s.size) = some (.builtin (.primitive p)) := by
    rw [started, node?_register, if_pos rfl]
  have listed' : listItems .runtime tail (s.started p) = .ok operands (s.started p) := by
    rw [listItems_eq, started, (s.extended_register _).toList? listed]
  rw [course, StoreM.bind_ok copied, Engine.apply, StoreM.bind_ok looked, here]
  exact StoreM.bind_ok listed' _

/-- If there is less left, it is used up before the operands are evaluated. -/
theorem evaluate_applies_of_lt (applies : s.Applies env expr p operands)
    (short : budget < Place.row.cost + 2) :
    ∃ s', evaluate budget expr env s = .error .tooDeep s' := by
  rcases Nat.lt_trichotomy budget Place.row.cost with less | rfl | more
  · rw [evaluate_of_lt less]
    exact ⟨s, rfl⟩
  · -- there is nothing left for the head
    obtain ⟨head, tail, -, -, found, -⟩ := applies
    have looked : (get : StoreM Store) s = .ok s s := rfl
    have stopped : (Engine.within Place.row.cost).evaluate .head head env s = .error .tooDeep s :=
      rfl
    refine ⟨s, ?_⟩
    rw [evaluate_eq_step (Nat.le_refl _), Engine.step, StoreM.bind_ok looked, found]
    exact StoreM.bind_error stopped _
  · -- there is nothing left for the copy
    obtain ⟨value, tail, builtin, -, course⟩ := applies.exists_copy more
    have flat : copyDepth budget = 0 := by
      rw [copyDepth]
      omega
    have stopped : (Engine.within budget).copy value s = .error .tooDeep s := by
      change duplicate (copyDepth budget) value s = _
      cases value with
      | nil => cases builtin
      | cell loc =>
        rw [flat]
        rfl
    exact ⟨s, course.trans (StoreM.bind_error stopped _)⟩

/-! ## A primitive inside of another -/

namespace Store.Nests

variable {s₁ s₂ s₃ : Store} {fault : Fault} {before after extraValues : List Ref} {e made : Ref}

theorem evaluate_of_lt (nests : s.Nests env expr outer inner operands extra)
    (short : budget < 2 * Place.row.cost + 2) :
    ∃ s', evaluate budget expr env s = .error .tooDeep s' := by
  obtain ⟨_, outside, inside⟩ := nests
  by_cases enough : Place.row.cost + 2 ≤ budget
  · have stops : ∃ s', (Engine.within budget).evaluate .row _ env (s.started outer) =
        .error .tooDeep s' := evaluate_applies_of_lt inside (by omega)
    obtain ⟨s', stopped⟩ := stops
    refine ⟨s', ?_⟩
    rw [evaluate_applies outside enough]
    exact StoreM.bind_error ((Engine.InTurn.nil _).evaluateAll_of_error stopped extra) _
  · exact evaluate_applies_of_lt outside (by omega)

/-- An operand that fails is the last one that is evaluated. -/
theorem evaluate_of_error (nests : s.Nests env expr outer inner (before ++ e :: after) extra)
    (enough : 2 * Place.row.cost + 2 ≤ budget)
    (turns : (Engine.within (budget - Place.row.cost)).InTurn env before
      ((s.started outer).started inner) values s₁)
    (stopped : (Engine.within (budget - Place.row.cost)).evaluate .row e env s₁ =
      .error fault s₂) :
    evaluate budget expr env s = .error fault s₂ := by
  obtain ⟨_, outside, inside⟩ := nests
  have stopped' : (Engine.within budget).evaluate .row _ env (s.started outer) = .error fault s₂ :=
    (evaluate_applies inside (by omega)).trans
      (StoreM.bind_error (turns.evaluateAll_of_error stopped after) _)
  rw [evaluate_applies outside (by omega)]
  exact StoreM.bind_error ((Engine.InTurn.nil _).evaluateAll_of_error stopped' extra) _

/-- When its operands are evaluated, the inner primitive is called, and then the outer one. -/
theorem evaluate_of_ok (nests : s.Nests env expr outer inner operands extra)
    (enough : 2 * Place.row.cost + 2 ≤ budget)
    (turns : (Engine.within (budget - Place.row.cost)).InTurn env operands
      ((s.started outer).started inner) values s₁)
    (called : inner.call values s₁ = .ok made s₂)
    (rest : (Engine.within budget).InTurn env extra s₂ extraValues s₃) :
    evaluate budget expr env s = outer.call (made :: extraValues) s₃ := by
  obtain ⟨_, outside, inside⟩ := nests
  have first : (Engine.within budget).evaluate .row _ env (s.started outer) = .ok made s₂ :=
    (evaluate_applies inside (by omega)).trans
      ((StoreM.bind_ok turns.evaluateAll _).trans called)
  rw [evaluate_applies outside (by omega)]
  exact StoreM.bind_ok (Engine.InTurn.cons first rest).evaluateAll _

end Store.Nests

/-! ## Primitives on lists -/

namespace Primitive

variable {r first second : Ref}

theorem fields_eq (p : Primitive) (r : Ref) (s : Store) :
    p.fields r s =
      match s.pair? r with
      | some fields => .ok fields s
      | none => .error (.error (.pairExpected (.primitive p))) s := by
  change (match s.pair? r with
    | some fields => (pure fields : StoreM (Ref × Ref))
    | none => fail (.pairExpected (.primitive p))) s = _
  cases s.pair? r <;> rfl

theorem call_car (found : s.pair? r = some (first, second)) :
    Primitive.car.call [r] s = .ok first s := by
  have taken := fields_eq .car r s
  rw [found] at taken
  exact StoreM.bind_ok taken _

theorem call_cdr (found : s.pair? r = some (first, second)) :
    Primitive.cdr.call [r] s = .ok second s := by
  have taken := fields_eq .cdr r s
  rw [found] at taken
  exact StoreM.bind_ok taken _

theorem call_list (items : List Ref) (s : Store) :
    ∃ r s', Primitive.list.call items s = .ok r s' ∧ s.Extended s' ∧ s'.toList? r = some items := by
  obtain ⟨r, s', links, made, extended, spine, fields⟩ := makeList_spine items .nil s
  exact ⟨r, s', made, extended, toList?_eq_some_iff.2 ⟨links, spine, fields⟩⟩

end Primitive

/-! ## Integers stand for themselves -/

/-- An integer stays one. -/
theorem Store.Contained.integer? (contained : s.Contained env s') {r : Ref} {k : Int}
    (found : s.integer? r = some k) : s'.integer? r = some k := by
  rw [integer?_eq_some] at found ⊢
  cases r with
  | nil => cases found
  | cell loc =>
    obtain ⟨node, found', evolved⟩ := contained.evolves found
    cases node <;> simp_all [Node.Evolves]

theorem evaluate_integer (enough : Place.row.cost ≤ budget) {r : Ref} {k : Int}
    (found : s.integer? r = some k) (env : Loc) : evaluate budget r env s = .ok r s := by
  have looked : (get : StoreM Store) s = .ok s s := rfl
  rw [evaluate_eq_step enough, Engine.step, StoreM.bind_ok looked, integer?_eq_some.1 found]
  rfl

/-! ## The laws -/

open Primitive in
/-- **Taking apart what was put together.**  An expression applies a primitive to an application of
another one, where the name of each is bound to it when its application starts.  If the budget is
too small for that, the evaluation stops.  Otherwise the operands of the inner primitive are
evaluated from left to right.  One that fails is the last one: the expression fails with the same
fault and leaves the same store behind.

If all of them have values, `car` of `cons` is the very value of the first and `cdr` that of the
second; `list-ref` of `list` is the very value at the index, which stands there as an integer, and
an error of runtime if there is none; and `list?` of `list` is true.  The store that the operands
leave behind is only extended, so that everything in it has the contents it had then. -/
theorem list_laws (s : Store) (env : Loc) (expr : Ref) (budget : Nat) :
    (budget < 2 * Place.row.cost + 2 → ∀ outer inner operands extra,
      s.Nests env expr outer inner operands extra →
        ∃ s', evaluate budget expr env s = .error .tooDeep s') ∧
    (2 * Place.row.cost + 2 ≤ budget →
      (∀ outer inner before e after extra values s₁ fault s₂,
        s.Nests env expr outer inner (before ++ e :: after) extra →
        (Engine.within (budget - Place.row.cost)).InTurn env before
          ((s.started outer).started inner) values s₁ →
        (Engine.within (budget - Place.row.cost)).evaluate .row e env s₁ = .error fault s₂ →
          evaluate budget expr env s = .error fault s₂) ∧
      (∀ e₁ e₂ v₁ v₂ s₁, s.Nests env expr .car .cons [e₁, e₂] [] →
        (Engine.within (budget - Place.row.cost)).InTurn env [e₁, e₂]
          ((s.started .car).started .cons) [v₁, v₂] s₁ →
          ∃ s₂, s₁.Extended s₂ ∧ evaluate budget expr env s = .ok v₁ s₂) ∧
      (∀ e₁ e₂ v₁ v₂ s₁, s.Nests env expr .cdr .cons [e₁, e₂] [] →
        (Engine.within (budget - Place.row.cost)).InTurn env [e₁, e₂]
          ((s.started .cdr).started .cons) [v₁, v₂] s₁ →
          ∃ s₂, s₁.Extended s₂ ∧ evaluate budget expr env s = .ok v₂ s₂) ∧
      (∀ operands i k values s₁, s.Nests env expr .listRef .list operands [i] →
        s.integer? i = some k →
        (Engine.within (budget - Place.row.cost)).InTurn env operands
          ((s.started .listRef).started .list) values s₁ →
          ∃ s₂, s₁.Extended s₂ ∧
            (0 ≤ k → k < operands.length → ∃ v, values[k.toNat]? = some v ∧
              evaluate budget expr env s = .ok v s₂) ∧
            (k < 0 ∨ operands.length ≤ k → ∃ e, e.category = .runtime ∧
              evaluate budget expr env s = .error (.error e) s₂)) ∧
      ∀ operands values s₁, s.Nests env expr .isList .list operands [] →
        (Engine.within (budget - Place.row.cost)).InTurn env operands
          ((s.started .isList).started .list) values s₁ →
          ∃ r s₂, s₁.Extended s₂ ∧ evaluate budget expr env s = .ok r s₂ ∧
            s₂.node? r = some (.boolean true)) := by
  refine ⟨fun short _ _ _ _ nests => nests.evaluate_of_lt short, fun enough => ⟨?_, ?_, ?_, ?_, ?_⟩⟩
  · intro outer inner before e after extra values s₁ fault s₂ nests turns stopped
    exact nests.evaluate_of_error enough turns stopped
  · intro e₁ e₂ v₁ v₂ s₁ nests turns
    refine ⟨s₁.register (.pair v₁ v₂), s₁.extended_register _, ?_⟩
    rw [nests.evaluate_of_ok enough turns rfl (.nil _)]
    exact call_car (s₁.pair?_register v₁ v₂)
  · intro e₁ e₂ v₁ v₂ s₁ nests turns
    refine ⟨s₁.register (.pair v₁ v₂), s₁.extended_register _, ?_⟩
    rw [nests.evaluate_of_ok enough turns rfl (.nil _)]
    exact call_cdr (s₁.pair?_register v₁ v₂)
  · intro operands i k values s₁ nests literal turns
    obtain ⟨r, s₂, made, extended, listed⟩ := call_list values s₁
    -- no operand has changed the index
    have index : s₂.integer? i = some k :=
      extended.integer? (turns.contained.integer?
        ((extended_register _ _).integer? ((extended_register _ _).integer? literal)))
    have last : (Engine.within budget).evaluate .row i env s₂ = .ok i s₂ :=
      evaluate_integer (by omega) index env
    have ended := nests.evaluate_of_ok enough turns made (.cons last (.nil _))
    rw [call_listRef index, listed] at ended
    rw [← turns.length_eq]
    refine ⟨s₂, extended, ?_, ?_⟩
    · intro natural less
      have inside : k.toNat < values.length := by omega
      refine ⟨values[k.toNat], List.getElem?_eq_getElem inside, ?_⟩
      rw [ended]
      simp [Int.not_lt.2 natural, inside]
    · intro outside
      refine ⟨.indexOutOfRange k, rfl, ?_⟩
      rw [ended]
      by_cases negative : k < 0
      · simp [negative]
      · have beyond : values.length ≤ k.toNat := by omega
        simp [negative, beyond]
  · intro operands values s₁ nests turns
    obtain ⟨r, s₂, made, extended, listed⟩ := call_list values s₁
    have answered : Primitive.isList.call [r] s₂ =
        .ok (.cell s₂.size) (s₂.register (.boolean true)) := by
      rw [← Option.isSome_of_eq_some listed, ← s₂.isProperList_eq]
      rfl
    refine ⟨.cell s₂.size, _, extended.trans (s₂.extended_register (.boolean true)), ?_, ?_⟩
    · rw [nests.evaluate_of_ok enough turns made (.nil _), answered]
    · rw [node?_register, if_pos rfl]

/-- The name `x` is bound to a pair, and `y` to nothing.  There are the expressions
`(car (cons x 1))`, `(list-ref (list x 1) 1)` and `(list-ref (list y) 1)`. -/
theorem list_laws_operands :
    let s : Store :=
      { cells := #[
          { node := .environment { bindings := [("car", .cell 1), ("cons", .cell 2),
              ("list-ref", .cell 3), ("list", .cell 4), ("x", .cell 5)] } },
          { node := .builtin (.primitive .car) }, { node := .builtin (.primitive .cons) },
          { node := .builtin (.primitive .listRef) }, { node := .builtin (.primitive .list) },
          { node := .pair (.cell 6) .nil }, { node := .integer 1 },
          { node := .symbol "car" }, { node := .symbol "cons" }, { node := .symbol "list-ref" },
          { node := .symbol "list" }, { node := .symbol "x" }, { node := .symbol "y" },
          { node := .pair (.cell 7) (.cell 14) }, { node := .pair (.cell 15) .nil },
          { node := .pair (.cell 8) (.cell 16) }, { node := .pair (.cell 11) (.cell 17) },
          { node := .pair (.cell 6) .nil },
          { node := .pair (.cell 9) (.cell 19) }, { node := .pair (.cell 20) (.cell 17) },
          { node := .pair (.cell 10) (.cell 16) },
          { node := .pair (.cell 9) (.cell 22) }, { node := .pair (.cell 23) (.cell 17) },
          { node := .pair (.cell 10) (.cell 24) }, { node := .pair (.cell 12) .nil }]
        registry := List.range 25, allocations := 25 }
    (∃ s', evaluate 20 (.cell 13) 0 s = .ok (.cell 5) s') ∧
      (∃ s', evaluate 20 (.cell 18) 0 s = .ok (.cell 6) s') ∧
      ∃ s', evaluate 20 (.cell 21) 0 s = .error (.error (.unbound "y")) s' := by
  intro s
  have enough : 2 * Place.row.cost + 2 ≤ 20 := by decide
  refine ⟨?_, ?_, ?_⟩
  · have outside : s.Applies 0 (.cell 13) .car [.cell 15] :=
      ⟨.cell 7, .cell 14, "car", .cell 1, rfl, rfl, by decide, rfl, by decide⟩
    have inside : s.Applies 0 (.cell 15) .cons [.cell 11, .cell 6] :=
      ⟨.cell 8, .cell 16, "cons", .cell 2, rfl, rfl, by decide, rfl, by decide⟩
    obtain ⟨-, laws⟩ := list_laws s 0 (.cell 13) 20
    obtain ⟨-, first, -⟩ := laws enough
    obtain ⟨s', -, ended⟩ :=
      first _ _ (.cell 5) (.cell 6) _ (outside.nests inside) (.cons rfl (.cons rfl (.nil _)))
    exact ⟨s', ended⟩
  · have outside : s.Applies 0 (.cell 18) .listRef [.cell 20, .cell 6] :=
      ⟨.cell 9, .cell 19, "list-ref", .cell 3, rfl, rfl, by decide, rfl, by decide⟩
    have inside : s.Applies 0 (.cell 20) .list [.cell 11, .cell 6] :=
      ⟨.cell 10, .cell 16, "list", .cell 4, rfl, rfl, by decide, rfl, by decide⟩
    obtain ⟨-, laws⟩ := list_laws s 0 (.cell 18) 20
    obtain ⟨-, -, -, item, -⟩ := laws enough
    obtain ⟨s', -, found, -⟩ := item _ (.cell 6) 1 [.cell 5, .cell 6] _ (outside.nests inside) rfl
      (.cons rfl (.cons rfl (.nil _)))
    obtain ⟨v, here, ended⟩ := found (by decide) (by decide)
    cases here
    exact ⟨s', ended⟩
  · have outside : s.Applies 0 (.cell 21) .listRef [.cell 23, .cell 6] :=
      ⟨.cell 9, .cell 22, "list-ref", .cell 3, rfl, rfl, by decide, rfl, by decide⟩
    have inside : s.Applies 0 (.cell 23) .list [.cell 12] :=
      ⟨.cell 10, .cell 24, "list", .cell 4, rfl, rfl, by decide, rfl, by decide⟩
    obtain ⟨-, laws⟩ := list_laws s 0 (.cell 21) 20
    obtain ⟨stops, -⟩ := laws enough
    exact ⟨_, stops _ _ [] _ [] _ _ _ _ _ (outside.nests inside) (.nil _) rfl⟩

end LittleScheme
