import LittleScheme.Evaluation.Form
import LittleScheme.Evaluation.Primitive
import LittleScheme.Store.Describe

/-!
# Evaluation

An integer or a boolean is its own value, and a symbol has the value it is bound to.  For a pair,
`Engine.step` evaluates the head, copies the procedure, and applies the copy to the operands as they
stand.  `evaluate` bounds evaluations inside of each other by a budget, of which each takes what its
place costs; `evaluate_eq_step` unfolds one step of it.
-/

namespace LittleScheme

namespace Engine

variable (engine : Engine)

/-- Apply a procedure to a list of operands. -/
def apply (head operands : Ref) (env : Loc) : StoreM Ref := do
  let s ← get
  match s.node? head with
  | some (.builtin (.form f)) => engine.form f operands env
  | some (.builtin (.primitive p)) =>
    let exprs ← listItems .runtime operands
    let args ← engine.evaluateAll env exprs
    p.call args
  | some (.closure params body captured) =>
    engine.applyClosure params body captured operands env
  | _ => throw (s.objection .cannotApply head)

/-- Evaluate an expression in a scope. -/
def step (expr : Ref) (env : Loc) : StoreM Ref := do
  let s ← get
  match s.node? expr with
  | some (.integer _) | some (.boolean _) => return expr
  | some (.symbol name) => resolve env name
  | some (.pair head operands) =>
    let procedure ← engine.evaluate .head head env
    match ← look procedure with
    | some (.builtin _) | some (.closure _ _ _) =>
      let procedure ← engine.copy procedure
      engine.apply procedure operands env
    | _ => fail .notCallable
  | _ => throw (s.objection .cannotEvaluate expr)

end Engine

/-- How deep a copy may go inside of an evaluation with this budget. -/
def copyDepth (budget : Nat) : Nat := (budget - Place.row.cost) / 2

/-- Evaluate an expression in a scope, within a budget. -/
def evaluate : (budget : Nat) → Ref → Loc → StoreM Ref
  | n + 5 =>
    Engine.step {
      evaluate := fun
        | .head => evaluate (n + 4)
        | .single => evaluate (n + 2)
        | .row => evaluate n
      copy := duplicate (copyDepth (n + 5)) }
  | _ => fun _ _ => throw .tooDeep

/-- The engine for what is inside of an evaluation with this budget. -/
def Engine.within (budget : Nat) : Engine where
  evaluate place := LittleScheme.evaluate (budget - place.cost)
  copy := duplicate (copyDepth budget)

/-- A budget that is enough for a row is enough for a step. -/
theorem evaluate_eq_step {budget : Nat} (h : Place.row.cost ≤ budget) :
    evaluate budget = Engine.step (Engine.within budget) := by
  obtain ⟨n, rfl⟩ := Nat.exists_eq_add_of_le' h
  have hplaces : (Engine.within (n + 5)).evaluate = fun
      | .head => evaluate (n + 4)
      | .single => evaluate (n + 2)
      | .row => evaluate n := by
    funext place
    cases place <;> rfl
  rw [Place.cost, evaluate, ← hplaces]
  rfl

/-- A smaller budget is used up at once. -/
theorem evaluate_of_lt {budget : Nat} (h : budget < Place.row.cost) :
    evaluate budget = fun _ _ => throw .tooDeep := by
  match budget, h with
  | 0, _ | 1, _ | 2, _ | 3, _ | 4, _ => rfl

end LittleScheme
