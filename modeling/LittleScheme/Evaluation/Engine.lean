import LittleScheme.Store.Chain
import LittleScheme.Store.Copy
import LittleScheme.Store.Describe

/-!
# The engine

Operators and procedures are described relative to an *engine*: a way to evaluate an expression
and a way to copy a value.  The evaluator closes the knot by handing each evaluation the engine
for what is inside of it.  How much is left for an evaluation that is inside of another depends on
its place there.

## Main definitions

* `Place` — where an evaluation stands in the one around it, and what it costs.
* `Engine` — evaluation and copying, as operators see them.
* `Engine.evaluateAll`, `Engine.sequence` — evaluate operands, and the forms of a body.
* `makeClosure`, `Engine.enterCall`, `Engine.applyClosure` — make a procedure, and call it.
-/

namespace LittleScheme

/-- Where an evaluation stands in the one around it. -/
inductive Place
  /-- At the head of an application. -/
  | head
  /-- On its own: an operand that a form evaluates by itself, or a form of a body. -/
  | single
  /-- In a row: one of the operands that are evaluated together before anything else is done. -/
  | row
deriving DecidableEq

/-- What an evaluation costs at a place. -/
def Place.cost : Place → Nat
  | .head => 1
  | .single => 3
  | .row => 5

/-- Evaluation of an expression in a scope, and copying of a value. -/
structure Engine where
  evaluate : Place → Ref → Loc → StoreM Ref
  copy : Ref → StoreM Ref

/-- Make a procedure.  It captures an empty frame of its own inside the scope it is made in, so
that a copy of the procedure shares that scope. -/
def makeClosure (params body : List Ref) (env : Option Loc) : StoreM Ref := do
  let s ← get
  if params.all fun r => (s.symbolName? r).isSome then
    let captured ← allocate (.environment { outer := env })
    make (.closure params body (some captured))
  else fail .parameterExpected

namespace Engine

variable (engine : Engine)

/-- Evaluate operands from left to right. -/
def evaluateAll (env : Loc) : List Ref → StoreM (List Ref)
  | [] => return []
  | expr :: exprs => do
    let value ← engine.evaluate .row expr env
    let values ← evaluateAll env exprs
    return value :: values

/-- Evaluate the forms of a body in order; the result is the last value, or `last` for an empty
body. -/
def sequence (env : Loc) (last : Ref) : List Ref → StoreM Ref
  | [] => return last
  | expr :: exprs => do
    let value ← engine.evaluate .single expr env
    sequence env value exprs

/-- The kind of the first parameter that is not a symbol. -/
def namelessParameter? (s : Store) (params : List Ref) : Option String :=
  (params.find? fun r => (s.symbolName? r).isNone).map s.kindName

/-- The bindings of parameters to values. -/
def parameterBindings (s : Store) (params values : List Ref) : List (String × Ref) :=
  (params.zip values).filterMap fun (param, value) => (s.symbolName? param).map (·, value)

/-- Make the frame of a call inside the captured one, with the parameters bound to copies of the
values.  Parameters are symbols, unless the procedure was put together by hand. -/
def enterCall (params values : List Ref) (captured : Option Loc) : StoreM Loc := do
  let values ← copyEach engine.copy values
  let s ← get
  let frame : Frame := { outer := captured }
  match namelessParameter? s params with
  | some kind =>
    discard (allocate (.environment frame))
    throw (.namelessParameter kind)
  | none => allocate (.environment (frame.defineAll (parameterBindings s params values)))

/-- Call a procedure.  The operands are evaluated in the scope `env` of the call and copied into a
new frame inside the captured one; the body is copied as a whole, and the copy is evaluated
there. -/
def applyClosure (params body : List Ref) (captured : Option Loc) (operands : Ref) (env : Loc) :
    StoreM Ref := do
  let exprs ← listItems .runtime operands
  if exprs.length = params.length then
    let values ← engine.evaluateAll env exprs
    let inner ← engine.enterCall params values captured
    let body ← copyEach engine.copy body
    engine.sequence inner .nil body
  else fail (.wrongCount .closure params.length exprs.length)

end Engine

end LittleScheme
