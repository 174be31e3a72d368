import LittleScheme.Evaluation.Engine

/-!
# Forms

`Engine.form` is what the forms do with operands that have not been evaluated.  The shape of the
operands is looked at before anything is evaluated.  A value that `define`, `set!`, `set-car!` or
`set-cdr!` stores is copied first, unless it is a pair that is stored in itself.
-/

namespace LittleScheme

/-- A field of a pair. -/
inductive Field
  | first | second
deriving DecidableEq

namespace Field

/-- The field of a pair. -/
def get : Field → Ref × Ref → Ref
  | .first, fields => fields.1
  | .second, fields => fields.2

/-- The pair with the field changed. -/
def set : Field → Ref → Ref × Ref → Node
  | .first, value, fields => .pair value fields.2
  | .second, value, fields => .pair fields.1 value

/-- The form that stores into the field. -/
def form : Field → Form
  | .first => .setCar
  | .second => .setCdr

end Field

/-- The number of operands is not the one that the form expects. -/
def Form.wrongCount {α : Type} (f : Form) (expected got : Nat) : StoreM α :=
  fail (.wrongCount (.op (.form f)) expected got)

namespace Engine

variable (engine : Engine)

/-- A quoted datum is its own value. -/
def quote : List Ref → StoreM Ref
  | [datum] => return datum
  | args => Form.quote.wrongCount 1 args.length

/-- Evaluate the condition, then one of the branches; without an else-branch the empty list stands
in. -/
def branch (env : Loc) : List Ref → StoreM Ref
  | [condition, consequent] => do
    let value ← engine.evaluate .single condition env
    let s ← get
    if s.isTruthy value then engine.evaluate .single consequent env else return .nil
  | [condition, consequent, alternative] => do
    let value ← engine.evaluate .single condition env
    let s ← get
    if s.isTruthy value then engine.evaluate .single consequent env
    else engine.evaluate .single alternative env
  | args => fail (.branchShape args.length)

/-- Define a name as a copy of a value, or a procedure by its heading and body.  The name is the
result. -/
def define (env : Loc) : List Ref → StoreM Ref
  | target :: expr :: more => do
    let s ← get
    match s.node? target with
    | some (.symbol name) =>
      if more = [] then
        let value ← engine.evaluate .single expr env
        let value ← engine.copy value
        LittleScheme.define env name value
        return target
      else Form.define.wrongCount 2 (more.length + 2)
    | some (.pair _ _) =>
      match s.toList? target with
      | some (name :: params) =>
        match s.symbolName? name with
        | some text =>
          let closure ← makeClosure params (expr :: more) (some env)
          LittleScheme.define env text closure
          return name
        | none => fail .procedureNameExpected
      | _ => fail .defineShape
    | _ => fail .defineShape
  | args => fail (.tooFew (.op (.form .define)) 2 args.length)

/-- Make a procedure from a list of parameters and a body. -/
def lambda (env : Loc) : List Ref → StoreM Ref
  | params :: expr :: more => do
    let params ← listItems .grammar params
    makeClosure params (expr :: more) (some env)
  | args => fail (.tooFew (.op (.form .lambda)) 2 args.length)

/-- Bind a name anew to a copy of a value; the previous value is the result.  An unbound name is
found out before the value is computed. -/
def assign (env : Loc) : List Ref → StoreM Ref
  | [target, expr] => do
    let s ← get
    match s.symbolName? target with
    | none => fail .assignTarget
    | some name =>
      discard (resolve env name)
      let value ← engine.evaluate .single expr env
      let value ← engine.copy value
      LittleScheme.assign env name value
  | args => Form.assign.wrongCount 2 args.length

/-- Store a copy of a value in a field of a pair; the previous value is the result.  A pair that
is stored in itself is not copied. -/
def storeField (field : Field) (pair value : Ref) : StoreM Ref := do
  let s ← get
  match pair, s.pair? pair with
  | .cell loc, some fields =>
    let value ← if value = pair then pure value else engine.copy value
    overwrite loc (field.set value fields)
    return field.get fields
  | _, _ => fail (.pairExpected (.form field.form))

/-- Evaluate a pair and a value, and store the value in a field of the pair. -/
def setField (field : Field) (env : Loc) : List Ref → StoreM Ref
  | [target, expr] => do
    let pair ← engine.evaluate .row target env
    let value ← engine.evaluate .row expr env
    engine.storeField field pair value
  | args => field.form.wrongCount 2 args.length

/-- The value of the last operand if all are true, a new `#f` otherwise, and a new `#t` if there
is none. -/
def conj (env : Loc) : List Ref → StoreM Ref
  | [] => make (.boolean true)
  | expr :: exprs => do
    let value ← engine.evaluate .single expr env
    let s ← get
    if s.isTruthy value then
      if exprs = [] then return value else conj env exprs
    else make (.boolean false)

/-- The value of the last operand if it is the only one that is true, a new `#t` if another one
is, and a new `#f` if none is. -/
def disj (env : Loc) : List Ref → StoreM Ref
  | [] => make (.boolean false)
  | expr :: exprs => do
    let value ← engine.evaluate .single expr env
    let s ← get
    if s.isTruthy value then
      if exprs = [] then return value else make (.boolean true)
    else disj env exprs

/-- The category of a list of operands that is improper. -/
def operandCategory : Form → Category
  | .conj | .disj => .runtime
  | _ => .grammar

/-- Apply a form. -/
def form (f : Form) (operands : Ref) (env : Loc) : StoreM Ref := do
  let args ← listItems (operandCategory f) operands
  match f with
  | .quote => quote args
  | .branch => engine.branch env args
  | .define => engine.define env args
  | .lambda => lambda env args
  | .assign => engine.assign env args
  | .setCar => engine.setField .first env args
  | .setCdr => engine.setField .second env args
  | .conj => engine.conj env args
  | .disj => engine.disj env args

end Engine

end LittleScheme
