/-!
# Operators

The closed set `Op` of operators that a session starts with.  An operator is a value like any other,
found by name in the global frame.  A `Form` receives its operands unevaluated, a `Primitive`
evaluates all of them, from left to right, before it acts.  `Op.all` lists them in the order in
which they are bound.
-/

namespace LittleScheme

/-- Operators that receive their operands unevaluated. -/
inductive Form
  | quote | branch | define | lambda | assign | setCar | setCdr | conj | disj
deriving DecidableEq

/-- Operators on evaluated operands. -/
inductive Primitive
  | add | sub | mul | div | max | min | abs
  | eq | lt | gt | le | ge
  | isPair | isNull | isList | isNumber | isBoolean | isSymbol | not
  | list | cons | car | cdr | listRef | listTail
deriving DecidableEq

/-- An operator of the language. -/
inductive Op
  | form (form : Form)
  | primitive (primitive : Primitive)
deriving DecidableEq

/-- The name of a form. -/
def Form.name : Form → String
  | .quote => "quote"
  | .branch => "if"
  | .define => "define"
  | .lambda => "lambda"
  | .assign => "set!"
  | .setCar => "set-car!"
  | .setCdr => "set-cdr!"
  | .conj => "and"
  | .disj => "or"

/-- The name of a primitive. -/
def Primitive.name : Primitive → String
  | .add => "+"
  | .sub => "-"
  | .mul => "*"
  | .div => "/"
  | .max => "max"
  | .min => "min"
  | .abs => "abs"
  | .eq => "="
  | .lt => "<"
  | .gt => ">"
  | .le => "<="
  | .ge => ">="
  | .isPair => "pair?"
  | .isNull => "null?"
  | .isList => "list?"
  | .isNumber => "number?"
  | .isBoolean => "boolean?"
  | .isSymbol => "symbol?"
  | .not => "not"
  | .list => "list"
  | .cons => "cons"
  | .car => "car"
  | .cdr => "cdr"
  | .listRef => "list-ref"
  | .listTail => "list-tail"

/-- All forms, in the order of their binding. -/
def Form.all : List Form :=
  [.quote, .branch, .define, .lambda, .assign, .setCar, .setCdr, .conj, .disj]

/-- All primitives, in the order of their binding. -/
def Primitive.all : List Primitive :=
  [.add, .sub, .mul, .div, .max, .min, .abs, .eq, .lt, .gt, .le, .ge, .isPair, .isNull, .isList,
   .isNumber, .isBoolean, .isSymbol, .not, .list, .cons, .car, .cdr, .listRef, .listTail]

namespace Op

/-- The name under which the operator is bound. -/
def name : Op → String
  | .form f => f.name
  | .primitive p => p.name

/-- All operators, forms first. -/
def all : List Op := Form.all.map .form ++ Primitive.all.map .primitive

/-- The text that a procedure made by `lambda` prints as, and `lambda` itself. -/
def closureTag : String := "[create-lambda]"

/-- The text that the operator prints as: its name in square brackets, except for `lambda`. -/
def tag : Op → String
  | .form .lambda => closureTag
  | op => "[" ++ op.name ++ "]"

end Op

end LittleScheme
