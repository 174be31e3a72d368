import LittleScheme.Store.Scope

/-!
# Descriptions

Messages show a value by its kind and its own contents: `Integer(5)`, `Symbol('x')`, or
`Pair(<Integer>, <NilType>)` without what the fields hold.  This is not the printed form of a value,
which is in `LittleScheme.Store.Picture`.

Only two values have something inside of their description.  A procedure shows its parameters, and a
hand-made one may have procedures there.  Where these are parameters of each other in a circle, no
depth is enough, and the description fails with `Fault.tooDeep`; procedures that are nested without
a circle are described however deep they are, as the depth of a session is not counted here.  A
scope shows all frames outwards, which comes to no end where the frames go round: there the
description fails with `Fault.endless`.
-/

namespace LittleScheme

open Text

/-- The name of a value's kind. -/
def Node.kindName : Node → String
  | .integer _ => "Integer"
  | .boolean _ => "Boolean"
  | .symbol _ => "Symbol"
  | .pair _ _ => "Pair"
  | .environment _ => "Environment"
  | .builtin _ => "Builtin"
  | .closure _ _ _ => "Closure"

/-- The names of a frame, between braces. -/
def Frame.summary (frame : Frame) : String := "\x7b" ++ ", ".intercalate frame.names ++ "\x7d"

/-- The names of a frame, and an arrow if there is a frame around it. -/
def Frame.brief (frame : Frame) : String :=
  frame.summary ++ (if frame.outer.isSome then " -> ..." else "")

namespace Store

/-- The name of the kind of what a reference leads to. -/
def kindName (s : Store) (r : Ref) : String := (s.node? r).elim "NilType" Node.kindName

/-- The frames in scope at `loc`, summarized. -/
def scopeSummary (s : Store) (loc : Loc) : String :=
  "<Environment chain: " ++
    " -> ".intercalate (((s.scope loc).filterMap s.frame?).map Frame.summary) ++ ">"

/-- The short description, with at most `fuel` closures one inside of the other. -/
def briefFrom (s : Store) : Nat → Ref → Except Fault String
  | 0, _ => .error .tooDeep
  | fuel + 1, r =>
    match s.node? r with
    | none => return "()"
    | some (.integer value) => return "Integer(" ++ decimalText value ++ ")"
    | some (.boolean value) => return "Boolean(" ++ (if value then "True" else "False") ++ ")"
    | some (.symbol name) => return name
    | some (.pair first second) =>
      return "Pair(<" ++ s.kindName first ++ ">, <" ++ s.kindName second ++ ">)"
    | some (.environment frame) => return frame.brief
    | some (.builtin op) => return "Builtin(" ++ quoted op.name ++ ")"
    | some (.closure params _ _) => do
      let params ← params.mapM (s.briefFrom fuel)
      return "(lambda (" ++ " ".intercalate params ++ ") ...)"

/-- The short description: a symbol is its name, and of a scope only the innermost frame is shown.
Closures that are parameters of each other in a circle exceed any depth. -/
def brief (s : Store) (r : Ref) : Except Fault String := s.briefFrom (s.size + 1) r

/-- The full description: a symbol is quoted, and of a scope all frames are shown, if they come to
an end. -/
def describe (s : Store) (r : Ref) : Except Fault String :=
  match r, s.node? r with
  | _, some (.symbol name) => return "Symbol(" ++ quoted name ++ ")"
  | .cell loc, some (.environment _) =>
    if s.isEndless loc then throw .endless else return s.scopeSummary loc
  | _, _ => s.brief r

/-- The error that shows a value, or what becomes of describing it. -/
def objection (s : Store) (wording : String → Error) (r : Ref) : Fault :=
  match s.describe r with
  | .ok shown => .error (wording shown)
  | .error fault => fault

end Store

end LittleScheme
