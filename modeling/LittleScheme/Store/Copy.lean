import LittleScheme.Store.Basic
import Std.Data.TreeMap

/-!
# Copies

`duplicate` copies a value into new cells.  The copy is taken along the paths from the value: what
is met twice on different paths is copied twice, and a reference back to something whose copy is
under way becomes a reference to that copy, so that cycles are copied in finitely many steps.  Only
the frame around a frame is shared between it and its copy.

The cell of a copy is made before what is below it, and gets its contents in one write when all of
that is made.  Filling in the fields one by one would come to the same, except where the depth is
used up on the way: then it would leave cells behind that are filled in half, where here they are
blank.  These cells belong to a copy that was never returned, so no value refers to them.
-/

namespace LittleScheme

/-- Values whose copies are under way, each with the cell of its copy. -/
abbrev Active := Std.TreeMap Loc Loc

/-- Copy one after the other. -/
def copyEach (copy : Ref → StoreM Ref) : List Ref → StoreM (List Ref)
  | [] => return []
  | r :: rs => do
    let c ← copy r
    let cs ← copyEach copy rs
    return c :: cs

/-- Copy the values of bindings, in order. -/
def copyBindings (copy : Ref → StoreM Ref) :
    List (String × Ref) → StoreM (List (String × Ref))
  | [] => return []
  | (name, r) :: rest => do
    let c ← copy r
    let cs ← copyBindings copy rest
    return (name, c) :: cs

/-- Copy the frame that a closure has captured, if it has one. -/
def copyCaptured (copy : Ref → StoreM Ref) : Option Loc → StoreM (Option Loc)
  | none => return none
  | some env => do
    let c ← copy (.cell env)
    return c.loc?

/-! ## The copy of a cell

The cell of a copy is made before anything below it is copied, so that references back to the
original have a cell to lead to; it gets its contents in the end.  The functions that copy what is
below a cell are told the cell of its copy. -/

/-- Copy a pair. -/
def copyPair (copyFirst copySecond : Loc → Ref → StoreM Ref) (first second : Ref) :
    StoreM Ref := do
  let copy ← allocate (.pair .nil .nil)
  let first ← copyFirst copy first
  let second ← copySecond copy second
  overwrite copy (.pair first second)
  return .cell copy

/-- Copy a frame; the frame around it is shared. -/
def copyFrame (copyBelow : Loc → Ref → StoreM Ref) (frame : Frame) : StoreM Ref := do
  let copy ← allocate (.environment { frame with bindings := [] })
  let bindings ← copyBindings (copyBelow copy) frame.bindings
  overwrite copy (.environment { frame with bindings })
  return .cell copy

/-- Copy a closure with the frame it has captured. -/
def copyClosure (copyBelow : Loc → Ref → StoreM Ref) (params body : List Ref) (env : Option Loc) :
    StoreM Ref := do
  let copy ← allocate (.closure [] [] none)
  let params ← copyEach (copyBelow copy) params
  let body ← copyEach (copyBelow copy) body
  let env ← copyCaptured (copyBelow copy) env
  overwrite copy (.closure params body env)
  return .cell copy

/-! ## Copies of values -/

/-- Copy `r` below the values of `active`.

A path goes down at most `depth` times, where the step from a pair to its second field is not
counted, and it is never longer than `fuel`.  Since the values along a path are distinct, a `fuel`
that exceeds the number of cells is never used up. -/
def copyFrom : (fuel depth : Nat) → Active → Ref → StoreM Ref
  | _, _, _, .nil => return .nil
  | 0, _, _, .cell _ => throw .tooDeep
  | _, 0, _, .cell _ => throw .tooDeep
  | fuel + 1, depth + 1, active, .cell loc =>
    match active[loc]? with
    | some copy => return .cell copy
    | none => do
      match ← look (.cell loc) with
      | none => return .nil
      | some (.pair first second) =>
        copyPair (fun copy => copyFrom fuel depth (active.insert loc copy))
          (fun copy => copyFrom fuel (depth + 1) (active.insert loc copy)) first second
      | some (.environment frame) =>
        copyFrame (fun copy => copyFrom fuel depth (active.insert loc copy)) frame
      | some (.closure params body env) =>
        copyClosure (fun copy => copyFrom fuel depth (active.insert loc copy)) params body env
      | some node => make node

/-- Copy a value, going down at most `depth` times. -/
def duplicate (depth : Nat) (r : Ref) : StoreM Ref := do
  let s ← get
  copyFrom (s.size + 1) depth ∅ r

end LittleScheme
