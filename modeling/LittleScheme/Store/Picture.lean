import LittleScheme.Datum
import LittleScheme.Store.Describe
import Std.Data.TreeSet

/-!
# Printed values

A value is printed in two steps.  Its `Picture` is the finite tree of its pairs, in which a
reference back to a pair around it is the leaf `{selfref}`; the text is the list notation of that
tree.  Scopes have no printed form.

Integers are printed however many digits they have.  This is a matter of hand-made integers only,
since the texts of signed 64-bit integers have at most 20 characters.
-/

namespace LittleScheme

/-- The leaves of a picture. -/
inductive Mark
  | atom (value : Atom)
  | procedure (tag : String)
  | selfReference
deriving DecidableEq

/-- The characters of a leaf. -/
def Mark.chars : Mark → List Char
  | .atom value => value.chars
  | .procedure tag => tag.toList
  | .selfReference => "\x7bselfref\x7d".toList

/-- A finite tree of pairs over marks. -/
abbrev Picture := Tree Mark

/-- The text of a picture. -/
def Picture.text (picture : Picture) : String := String.ofList (picture.chars Mark.chars)

namespace Store

/-- The picture of `r` below the pairs of `path`.

A path goes down at most `depth` times, where the step from a pair to its second field is not
counted, and it is never longer than `fuel`.  Since the pairs along a path are distinct, a `fuel`
that exceeds the number of cells is never used up. -/
def pictureFrom (s : Store) : (fuel depth : Nat) → Std.TreeSet Loc → Ref → Except Fault Picture
  | _, _, _, .nil => .ok .nil
  | 0, _, _, .cell _ => .error .tooDeep
  | _, 0, _, .cell _ => .error .tooDeep
  | fuel + 1, depth + 1, path, .cell loc =>
    match s.node? (.cell loc) with
    | none => .ok .nil
    | some (.integer value) => .ok (.leaf (.atom (.integer value)))
    | some (.boolean value) => .ok (.leaf (.atom (.boolean value)))
    | some (.symbol name) => .ok (.leaf (.atom (.symbol name)))
    | some (.builtin op) => .ok (.leaf (.procedure op.tag))
    | some (.closure _ _ _) => .ok (.leaf (.procedure Op.closureTag))
    | some (.environment _) => .error (s.objection .cannotPrint (.cell loc))
    | some (.pair first second) =>
      if path.contains loc then .ok (.leaf .selfReference)
      else do
        let first ← s.pictureFrom fuel depth (path.insert loc) first
        let second ← s.pictureFrom fuel (depth + 1) (path.insert loc) second
        return .pair first second

/-- The picture of a value, going down at most `depth` times. -/
def picture (s : Store) (depth : Nat) (r : Ref) : Except Fault Picture :=
  s.pictureFrom (s.size + 1) depth ∅ r

/-- The printed form of a value. -/
def render (s : Store) (depth : Nat) (r : Ref) : Except Fault String :=
  (s.picture depth r).map Picture.text

end Store

end LittleScheme
