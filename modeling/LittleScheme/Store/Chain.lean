import LittleScheme.Store.Basic
import Std.Data.TreeSet

/-!
# Chains

`Store.chain` is the sequence of pairs met by following `second` from a value, up to the first
reference that is no pair or that has been met before.  A proper list is a chain that ends in the
empty list, and `Store.toList?` has its items.  `makeList` makes a new chain.
-/

namespace LittleScheme

/-- The pairs of a chain, each with its first field, and the reference that ends it. -/
structure Chain where
  links : List (Loc × Ref)
  last : Ref
deriving DecidableEq

/-- The first fields of the pairs. -/
def Chain.items (chain : Chain) : List Ref := chain.links.map (·.2)

namespace Store

/-- The chain from `r`, which ends at the latest at a pair of `seen`. -/
def chainFrom (s : Store) : Nat → Std.TreeSet Loc → Ref → Chain
  | 0, _, r => ⟨[], r⟩
  | fuel + 1, seen, r =>
    match r, s.pair? r with
    | .cell loc, some (first, second) =>
      if seen.contains loc then ⟨[], r⟩
      else
        let rest := s.chainFrom fuel (seen.insert loc) second
        ⟨(loc, first) :: rest.links, rest.last⟩
    | _, _ => ⟨[], r⟩

/-- The chain from `r`.  It has no more pairs than there are cells, since no pair is met twice. -/
def chain (s : Store) (r : Ref) : Chain := s.chainFrom s.size ∅ r

/-- The chain ends in the empty list. -/
def isProperList (s : Store) (r : Ref) : Bool := (s.chain r).last == .nil

/-- The items of a proper list. -/
def toList? (s : Store) (r : Ref) : Option (List Ref) :=
  let chain := s.chain r
  if chain.last = .nil then some chain.items else none

end Store

/-- The items of a proper list; anything else is an error of the given category. -/
def listItems (category : Category) (r : Ref) : StoreM (List Ref) := do
  let s ← get
  match s.toList? r with
  | some items => return items
  | none => fail (.improperList category)

/-- New pairs that hold `items` and end in `tail`. -/
def makeList : List Ref → Ref → StoreM Ref
  | [], tail => return tail
  | item :: items, tail => do
    let rest ← makeList items tail
    make (.pair item rest)

end LittleScheme
