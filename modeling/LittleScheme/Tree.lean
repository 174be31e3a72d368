/-!
# Trees of pairs

Finite trees whose inner nodes are pairs: what a source text denotes, and what a value is turned
into to be printed.  `Tree.chars` prints a tree in list notation; since this is a matter of the
pairs alone, the text of a leaf is an argument.
-/

namespace LittleScheme

/-- A finite tree of pairs over leaves that carry an `α`. -/
inductive Tree (α : Type)
  | nil
  | leaf (value : α)
  | pair (first second : Tree α)
deriving DecidableEq

namespace Tree

variable {α β : Type}

/-- The number of nodes; the empty list is none. -/
def size : Tree α → Nat
  | nil => 0
  | leaf _ => 1
  | pair first second => first.size + second.size + 1

/-- Relabel the leaves. -/
def map (f : α → β) : Tree α → Tree β
  | nil => nil
  | leaf value => leaf (f value)
  | pair first second => pair (first.map f) (second.map f)

mutual

/-- List notation: the items of a list in brackets, separated by spaces.  `leafChars` writes the
leaves. -/
def chars (leafChars : α → List Char) : Tree α → List Char
  | nil => ['(', ')']
  | leaf value => leafChars value
  | pair first second => '(' :: (chars leafChars first ++ restChars leafChars second)

/-- What follows the first item of a list: further items, a dot and the end of an improper list,
and the closing bracket. -/
def restChars (leafChars : α → List Char) : Tree α → List Char
  | nil => [')']
  | leaf value => ' ' :: '.' :: ' ' :: (leafChars value ++ [')'])
  | pair first second => ' ' :: (chars leafChars first ++ restChars leafChars second)

end

/-- Relabelled leaves are written as their labels were. -/
theorem chars_map (f : α → β) (leafChars : β → List Char) (tree : Tree α) :
    (tree.map f).chars leafChars = tree.chars (leafChars ∘ f) ∧
      (tree.map f).restChars leafChars = tree.restChars (leafChars ∘ f) := by
  induction tree with
  | nil => simp [map, chars, restChars]
  | leaf value => simp [map, chars, restChars]
  | pair first second ihFirst ihSecond => simp [map, chars, restChars, ihFirst, ihSecond]

/-- Put `items`, the last of them first, in front of `tail`. -/
def listOfReversed (items : List (Tree α)) (tail : Tree α) : Tree α :=
  items.foldl (fun rest item => pair item rest) tail

end Tree

end LittleScheme
