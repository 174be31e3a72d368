import LittleScheme.Proofs.Store.Unrolling

/-!
# Copies mirror their originals

A copy follows its original step by step (`Store.Mirrors`).  Where the cells of the copy are does
not matter to what can be seen by going along, except that a new cell is met whenever the original
has one that is not under way.  `duplicate_completes` has this for a whole value, whose copy is made
if the depth suffices.
-/

namespace LittleScheme

namespace Store

/-- In `s'`, the second reference leads to a copy of what the first one leads to in `s`.  Values of
`active` have their copies elsewhere; the cells of all others are from `n` on. -/
inductive Mirrors (s s' : Store) : Nat → Active → Ref → Ref → Prop
  | nil {n : Nat} {active : Active} : s.Mirrors s' n active .nil .nil
  | back {n : Nat} {active : Active} {loc copy : Loc} (under : active[loc]? = some copy) :
    s.Mirrors s' n active (.cell loc) (.cell copy)
  | cell {n : Nat} {active : Active} {loc copy : Loc} {node node' : Node}
    (apart : active[loc]? = none) (new : n ≤ copy) (found : s.node? (.cell loc) = some node)
    (found' : s'.node? (.cell copy) = some node') (alike : node.Resembles node')
    (parts : ∀ {r c : Ref}, (r, c) ∈ node.parts.zip node'.parts →
      s.Mirrors s' (copy + 1) (active.insert loc copy) r c) :
    s.Mirrors s' n active (.cell loc) (.cell copy)

variable {s s' : Store} {m n : Nat} {active : Active} {r c : Ref}

theorem Mirrors.weaken (mirrors : s.Mirrors s' n active r c) (le : m ≤ n) :
    s.Mirrors s' m active r c := by
  cases mirrors with
  | nil => exact .nil
  | back under => exact .back under
  | cell apart new found found' alike parts =>
    exact .cell apart (Nat.le_trans le new) found found' alike parts

/-- What is unrolled mirrors the original. -/
theorem Unrolls.mirrors {rs cs : List Ref} {lo hi : Nat}
    (unrolls : s.Unrolls s' active rs cs lo hi) : List.Forall₂ (s.Mirrors s' lo active) rs cs := by
  induction unrolls with
  | done => exact .nil
  | nil _ ih => exact .cons .nil ih
  | back under _ ih => exact .cons (.back under) ih
  | cell apart found found' alike parts _ ihParts ihRest =>
    have later := parts.le
    refine .cons ?_ (ihRest.imp fun _ _ mirrors => mirrors.weaken (by omega))
    refine .cell apart (Nat.le_refl _) found found' alike fun member => ?_
    exact (List.forall₂_iff_zip.1 ihParts).2 member

end Store

theorem duplicate_completes {s : Store} {r : Ref} (whole : s.Whole r) (depth : Nat) :
    Completes (s.size < depth) (duplicate depth r) s fun c s' => s.Mirrors s' s.size ∅ r c := by
  refine (duplicate_unrolls whole depth).imp id ?_
  intro c s' _ unrolls
  exact (List.forall₂_cons.1 unrolls.mirrors).1

end LittleScheme
