import LittleScheme.Store.Basic

/-!
# Collection

`Store.collect` marks what can be reached from a root and strikes the registered values without a
mark from the register.  Marks are reset on registered values only: a value that was marked when it
lost its registration by `Store.clear` stays marked, and marking does not go through it again.
-/

namespace LittleScheme

/-! ## Marking -/

/-- The number of references that marking has still to follow from a cell. -/
def Cell.pending (cell : Cell) : Nat := if cell.marked then 0 else cell.node.children.length

/-- The number of references that marking has still to follow from the cells of a list. -/
def pendingIn : List Cell → Nat
  | [] => 0
  | cell :: cells => cell.pending + pendingIn cells

/-- A cell that gets its mark hands its references over. -/
theorem pendingIn_modify (cells : List Cell) (i : Nat) (h : i < cells.length)
    (unmarked : ¬cells[i].marked) :
    pendingIn (cells.modify i fun cell => { cell with marked := true }) +
      cells[i].node.children.length = pendingIn cells := by
  induction cells generalizing i with
  | nil => simp at h
  | cons cell cells ih =>
    cases i with
    | zero => simp_all [pendingIn, Cell.pending, Nat.add_comm]
    | succ i =>
      have rest := ih i (by simpa using h) (by simpa using unmarked)
      simp only [List.modify_succ_cons, pendingIn, List.getElem_cons_succ]
      omega

namespace Store

/-- Mark a cell. -/
def setMark (s : Store) (loc : Loc) : Store :=
  { s with cells := s.cells.modify loc fun cell => { cell with marked := true } }

/-- The number of references that marking has still to follow, over all cells. -/
def pending (s : Store) : Nat := pendingIn s.cells.toList

/-- A cell of the store that gets its mark hands its references over. -/
theorem pending_setMark {s : Store} {loc : Loc} {cell : Cell} (h : s.cells[loc]? = some cell)
    (unmarked : ¬cell.marked) :
    (s.setMark loc).pending + cell.node.children.length = s.pending := by
  obtain ⟨bound, rfl⟩ := Array.getElem?_eq_some_iff.1 h
  simpa [pending, setMark] using pendingIn_modify s.cells.toList loc bound unmarked

/-- Mark what can be reached from `work` through values without a mark. -/
def markFrom (s : Store) : List Ref → Store
  | [] => s
  | .nil :: work => s.markFrom work
  | .cell loc :: work =>
    match _found : s.cells[loc]? with
    | none => s.markFrom work
    | some cell =>
      if _marked : cell.marked then s.markFrom work
      else (s.setMark loc).markFrom (cell.node.children ++ work)
termination_by work => work.length + s.pending
decreasing_by
  all_goals simp
  have := pending_setMark ‹_› ‹_›
  omega

/-- Mark what can be reached from a root through values without a mark. -/
def mark (s : Store) (root : Ref) : Store := s.markFrom [root]

/-! ## Collecting -/

/-- Take the mark off the cell at a location. -/
def unmark (cells : Array Cell) (loc : Loc) : Array Cell :=
  cells.modify loc fun cell => { cell with marked := false }

/-- Take the marks off the registered values. -/
def resetMarks (s : Store) : Store := { s with cells := s.registry.foldl unmark s.cells }

/-- Strike the values without a mark from the register. -/
def sweep (s : Store) : Store :=
  { s with registry := s.registry.filter fun loc => s.isMarked (.cell loc) }

/-- One collection from a root; the result is the number of values found dead. -/
def collect (s : Store) (root : Ref) : Nat × Store :=
  let marked := s.resetMarks.mark root
  let before := marked.live
  let swept := marked.sweep
  let dead := before - swept.live
  (dead, { swept with
    collections := swept.collections + 1
    reclaimed := swept.reclaimed + dead })

/-- Strike all values from the register. -/
def clear (s : Store) : Store := { s with registry := [] }

end Store

end LittleScheme
