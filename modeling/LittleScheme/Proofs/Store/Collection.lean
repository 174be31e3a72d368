import LittleScheme.Store.Collect
import Mathlib.Tactic.Common

/-!
# What a collection keeps

Marking follows references out of cells that carry no mark.  A value gets a mark exactly if some
path of `Store.Traces` leads to it from the work list: all cells of the path, both ends included,
were there without a mark.  A collection takes the marks off the registered values first; so if
everything that can be reached from its root is registered, what is left in the register is exactly
that.
-/

namespace LittleScheme

namespace Store

/-! ## Paths -/

/-- `r'` can be reached from `r` along the references that nodes hold. -/
inductive Reaches (s : Store) (r : Ref) : Ref → Prop
  | refl : Reaches s r r
  | step {r' c : Ref} {node : Node} (path : Reaches s r r') (found : s.node? r' = some node)
    (child : c ∈ node.children) : Reaches s r c

/-- `r'` can be reached from `r` through cells none of which carries a mark. -/
inductive Traces (s : Store) : Ref → Ref → Prop
  | here {r : Ref} {node : Node} (found : s.node? r = some node) (unmarked : s.isMarked r = false) :
    Traces s r r
  | step {r c r' : Ref} {node : Node} (found : s.node? r = some node)
    (unmarked : s.isMarked r = false) (child : c ∈ node.children) (path : Traces s c r') :
    Traces s r r'

theorem Reaches.trans {s : Store} {r r' r'' : Ref} (first : s.Reaches r r')
    (second : s.Reaches r' r'') : s.Reaches r r'' := by
  induction second with
  | refl => exact first
  | step _ found child ih => exact .step ih found child

/-- What can be reached depends on the contents of the cells alone. -/
theorem Reaches.of_node? {s s' : Store} (same : ∀ r, s'.node? r = s.node? r) {r r' : Ref}
    (path : s.Reaches r r') : s'.Reaches r r' := by
  induction path with
  | refl => exact .refl
  | step _ found child ih => exact .step ih (by rw [same, found]) child

/-! ## Marks -/

@[simp] theorem node?_nil (s : Store) : s.node? .nil = none := rfl

@[simp] theorem node?_setMark (s : Store) (loc : Loc) (r : Ref) :
    (s.setMark loc).node? r = s.node? r := by
  cases r with
  | nil => rfl
  | cell loc' =>
    by_cases h : loc = loc' <;> simp [node?, setMark, Array.getElem?_modify, h, Function.comp_def]

/-- Marking one cell. -/
theorem isMarked_setMark {s : Store} {loc : Loc} {cell : Cell} (found : s.cells[loc]? = some cell)
    (r : Ref) : (s.setMark loc).isMarked r = true ↔ r = .cell loc ∨ s.isMarked r = true := by
  cases r with
  | nil => simp [isMarked]
  | cell loc' =>
    by_cases h : loc = loc'
    · subst h
      simp [isMarked, setMark, Array.getElem?_modify, found]
    · simp [isMarked, setMark, Array.getElem?_modify, h, Ne.symm h]

/-- A path through unmarked cells starts at one. -/
theorem Traces.start {s : Store} {r r' : Ref} (path : s.Traces r r') :
    (∃ node, s.node? r = some node) ∧ s.isMarked r = false := by
  cases path with
  | here found unmarked => exact ⟨⟨_, found⟩, unmarked⟩
  | step found unmarked _ _ => exact ⟨⟨_, found⟩, unmarked⟩

/-- A path through unmarked cells, seen after one more cell got its mark: it ends there, it avoids
that cell, or its last part starts from a child of that cell. -/
theorem Traces.setMark {s : Store} {loc : Loc} {cell : Cell} (found : s.cells[loc]? = some cell)
    {r r' : Ref} (path : s.Traces r r') :
    r' = .cell loc ∨ (s.setMark loc).Traces r r' ∨
      ∃ c ∈ cell.node.children, (s.setMark loc).Traces c r' := by
  have unmarked_of {r : Ref} (h : s.isMarked r = false) (ne : r ≠ .cell loc) :
      (s.setMark loc).isMarked r = false := by
    rw [Bool.eq_false_iff, ne_eq, isMarked_setMark found]
    simp [ne, h]
  induction path with
  | @here r node at_r unmarked =>
    by_cases ne : r = .cell loc
    · exact .inl ne
    · exact .inr (.inl (.here (by simpa using at_r) (unmarked_of unmarked ne)))
  | @step r c r' node at_r unmarked child _ ih =>
    rcases ih with ended | avoided | below
    · exact .inl ended
    · by_cases ne : r = .cell loc
      · subst ne
        have same : cell.node = node := by simpa [node?, found] using at_r
        exact .inr (.inr ⟨c, same ▸ child, avoided⟩)
      · exact .inr (.inl (.step (by simpa using at_r) (unmarked_of unmarked ne) child avoided))
    · exact .inr (.inr below)

/-- A path that avoids marked cells avoided them before one of them got its mark. -/
theorem Traces.of_setMark {s : Store} {loc : Loc} {cell : Cell}
    (found : s.cells[loc]? = some cell) {r r' : Ref} (path : (s.setMark loc).Traces r r') :
    s.Traces r r' := by
  have unmarked_of {r : Ref} (h : (s.setMark loc).isMarked r = false) : s.isMarked r = false := by
    rw [Bool.eq_false_iff, ne_eq, isMarked_setMark found] at h
    simpa using fun marked => h (.inr marked)
  induction path with
  | here at_r unmarked => exact .here (by simpa using at_r) (unmarked_of unmarked)
  | step at_r unmarked child _ ih =>
    exact .step (by simpa using at_r) (unmarked_of unmarked) child ih

/-- Marking marks what it can reach through cells without a mark, and nothing else. -/
theorem isMarked_markFrom (s : Store) (work : List Ref) (r : Ref) :
    (s.markFrom work).isMarked r = true ↔ s.isMarked r = true ∨ ∃ w ∈ work, s.Traces w r := by
  fun_induction markFrom s work with
  | case1 s => simp
  | case2 s work ih =>
    have stuck : ¬s.Traces .nil r := fun path => by simpa using path.start.1
    simp [ih, stuck]
  | case3 s loc work absent ih =>
    have stuck : ¬s.Traces (.cell loc) r := fun path => by simpa [node?, absent] using path.start.1
    simp [ih, stuck]
  | case4 s loc work cell found marked ih =>
    have stuck : ¬s.Traces (.cell loc) r := fun path => by
      simpa [isMarked, found, marked] using path.start.2
    simp [ih, stuck]
  | case5 s loc work cell found unmarked ih =>
    have at_loc : s.node? (.cell loc) = some cell.node := by simp [node?, found]
    have not_marked : s.isMarked (.cell loc) = false := by simpa [isMarked, found] using unmarked
    rw [ih, isMarked_setMark found]
    constructor
    · rintro ((rfl | marked) | ⟨w, member, path⟩)
      · exact .inr ⟨_, by simp, .here at_loc not_marked⟩
      · exact .inl marked
      · rcases List.mem_append.1 member with child | later
        · exact .inr ⟨_, by simp, .step at_loc not_marked child (path.of_setMark found)⟩
        · exact .inr ⟨w, by simp [later], path.of_setMark found⟩
    · rintro (marked | ⟨w, member, path⟩)
      · exact .inl (.inr marked)
      · rcases path.setMark found with ended | avoided | ⟨c, child, path⟩
        · exact .inl (.inl ended)
        · rcases List.mem_cons.1 member with rfl | later
          · -- a path that starts at the cell just marked cannot avoid it
            have marked := (isMarked_setMark found (.cell loc)).2 (.inl rfl)
            rw [avoided.start.2] at marked
            exact absurd marked (by simp)
          · exact .inr ⟨w, by simp [later], avoided⟩
        · exact .inr ⟨c, by simp [child], path⟩

/-! ## Collecting -/

@[simp] theorem node?_markFrom (s : Store) (work : List Ref) (r : Ref) :
    (s.markFrom work).node? r = s.node? r := by
  fun_induction markFrom s work with
  | case1 => rfl
  | case2 _ _ ih | case3 _ _ _ _ ih | case4 _ _ _ _ _ _ ih => exact ih
  | case5 s loc work cell _ _ ih => rw [ih, node?_setMark]

/-- Marking leaves the register and the counters alone. -/
theorem markFrom_eq (s : Store) (work : List Ref) :
    s.markFrom work = { s with cells := (s.markFrom work).cells } := by
  fun_induction markFrom s work with
  | case1 => rfl
  | case2 _ _ ih | case3 _ _ _ _ ih | case4 _ _ _ _ _ _ ih => exact ih
  | case5 s loc work cell _ _ ih => exact ih

theorem getElem?_unmark (cells : Array Cell) (loc loc' : Loc) :
    (unmark cells loc)[loc']? =
      cells[loc']?.map fun cell =>
        { cell with marked := cell.marked && !decide (loc' = loc) } := by
  by_cases h : loc = loc'
  · simp [unmark, Array.getElem?_modify, h]
  · have h' : loc' ≠ loc := Ne.symm h
    simp [unmark, Array.getElem?_modify, h, h']

theorem getElem?_foldl_unmark (registry : List Loc) (cells : Array Cell) (loc : Loc) :
    (registry.foldl unmark cells)[loc]? =
      cells[loc]?.map fun cell =>
        { cell with marked := cell.marked && !registry.contains loc } := by
  induction registry generalizing cells with
  | nil => simp
  | cons head rest ih =>
    simp only [List.foldl_cons, ih, getElem?_unmark, Option.map_map, Function.comp_def]
    congr 1
    funext cell
    by_cases h : loc = head <;> simp [h]

@[simp] theorem node?_resetMarks (s : Store) (r : Ref) : s.resetMarks.node? r = s.node? r := by
  cases r with
  | nil => rfl
  | cell loc => simp [node?, resetMarks, getElem?_foldl_unmark, Function.comp_def]

/-- Only values that are not registered keep a mark. -/
theorem isMarked_resetMarks (s : Store) (r : Ref) :
    s.resetMarks.isMarked r = (s.isMarked r && !s.isRegistered r) := by
  cases r with
  | nil => rfl
  | cell loc =>
    cases h : s.cells[loc]? <;>
      simp [isMarked, isRegistered, resetMarks, getElem?_foldl_unmark, h]

@[simp] theorem node?_collect (s : Store) (root r : Ref) :
    (s.collect root).2.node? r = s.node? r := by
  have h : (s.collect root).2.node? r = (s.resetMarks.markFrom [root]).node? r := by
    cases r <;> rfl
  rw [h, node?_markFrom, node?_resetMarks]

/-- The values that stay registered are those that got a mark. -/
theorem registry_collect (s : Store) (root : Ref) :
    (s.collect root).2.registry =
      s.registry.filter fun loc => (s.resetMarks.markFrom [root]).isMarked (.cell loc) := by
  have h : (s.resetMarks.markFrom [root]).registry = s.registry := by rw [markFrom_eq]; rfl
  rw [← h]
  rfl

/-- A registered value stays registered exactly if the collection traces it. -/
theorem isRegistered_collect (s : Store) (root r : Ref) :
    (s.collect root).2.isRegistered r = true ↔
      s.isRegistered r = true ∧ s.resetMarks.Traces root r := by
  cases r with
  | nil => simp [isRegistered]
  | cell loc =>
    simp only [isRegistered, registry_collect, List.contains_iff_mem, List.mem_filter,
      isMarked_markFrom, isMarked_resetMarks]
    constructor
    · rintro ⟨member, marked | traced⟩
      · simp [member] at marked
      · exact ⟨member, by simpa using traced⟩
    · rintro ⟨member, traced⟩
      exact ⟨member, .inr (by simpa using traced)⟩

/-- A path that meets registered values only is one that a collection traces. -/
theorem Reaches.traces {s : Store} {root r : Ref}
    (registered : ∀ r, s.Reaches root r → r ≠ .nil → s.isRegistered r = true)
    (path : s.Reaches root r) {node : Node} (found : s.node? r = some node) :
    s.resetMarks.Traces root r := by
  have unmarked {r : Ref} (path : s.Reaches root r) {node : Node} (found : s.node? r = some node) :
      s.resetMarks.isMarked r = false := by
    have ne : r ≠ .nil := by rintro rfl; simp at found
    simp [isMarked_resetMarks, registered r path ne]
  -- the path is read from its far end, so the part already traced is kept as a function
  suffices h : ∀ r', s.resetMarks.Traces r r' → s.resetMarks.Traces root r' from
    h r (.here (by simpa using found) (unmarked path found))
  clear found
  induction path with
  | refl => exact fun _ traced => traced
  | step path found child ih =>
    intro r' traced
    exact ih r' (.step (by simpa using found) (unmarked path found) child traced)

/-- What is traced can be reached. -/
theorem Traces.reaches {s : Store} {r r' : Ref} (path : s.resetMarks.Traces r r') :
    s.Reaches r r' := by
  induction path with
  | here => exact .refl
  | step found _ child _ ih =>
    exact Reaches.trans (.step .refl (by simpa using found) child) ih

/-- A collection from a root from which only registered values can be reached leaves exactly these
registered. -/
theorem isRegistered_collect_iff {s : Store} {root : Ref}
    (exist : ∀ loc ∈ s.registry, ∃ node, s.node? (.cell loc) = some node)
    (registered : ∀ r, s.Reaches root r → r ≠ .nil → s.isRegistered r = true) (r : Ref) :
    (s.collect root).2.isRegistered r = true ↔ r ≠ .nil ∧ s.Reaches root r := by
  rw [isRegistered_collect]
  constructor
  · rintro ⟨known, traced⟩
    refine ⟨?_, traced.reaches⟩
    rintro rfl
    simp [isRegistered] at known
  · rintro ⟨ne, path⟩
    have known := registered r path ne
    cases r with
    | nil => exact absurd rfl ne
    | cell loc =>
      obtain ⟨node, found⟩ := exist loc (by simpa [isRegistered] using known)
      exact ⟨known, path.traces registered found⟩

/-- A collection counts the values it strikes from the register. -/
theorem live_collect (s : Store) (root : Ref) :
    (s.collect root).2.live + (s.collect root).2.reclaimed = s.live + s.reclaimed ∧
      (s.collect root).2.allocations = s.allocations := by
  have h : s.resetMarks.markFrom [root] =
      { s with cells := (s.resetMarks.markFrom [root]).cells } := by
    rw [markFrom_eq]
    rfl
  have fewer : ((s.resetMarks.markFrom [root]).sweep).live ≤ s.live := by
    rw [h]
    exact List.length_filter_le _ _
  have reclaimed : (s.collect root).2.reclaimed =
      s.reclaimed + (s.live - ((s.resetMarks.markFrom [root]).sweep).live) := by
    change (s.resetMarks.markFrom [root]).reclaimed +
      ((s.resetMarks.markFrom [root]).live - ((s.resetMarks.markFrom [root]).sweep).live) = _
    rw [h]
    rfl
  have live : (s.collect root).2.live = ((s.resetMarks.markFrom [root]).sweep).live := rfl
  refine ⟨by omega, ?_⟩
  change (s.resetMarks.markFrom [root]).allocations = s.allocations
  rw [h]

end Store

end LittleScheme
