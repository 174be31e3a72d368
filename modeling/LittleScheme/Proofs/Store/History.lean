import LittleScheme.Proofs.Store.Collection
import LittleScheme.Proofs.Store.Extension
import Mathlib.Data.List.Induction

/-!
# Stores with a history

Whoever holds a store can make values, registered or not, write to them, collect from any root, and
strike all values from the register; `Store.Use` has these operations.  A collection takes the marks
off the registered values only.  So a value that has lost its registration keeps the mark that an
earlier collection has given it, and the next collections neither go through it nor find what is
behind it.

A registered value that can be reached is therefore kept if some path leads to it that avoids such
values: each value on the path is registered, or no earlier collection has met it
(`collect_keeps_reached`).  It is not enough that some path leads to it.
-/

namespace LittleScheme

namespace Store

/-- What can be done to a store. -/
inductive Use
  /-- Make a registered value. -/
  | make (node : Node)
  /-- Make a value that is not registered. -/
  | place (node : Node)
  /-- Change the fields or the bindings of a value. -/
  | write (loc : Loc) (node : Node)
  /-- Collect from a root. -/
  | collect (root : Ref)
  /-- Strike all values from the register. -/
  | clear
deriving DecidableEq

/-- The store after it has been used. -/
def afterUse (s : Store) : Use → Store
  | .make node => s.register node
  | .place node => s.place node
  | .write loc node => s.write loc node
  | .collect root => (s.collect root).2
  | .clear => s.clear

/-- What a history leaves of an empty store. -/
def afterUses (history : List Use) : Store := history.foldl afterUse {}

/-- Some collection of the history could reach the value. -/
def Met (history : List Use) (r : Ref) : Prop :=
  ∃ before root after, history = before ++ .collect root :: after ∧
    (afterUses before).Reaches root r

/-- `r'` can be reached from `r` through values with a property, both ends included. -/
inductive Through (s : Store) (good : Ref → Prop) : Ref → Ref → Prop
  | here {r : Ref} (fits : good r) : Through s good r r
  | step {r c r' : Ref} {node : Node} (fits : good r) (found : s.node? r = some node)
    (child : c ∈ node.children) (path : Through s good c r') : Through s good r r'

/-! ## Where marks come from -/

theorem isMarked_place (s : Store) (node : Node) (r : Ref) :
    (s.place node).isMarked r = s.isMarked r := by
  cases r with
  | nil => rfl
  | cell loc =>
    by_cases here : loc = s.cells.size
    · simp [isMarked, place, here]
    · simp [isMarked, place, Array.getElem?_push, here]

theorem isMarked_register (s : Store) (node : Node) (r : Ref) :
    (s.register node).isMarked r = s.isMarked r := by
  rw [← isMarked_place s node r]
  cases r <;> rfl

theorem isMarked_collect (s : Store) (root r : Ref) :
    (s.collect root).2.isMarked r = true ↔
      (s.isMarked r = true ∧ s.isRegistered r = false) ∨ s.resetMarks.Traces root r := by
  have same : (s.collect root).2.isMarked r = (s.resetMarks.markFrom [root]).isMarked r := by
    cases r <;> rfl
  rw [same, isMarked_markFrom, isMarked_resetMarks]
  simp

/-- A value gets its mark from a collection that can reach it. -/
theorem isMarked_afterUse {s : Store} {use : Use} {r : Ref}
    (marked : (s.afterUse use).isMarked r = true) :
    s.isMarked r = true ∨ ∃ root, use = .collect root ∧ s.Reaches root r := by
  cases use with
  | make node =>
    rw [afterUse, isMarked_register] at marked
    exact .inl marked
  | place node =>
    rw [afterUse, isMarked_place] at marked
    exact .inl marked
  | write loc node =>
    rw [afterUse, isMarked_write] at marked
    exact .inl marked
  | collect root =>
    rcases (isMarked_collect s root r).1 marked with ⟨before, -⟩ | traced
    · exact .inl before
    · exact .inr ⟨root, rfl, traced.reaches⟩
  | clear =>
    have same : s.clear.isMarked r = s.isMarked r := by cases r <;> rfl
    rw [afterUse, same] at marked
    exact .inl marked

theorem afterUses_append_singleton (history : List Use) (use : Use) :
    afterUses (history ++ [use]) = (afterUses history).afterUse use := by
  simp [afterUses]

/-- Values with a mark have been met. -/
theorem met_of_isMarked {history : List Use} {r : Ref}
    (marked : (afterUses history).isMarked r = true) : Met history r := by
  induction history using List.reverseRecOn with
  | nil => cases r <;> simp [afterUses, isMarked] at marked
  | append_singleton history use ih =>
    rw [afterUses_append_singleton] at marked
    rcases isMarked_afterUse marked with before | ⟨root, rfl, reached⟩
    · obtain ⟨first, root, later, rfl, reached⟩ := ih before
      exact ⟨first, root, later ++ [use], by simp, reached⟩
    · exact ⟨history, root, [], rfl, reached⟩

/-! ## What a collection keeps -/

/-- What is registered is there. -/
def Backed (s : Store) : Prop := ∀ loc ∈ s.registry, loc < s.size

instance (s : Store) : Decidable s.Backed :=
  inferInstanceAs (Decidable (∀ loc ∈ s.registry, loc < s.size))

theorem Backed.afterUse {s : Store} (backed : s.Backed) (use : Use) : (s.afterUse use).Backed := by
  intro loc member
  cases use with
  | make node =>
    rw [Store.afterUse, size_register]
    rcases List.mem_cons.1 member with rfl | old
    · exact Nat.lt_succ_self _
    · exact Nat.lt_succ_of_lt (backed loc old)
  | place node =>
    rw [Store.afterUse, size_place]
    exact Nat.lt_succ_of_lt (backed loc member)
  | write loc' node =>
    rw [Store.afterUse, size_write]
    exact backed loc member
  | collect root =>
    rw [Store.afterUse, registry_collect] at member
    rw [Store.afterUse, size_eq_of_node? (node?_collect s root)]
    exact backed loc (List.mem_filter.1 member).1
  | clear => simp [Store.afterUse, Store.clear] at member

theorem backed_afterUses (history : List Use) : (afterUses history).Backed := by
  induction history using List.reverseRecOn with
  | nil => simp [afterUses, Backed]
  | append_singleton history use ih =>
    rw [afterUses_append_singleton]
    exact ih.afterUse use

theorem exists_node?_of_isRegistered {s : Store} (backed : s.Backed) {r : Ref}
    (registered : s.isRegistered r = true) : ∃ node, s.node? r = some node := by
  cases r with
  | nil => simp [isRegistered] at registered
  | cell loc => exact exists_node? (backed loc (by simpa [isRegistered] using registered))

/-- A collection goes along paths whose values are registered or have no mark. -/
theorem Through.traces {s : Store} {good : Ref → Prop}
    (unmarked : ∀ r, good r → s.resetMarks.isMarked r = false) {root r : Ref}
    (path : s.Through good root r) {node : Node} (found : s.node? r = some node) :
    s.resetMarks.Traces root r := by
  induction path with
  | here fits => exact .here (by simpa using found) (unmarked _ fits)
  | step fits here child _ ih =>
    exact .step (by simpa using here) (unmarked _ fits) child (ih found)

end Store

open Store

/-- **What a collection keeps.**  After any history of a store, a collection keeps a registered
value that can be reached from the root through values each of which is registered or has been met
by no earlier collection.  It keeps nothing but registered values that can be reached. -/
theorem collect_keeps_reached (history : List Use) (root r : Ref) :
    let s := afterUses history
    (s.isRegistered r = true →
      s.Through (fun q => s.isRegistered q = true ∨ ¬Met history q) root r →
        (s.collect root).2.isRegistered r = true) ∧
      ((s.collect root).2.isRegistered r = true →
        s.isRegistered r = true ∧ s.Reaches root r) := by
  intro s
  have unmarked (q : Ref) (unhidden : s.isRegistered q = true ∨ ¬Met history q) :
      s.resetMarks.isMarked q = false := by
    rw [isMarked_resetMarks]
    rcases unhidden with registered | unmet
    · simp [registered]
    · have clean : s.isMarked q = false := by
        rw [Bool.eq_false_iff]
        exact fun marked => unmet (met_of_isMarked marked)
      simp [clean]
  rw [isRegistered_collect]
  refine ⟨fun registered path => ⟨registered, ?_⟩, fun kept => ⟨kept.1, kept.2.reaches⟩⟩
  obtain ⟨node, found⟩ := exists_node?_of_isRegistered (backed_afterUses history) registered
  exact path.traces unmarked found

/-- An integer in a pair that is not registered survives a second collection, since the first one
has not met the pair. -/
theorem collect_keeps_reached_bare :
    let history : List Use := [.make (.pair .nil .nil), .collect (.cell 0), .clear,
      .make (.integer 7), .place (.pair (.cell 1) .nil)]
    let s := afterUses history
    s.isRegistered (.cell 1) = true ∧ s.isRegistered (.cell 2) = false ∧
      (s.collect (.cell 2)).2.isRegistered (.cell 1) = true := by
  intro history s
  have registered : s.isRegistered (.cell 1) = true := by decide +kernel
  have unmet : ¬Met history (.cell 2) := by
    rintro ⟨before, root, after, split, reached⟩
    -- the only collection is the second use
    obtain ⟨first, rfl⟩ : ∃ first, before = [first] := by
      match before with
      | [] => simp [history] at split
      | [first] => exact ⟨first, rfl⟩
      | [_, _] | [_, _, _] | [_, _, _, _] => simp [history] at split
      | _ :: _ :: _ :: _ :: _ :: _ => simp [history] at split
    obtain ⟨rfl, rfl, -⟩ : first = .make (.pair .nil .nil) ∧ root = .cell 0 ∧ _ := by
      simpa [history, eq_comm] using split
    have pair : (afterUses [.make (.pair .nil .nil)]).node? (.cell 0) = some (.pair .nil .nil) := by
      decide +kernel
    have alone {q : Ref} (path : (afterUses [.make (.pair .nil .nil)]).Reaches (.cell 0) q) :
        q = .cell 0 ∨ q = .nil := by
      induction path with
      | refl => exact .inl rfl
      | step _ found child ih =>
        rcases ih with rfl | rfl
        · rw [pair] at found
          cases found
          exact .inr (by simpa [Node.children] using child)
        · simp at found
    simpa using alone reached
  refine ⟨registered, by decide +kernel, ?_⟩
  refine (collect_keeps_reached history (.cell 2) (.cell 1)).1 registered ?_
  have found : s.node? (.cell 2) = some (.pair (.cell 1) .nil) := by decide +kernel
  exact .step (.inr unmet) found (by simp [Node.children]) (.here (.inl registered))

/-- **A collection does not keep everything that can be reached.**  A pair is collected from and
then struck from the register; an integer that is written to it afterwards is registered and can be
reached from the pair, but a second collection strikes it from the register. -/
theorem collect_strikes_reached :
    let s := afterUses [.make (.pair .nil .nil), .collect (.cell 0), .clear, .make (.integer 7),
      .write 0 (.pair (.cell 1) .nil)]
    s.isRegistered (.cell 1) = true ∧ s.Reaches (.cell 0) (.cell 1) ∧
      (s.collect (.cell 0)).2.isRegistered (.cell 1) = false := by
  intro s
  have found : s.node? (.cell 0) = some (.pair (.cell 1) .nil) := by decide +kernel
  refine ⟨by decide +kernel, ?_, by decide +kernel⟩
  exact .step .refl found (by simp [Node.children])

end LittleScheme
