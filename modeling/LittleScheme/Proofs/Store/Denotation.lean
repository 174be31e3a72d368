import LittleScheme.Store.Build
import LittleScheme.Store.Picture
import Mathlib.Data.List.Perm.Subperm
import Mathlib.Tactic.Common

/-!
# Values that stand for data

`Store.Denotes s r d` says that `d` is what the atoms and pairs below `r` make up.  Such a value is
finite and free of cycles, although it may share cells; a value made by `build` has cells that are
new and all different, as `Store.Laid` lists them.  A value that stands for a datum is printed as
the datum is.

Printing keeps the set of the pairs around and gives up when its fuel is used up.  Both are no
matter here: a pair stands for more than its fields do, so none is met again below itself, and the
pairs around are fewer than the cells.
-/

namespace LittleScheme

/-- Different atoms have different nodes. -/
theorem Atom.node_injective {a b : Atom} (h : a.node = b.node) : a = b := by
  cases a <;> cases b <;> simp_all [Atom.node]

theorem Atom.node_ne_pair (a : Atom) (first second : Ref) : a.node ≠ .pair first second := by
  cases a <;> simp [Atom.node]

/-- The number of atoms and pairs of data. -/
def Datum.totalSize (ds : List Datum) : Nat := ds.foldr (fun d n => d.size + n) 0

namespace Store

/-- The reference stands for the datum.  The cells are listed in the order in which they would be
made: those of the fields of a pair in front of its own. -/
inductive Laid (s : Store) : Ref → Datum → List Loc → Prop
  | nil : s.Laid .nil .nil []
  | leaf {loc : Loc} {a : Atom} (found : s.node? (.cell loc) = some a.node) :
    s.Laid (.cell loc) (.leaf a) [loc]
  | pair {loc : Loc} {first second : Ref} {d e : Datum} {cells cells' : List Loc}
    (found : s.node? (.cell loc) = some (.pair first second)) (left : s.Laid first d cells)
    (right : s.Laid second e cells') : s.Laid (.cell loc) (.pair d e) (cells ++ cells' ++ [loc])

/-- The references stand for the data, one after the other. -/
inductive LaidAll (s : Store) : List Ref → List Datum → List Loc → Prop
  | nil : s.LaidAll [] [] []
  | cons {r : Ref} {d : Datum} {rs : List Ref} {ds : List Datum} {cells cells' : List Loc}
    (first : s.Laid r d cells) (rest : s.LaidAll rs ds cells') :
    s.LaidAll (r :: rs) (d :: ds) (cells ++ cells')

/-- The reference stands for the datum. -/
def Denotes (s : Store) (r : Ref) (d : Datum) : Prop := ∃ cells, s.Laid r d cells

/-- The new store has the same contents as the old one, and these cells in addition, which are
registered and counted. -/
structure Grown (s s' : Store) (cells : List Loc) : Prop where
  distinct : cells.Nodup
  new : ∀ loc, loc ∈ cells ↔ s.size ≤ loc ∧ loc < s'.size
  kept : ∀ {r node}, s.node? r = some node → s'.node? r = some node
  registered : ∀ loc, loc ∈ s'.registry ↔ loc ∈ cells ∨ loc ∈ s.registry
  counted : s'.allocations = s.allocations + cells.length

variable {s s' s'' : Store} {r : Ref} {d : Datum} {cells cells' : List Loc}

/-! ## Standing for a datum -/

/-- There is one cell for each atom and each pair. -/
theorem Laid.length (laid : s.Laid r d cells) : cells.length = d.size := by
  induction laid with
  | nil => rfl
  | leaf => rfl
  | pair _ _ _ ihLeft ihRight =>
    simp only [List.length_append, List.length_singleton, Tree.size, ihLeft, ihRight]

theorem LaidAll.length {rs : List Ref} {ds : List Datum} (laid : s.LaidAll rs ds cells) :
    cells.length = Datum.totalSize ds := by
  induction laid with
  | nil => rfl
  | cons first _ ih =>
    rw [List.length_append, first.length, ih]
    rfl

theorem LaidAll.denotes {rs : List Ref} {ds : List Datum} (laid : s.LaidAll rs ds cells) :
    List.Forall₂ s.Denotes rs ds := by
  induction laid with
  | nil => exact .nil
  | cons first _ ih => exact .cons ⟨_, first⟩ ih

/-- What a value stands for depends on the contents of cells alone. -/
theorem Laid.mono (laid : s.Laid r d cells)
    (kept : ∀ {r node}, s.node? r = some node → s'.node? r = some node) :
    s'.Laid r d cells := by
  induction laid with
  | nil => exact .nil
  | leaf found => exact .leaf (kept found)
  | pair found _ _ ihLeft ihRight => exact .pair (kept found) ihLeft ihRight

/-- A value stands for one datum at most. -/
theorem Denotes.unique {e : Datum} (denotes : s.Denotes r d) (denotes' : s.Denotes r e) :
    d = e := by
  obtain ⟨cells, laid⟩ := denotes
  obtain ⟨cells', laid'⟩ := denotes'
  induction laid generalizing e cells' with
  | nil =>
    cases laid'
    rfl
  | leaf found =>
    cases laid' with
    | leaf found' =>
      rw [found, Option.some.injEq] at found'
      rw [Atom.node_injective found']
    | pair found' =>
      rw [found, Option.some.injEq] at found'
      exact absurd found' (Atom.node_ne_pair _ _ _)
  | pair found _ _ ihLeft ihRight =>
    cases laid' with
    | leaf found' =>
      rw [found, Option.some.injEq] at found'
      exact absurd found'.symm (Atom.node_ne_pair _ _ _)
    | pair found' left' right' =>
      rw [found, Option.some.injEq, Node.pair.injEq] at found'
      obtain ⟨rfl, rfl⟩ := found'
      rw [ihLeft _ left', ihRight _ right']

/-- The cell of a value that stands for a datum is there. -/
theorem Denotes.lt_size {loc : Loc} (denotes : s.Denotes (.cell loc) d) : loc < s.size := by
  obtain ⟨cells, laid⟩ := denotes
  cases laid with
  | leaf found => exact Store.lt_size found
  | pair found => exact Store.lt_size found

/-! ## Growing -/

theorem Grown.refl (s : Store) : s.Grown s [] where
  distinct := by simp
  new loc := by
    have : ¬(s.size ≤ loc ∧ loc < s.size) := fun h => Nat.not_lt.2 h.1 h.2
    simp [this]
  kept := id
  registered loc := by simp
  counted := rfl

theorem Grown.size_le (grown : s.Grown s' cells) : s.size ≤ s'.size := by
  by_contra less
  obtain ⟨node, found⟩ := exists_node? (Nat.lt_of_not_le less)
  exact absurd (Store.lt_size (grown.kept found)) (Nat.lt_irrefl _)

theorem Grown.trans (first : s.Grown s' cells) (second : s'.Grown s'' cells') :
    s.Grown s'' (cells ++ cells') where
  distinct := by
    apply List.nodup_append.2
    refine ⟨first.distinct, second.distinct, ?_⟩
    rintro loc member loc' member' rfl
    exact absurd ((second.new loc).1 member').1 (Nat.not_le.2 ((first.new loc).1 member).2)
  new loc := by
    have lower := first.size_le
    have upper := second.size_le
    rw [List.mem_append, first.new, second.new]
    constructor
    · rintro (⟨low, high⟩ | ⟨low, high⟩)
      · exact ⟨low, Nat.lt_of_lt_of_le high upper⟩
      · exact ⟨Nat.le_trans lower low, high⟩
    · rintro ⟨low, high⟩
      by_cases early : loc < s'.size
      · exact .inl ⟨low, early⟩
      · exact .inr ⟨Nat.not_lt.1 early, high⟩
  kept found := second.kept (first.kept found)
  registered loc := by
    rw [second.registered, first.registered, List.mem_append]
    tauto
  counted := by
    rw [second.counted, first.counted, List.length_append, Nat.add_assoc]

theorem grown_register (s : Store) (node : Node) : s.Grown (s.register node) [s.size] where
  distinct := by simp
  new loc := by
    rw [List.mem_singleton, size_register]
    constructor
    · rintro rfl
      exact ⟨Nat.le_refl _, Nat.lt_succ_self _⟩
    · rintro ⟨low, high⟩
      exact Nat.le_antisymm (Nat.le_of_lt_succ high) low
  kept {r node'} found := by
    have other : r ≠ .cell s.size := by
      rintro rfl
      simp [s.node?_eq_none (Nat.le_refl _)] at found
    rw [node?_register, if_neg other, found]
  registered loc := by simp [register]
  counted := rfl

end Store

/-! ## Making data -/

/-- A value that is made from a datum stands for it, by new cells. -/
theorem build_laid (d : Datum) (s : Store) :
    ∃ r s' cells, build d s = .ok r s' ∧ s'.Laid r d cells ∧ s.Grown s' cells := by
  induction d generalizing s with
  | nil => exact ⟨.nil, s, [], rfl, .nil, .refl s⟩
  | leaf a =>
    have found : (s.register a.node).node? (.cell s.size) = some a.node := by
      simp [Store.node?_register]
    exact ⟨.cell s.size, s.register a.node, [s.size], rfl, .leaf found, s.grown_register a.node⟩
  | pair first second ihFirst ihSecond =>
    obtain ⟨r, s₁, cells, made, laid, grown⟩ := ihFirst s
    obtain ⟨r', s₂, cells', made', laid', grown'⟩ := ihSecond s₁
    have grown'' := s₂.grown_register (.pair r r')
    have found : (s₂.register (.pair r r')).node? (.cell s₂.size) = some (.pair r r') := by
      simp [Store.node?_register]
    refine ⟨.cell s₂.size, s₂.register (.pair r r'), cells ++ cells' ++ [s₂.size], ?_, ?_,
      (grown.trans grown').trans grown''⟩
    · rw [build, StoreM.bind_ok made, StoreM.bind_ok made']
      rfl
    · exact .pair found ((laid.mono grown'.kept).mono grown''.kept) (laid'.mono grown''.kept)

/-- The values of data stand for them, and no cell is used twice. -/
theorem buildAll_laid (ds : List Datum) (s : Store) :
    ∃ rs s' cells, buildAll ds s = .ok rs s' ∧ s'.LaidAll rs ds cells ∧ s.Grown s' cells := by
  induction ds generalizing s with
  | nil => exact ⟨[], s, [], rfl, .nil, .refl s⟩
  | cons d ds ih =>
    obtain ⟨r, s₁, cells, made, laid, grown⟩ := build_laid d s
    obtain ⟨rs, s₂, cells', made', laid', grown'⟩ := ih s₁
    refine ⟨r :: rs, s₂, cells ++ cells', ?_, .cons (laid.mono grown'.kept) laid',
      grown.trans grown'⟩
    rw [buildAll, StoreM.bind_ok made, StoreM.bind_ok made']
    rfl

/-! ## Printing -/

namespace Store

/-- Cells that are there are not more than all. -/
theorem size_path_le {s : Store} {path : Std.TreeSet Loc} (exist : ∀ loc ∈ path, loc < s.size) :
    path.size ≤ s.size := by
  have distinct : path.toList.Nodup := by
    apply path.distinct_toList.imp
    intro a b other same
    exact other (by simp [same])
  have within : path.toList ⊆ List.range s.size := by
    intro loc member
    exact List.mem_range.2 (exist loc (Std.TreeSet.mem_toList.1 member))
  have := (List.subperm_of_subset distinct within).length_le
  simpa using this

section Paths

variable {s : Store} {path : Std.TreeSet Loc}

/-- There is fuel left as long as the path and the fuel exceed the number of cells. -/
theorem exists_fuel {fuel : Nat} (exist : ∀ loc ∈ path, loc < s.size)
    (enough : s.size < fuel + path.size) : ∃ fuel', fuel = fuel' + 1 := by
  have := size_path_le exist
  exact ⟨fuel - 1, by omega⟩

theorem lt_size_of_insert (known : ∀ loc ∈ path, loc < s.size) {loc : Loc} (exist : loc < s.size) :
    ∀ loc' ∈ path.insert loc, loc' < s.size := by
  intro loc' member
  rw [Std.TreeSet.mem_insert, Std.LawfulEqCmp.compare_eq_iff_eq] at member
  rcases member with rfl | before
  · exact exist
  · exact known loc' before

theorem size_insert_of_not_mem {loc : Loc} (fresh : loc ∉ path) :
    (path.insert loc).size = path.size + 1 := by
  simp [Std.TreeSet.size_insert, fresh]

theorem pictureFrom_pair {fuel depth : Nat} {loc : Loc} {first second : Ref}
    (found : s.node? (.cell loc) = some (.pair first second)) (fresh : loc ∉ path) :
    s.pictureFrom (fuel + 1) (depth + 1) path (.cell loc) =
      s.pictureFrom fuel depth (path.insert loc) first >>= fun first =>
        s.pictureFrom fuel (depth + 1) (path.insert loc) second >>= fun second =>
          return .pair first second := by
  simp [pictureFrom, found, fresh]

end Paths

/-- The pairs around stand for more than the datum below them, so none of them is met again. -/
def Outgrown (s : Store) (path : Std.TreeSet Loc) (d : Datum) : Prop :=
  ∀ loc ∈ path, ∃ e, s.Denotes (.cell loc) e ∧ d.size < e.size

variable {s : Store} {d : Datum} {path : Std.TreeSet Loc}

theorem Outgrown.lt_size (outgrown : s.Outgrown path d) : ∀ loc ∈ path, loc < s.size := by
  intro loc member
  obtain ⟨e, denotes, -⟩ := outgrown loc member
  exact denotes.lt_size

theorem Outgrown.not_mem (outgrown : s.Outgrown path d) {loc : Loc}
    (denotes : s.Denotes (.cell loc) d) : loc ∉ path := by
  intro member
  obtain ⟨e, denotes', more⟩ := outgrown loc member
  rw [denotes.unique denotes'] at more
  exact Nat.lt_irrefl _ more

/-- Below a pair, the pair itself is around, too. -/
theorem Outgrown.insert (outgrown : s.Outgrown path d) {loc : Loc}
    (denotes : s.Denotes (.cell loc) d) {e : Datum} (less : e.size < d.size) :
    s.Outgrown (path.insert loc) e := by
  intro loc' member
  rw [Std.TreeSet.mem_insert, Std.LawfulEqCmp.compare_eq_iff_eq] at member
  rcases member with rfl | before
  · exact ⟨d, denotes, less⟩
  · obtain ⟨e', denotes', more⟩ := outgrown loc' before
    exact ⟨e', denotes', Nat.lt_trans less more⟩

-- The induction is on the cells of the value.  A path that is as long as there are cells would have
-- to go through one of them twice.
theorem Laid.pictureFrom {r : Ref} {cells : List Loc} (laid : s.Laid r d cells) {fuel : Nat}
    (outgrown : s.Outgrown path d) (enough : s.size < fuel + path.size) (depth : Nat) :
    s.pictureFrom fuel depth path r = .ok (d.map .atom) ∨
      depth ≤ d.size ∧ s.pictureFrom fuel depth path r = .error .tooDeep := by
  induction laid generalizing fuel depth path with
  | nil => exact .inl (by simp [Store.pictureFrom, Tree.map])
  | @leaf loc a found =>
    obtain ⟨fuel, rfl⟩ := exists_fuel outgrown.lt_size enough
    cases depth with
    | zero => exact .inr ⟨Nat.zero_le _, by simp [Store.pictureFrom]⟩
    | succ depth =>
      left
      cases a <;> simp [Store.pictureFrom, found, Atom.node, Tree.map]
  | @pair loc first second d e cells cells' found left right ihLeft ihRight =>
    have denotes : s.Denotes (.cell loc) (.pair d e) := ⟨_, .pair found left right⟩
    have fresh := outgrown.not_mem denotes
    obtain ⟨fuel, rfl⟩ := exists_fuel outgrown.lt_size enough
    cases depth with
    | zero => exact .inr ⟨Nat.zero_le _, by simp [Store.pictureFrom]⟩
    | succ depth =>
      have longer : s.size < fuel + (path.insert loc).size := by
        rw [size_insert_of_not_mem fresh]
        omega
      have small : d.size < (Tree.pair d e).size ∧ e.size < (Tree.pair d e).size := by
        simp only [Tree.size]
        omega
      rw [pictureFrom_pair found fresh]
      rcases ihLeft (outgrown.insert denotes small.1) longer depth with shown | ⟨deep, stopped⟩
      · rcases ihRight (outgrown.insert denotes small.2) longer (depth + 1) with
          shown' | ⟨deep, stopped⟩
        · left
          rw [shown, shown']
          rfl
        · right
          rw [shown, stopped]
          exact ⟨by omega, rfl⟩
      · right
        rw [stopped]
        exact ⟨by omega, rfl⟩

/-- A value that stands for a datum is printed as the datum is, or it is too deep. -/
theorem Denotes.render {r : Ref} (denotes : s.Denotes r d) (depth : Nat) :
    s.render depth r = .ok d.text ∨ depth ≤ d.size ∧ s.render depth r = .error .tooDeep := by
  obtain ⟨cells, laid⟩ := denotes
  have outgrown : s.Outgrown ∅ d := by
    intro loc member
    simp at member
  have enough : s.size < s.size + 1 + (∅ : Std.TreeSet Loc).size := by simp
  rcases laid.pictureFrom outgrown enough depth with shown | ⟨deep, stopped⟩
  · left
    have same : Picture.text (d.map .atom) = d.text := by
      rw [Picture.text, Datum.text, (Tree.chars_map _ _ _).1]
      rfl
    rw [Store.render, picture, shown, ← same]
    rfl
  · right
    rw [Store.render, picture, stopped]
    exact ⟨deep, rfl⟩

end Store

end LittleScheme
