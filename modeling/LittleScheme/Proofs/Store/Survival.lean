import LittleScheme.Proofs.Store.History

/-!
# What survives a collection

A collection can be asked for in any store: any values may be registered, any may carry a mark from
before, and any may be the root.  The marks of registered values are reset, those of the others are
not, and a mark that is left cuts off what is behind it.  So a registered value survives exactly if
some path leads to it from the root along which each value is registered or was without a mark.

The rest of the effect does not depend on what survives: the values that do not are counted, and no
value is changed but for its mark (`Store.Strikes`).
-/

namespace LittleScheme

namespace Store

variable {s s' : Store} {root r : Ref}

/-- So many values have been struck from the register by a collection; they are counted, and nothing
else has changed but marks. -/
structure Strikes (s s' : Store) (dead : Nat) : Prop where
  registry : s'.registry.Sublist s.registry
  live : dead + s'.live = s.live
  collections : s'.collections = s.collections + 1
  reclaimed : s'.reclaimed = s.reclaimed + dead
  allocations : s'.allocations = s.allocations
  node? : ∀ r, s'.node? r = s.node? r

theorem strikes_collect (s : Store) (root : Ref) :
    s.Strikes (s.collect root).2 (s.collect root).1 := by
  have marked : s.resetMarks.markFrom [root] =
      { s with cells := (s.resetMarks.markFrom [root]).cells } := by
    rw [markFrom_eq]
    rfl
  have reclaimed : (s.collect root).2.reclaimed = s.reclaimed + (s.collect root).1 := by
    change (s.resetMarks.markFrom [root]).reclaimed + (s.collect root).1 = _
    rw [marked]
  obtain ⟨live, allocations⟩ := live_collect s root
  refine ⟨?_, by omega, ?_, reclaimed, allocations, node?_collect s root⟩
  · rw [registry_collect]
    exact List.filter_sublist
  · change (s.resetMarks.markFrom [root]).collections + 1 = _
    rw [marked]

/-- What a collection traces is a path along values that are registered or were without a mark. -/
theorem Traces.through (path : s.resetMarks.Traces root r) :
    s.Through (fun q => s.isRegistered q = true ∨ s.isMarked q = false) root r := by
  have fits {q : Ref} (unmarked : s.resetMarks.isMarked q = false) :
      s.isRegistered q = true ∨ s.isMarked q = false := by
    rw [isMarked_resetMarks] at unmarked
    cases h : s.isRegistered q <;> simp_all
  induction path with
  | here _ unmarked => exact .here (fits unmarked)
  | step found unmarked child _ ih =>
    exact .step (fits unmarked) (by simpa using found) child ih

/-- The registered values that survive are those to which such a path leads. -/
theorem isRegistered_collect_iff_through (backed : s.Backed) (root r : Ref) :
    (s.collect root).2.isRegistered r = true ↔ s.isRegistered r = true ∧
      s.Through (fun q => s.isRegistered q = true ∨ s.isMarked q = false) root r := by
  have unmarked (q : Ref) (fits : s.isRegistered q = true ∨ s.isMarked q = false) :
      s.resetMarks.isMarked q = false := by
    rw [isMarked_resetMarks]
    rcases fits with registered | clean
    · simp [registered]
    · simp [clean]
  rw [isRegistered_collect]
  constructor
  · rintro ⟨registered, traced⟩
    exact ⟨registered, traced.through⟩
  · rintro ⟨registered, path⟩
    obtain ⟨node, found⟩ := exists_node?_of_isRegistered backed registered
    exact ⟨registered, path.traces unmarked found⟩

/-- A collection that strikes no value keeps the register as it is. -/
theorem collect_eq_zero
    (kept : ∀ loc ∈ s.registry, (s.collect root).2.isRegistered (.cell loc) = true) :
    (s.collect root).1 = 0 := by
  have same : (s.collect root).2.registry = s.registry := by
    rw [registry_collect, List.filter_eq_self]
    intro loc member
    have stays := kept loc member
    rw [isRegistered, registry_collect, List.contains_iff_mem] at stays
    exact (List.mem_filter.1 stays).2
  have live := (strikes_collect s root).live
  rw [Store.live, Store.live, same] at live
  omega

/-- Where only registered values can be reached, a second collection has nothing to strike. -/
theorem collect_collect_eq_zero (backed : s.Backed)
    (registered : ∀ r, s.Reaches root r → r ≠ .nil → s.isRegistered r = true) :
    ((s.collect root).2.collect root).1 = 0 := by
  have same := node?_collect s root
  have survivors := isRegistered_collect_iff (fun loc member => exists_node? (backed loc member))
    registered
  have backed' : (s.collect root).2.Backed := backed.afterUse (.collect root)
  have registered' : ∀ r, (s.collect root).2.Reaches root r → r ≠ .nil →
      (s.collect root).2.isRegistered r = true := by
    intro r path ne
    exact (survivors r).2 ⟨ne, path.of_node? fun q => (same q).symm⟩
  refine collect_eq_zero fun loc member => ?_
  rw [isRegistered_collect_iff (fun loc member => exists_node? (backed' loc member)) registered']
  have stays : (s.collect root).2.isRegistered (.cell loc) = true := by
    simpa [isRegistered] using member
  exact ⟨by simp, ((survivors _).1 stays).2.of_node? same⟩

end Store

open Store

/-- **The effect of a collection.**  In a store whose registered values are there, `collect root`
keeps a registered value exactly if a path leads to it from `root` along which every value, both
ends included, is registered or was without a mark.  The others are struck from the register and
counted, and no value is changed but for its mark.  If everything that can be reached is registered,
that is what is kept, and a second collection strikes nothing. -/
theorem collect_effect {s : Store} (backed : s.Backed) (root : Ref) :
    let swept := (s.collect root).2
    (∀ r, swept.isRegistered r = true ↔ s.isRegistered r = true ∧
      s.Through (fun q => s.isRegistered q = true ∨ s.isMarked q = false) root r) ∧
    s.Strikes swept (s.collect root).1 ∧
    ((∀ r, s.Reaches root r → r ≠ .nil → s.isRegistered r = true) →
      (∀ r, swept.isRegistered r = true ↔ r ≠ .nil ∧ s.Reaches root r) ∧
        (swept.collect root).1 = 0) := by
  refine ⟨isRegistered_collect_iff_through backed root, strikes_collect s root, ?_⟩
  intro registered
  exact ⟨isRegistered_collect_iff (fun loc member => exists_node? (backed loc member)) registered,
    collect_collect_eq_zero backed registered⟩

/-- Two integers are held by pairs that are not registered.  One pair carries a mark from before,
and its integer is struck; the other carries none, and its integer is kept. -/
theorem collect_effect_stale :
    let s : Store :=
      { cells := #[{ node := .integer 1 }, { node := .integer 2 },
          { node := .pair (.cell 0) .nil, marked := true }, { node := .pair (.cell 1) .nil },
          { node := .pair (.cell 2) (.cell 3), marked := true }]
        registry := [4, 1, 0], allocations := 3 }
    s.Backed ∧ (s.collect (.cell 4)).2.isRegistered (.cell 0) = false ∧
      (s.collect (.cell 4)).2.isRegistered (.cell 1) = true ∧
        (s.collect (.cell 4)).1 + (s.collect (.cell 4)).2.live = 3 := by
  intro s
  have backed : s.Backed := by decide
  obtain ⟨keeps, strikes, -⟩ := collect_effect backed (.cell 4)
  have root : s.node? (.cell 4) = some (.pair (.cell 2) (.cell 3)) := by decide
  have clean : s.node? (.cell 3) = some (.pair (.cell 1) .nil) := by decide
  have path : s.Through (fun q => s.isRegistered q = true ∨ s.isMarked q = false) (.cell 3)
      (.cell 1) := by
    exact .step (.inr (by decide)) clean (by simp [Node.children]) (.here (.inl (by decide)))
  refine ⟨backed, by decide +kernel, ?_, strikes.live⟩
  exact (keeps (.cell 1)).2
    ⟨by decide, .step (.inl (by decide)) root (by simp [Node.children]) path⟩

end LittleScheme
