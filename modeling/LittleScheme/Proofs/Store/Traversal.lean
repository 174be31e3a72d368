import LittleScheme.Proofs.Evaluation.Storing
import LittleScheme.Proofs.Store.Spine
import Mathlib.Data.List.Nodup

/-!
# Going through a chain

A chain is gone through pair by pair, and the pairs that have been met are remembered, so that one
stops in front of the first that is met again.  `Store.Traverses` is this as a judgement.  It is the
only way to go through a chain without meeting a pair twice, and whether one meets the empty list
does not depend on what is remembered: it is met exactly if one comes to it by following `second`
for some number of pairs.  A list that is made is a chain of new pairs in front of the chain of its
tail.
-/

namespace LittleScheme

namespace Store

/-- From `r` one goes through the chain: following `second` one comes to its end, no pair is met
twice on the way, and the end is no pair, or one that has been met. -/
structure Traverses (s : Store) (r : Ref) (chain : Chain) : Prop where
  spine : s.Spine r chain.links chain.last
  nodup : (chain.links.map (·.1)).Nodup
  ends : s.pair? chain.last = none ∨ ∃ loc ∈ chain.links.map (·.1), chain.last = .cell loc

variable {s s' : Store} {r r' tail : Ref} {links : List (Loc × Ref)}

/-! ## Ways along a chain -/

namespace Spine

theorem append {links' : List (Loc × Ref)} (spine : s.Spine r links r')
    (spine' : s.Spine r' links' tail) : s.Spine r (links ++ links') tail := by
  induction spine with
  | here => exact spine'
  | pair found _ ih => exact .pair found (ih spine')

/-- The pairs on the way are cells of the store. -/
theorem lt_size (spine : s.Spine r links r') : ∀ loc ∈ links.map (·.1), loc < s.size := by
  induction spine with
  | here => simp
  | pair found _ ih =>
    rw [List.map_cons, List.forall_mem_cons]
    exact ⟨Store.lt_size (pair?_eq_some.1 found), ih⟩

/-- Behind the last pair on the way is where the way leads; with no pair on it, it leads nowhere
else. -/
theorem last_eq (spine : s.Spine r links r') :
    (links = [] → r' = r) ∧
      ∀ link ∈ links.getLast?, s.pair? (.cell link.1) = some (link.2, r') := by
  induction spine with
  | here => simp
  | @pair loc fields links r' found rest ih =>
    refine ⟨by simp, ?_⟩
    intro link last
    cases links with
    | nil =>
      obtain ⟨first, second⟩ := fields
      cases last
      cases rest
      exact found
    | cons next links => exact ih.2 link (by simpa using last)

/-- Without dangling references, the way leads to a value of the store. -/
theorem has (whole : tidiness.Sound s) (spine : s.Spine r links r') (has : s.Has r) : s.Has r' := by
  induction spine with
  | here => exact has
  | pair found _ ih => exact ih (whole (pair?_eq_some.1 found) _ (by simp [Node.children]))

end Spine

/-- What is left behind a number of pairs is where the way along them leads. -/
theorem drop?_eq_some_iff {k : Nat} :
    s.drop? k r = some r' ↔ ∃ links, s.Spine r links r' ∧ links.length = k := by
  induction k generalizing r with
  | zero =>
    rw [drop?, Option.some.injEq]
    constructor
    · rintro rfl
      exact ⟨[], .here r, rfl⟩
    · rintro ⟨links, spine, length⟩
      cases List.length_eq_zero_iff.1 length
      cases spine
      rfl
  | succ k ih =>
    rw [drop?]
    cases found : s.pair? r with
    | none =>
      refine iff_of_false (by simp) ?_
      rintro ⟨links, spine, length⟩
      cases spine with
      | here => cases length
      | pair found' => simp [found] at found'
    | some fields =>
      refine ih.trans ?_
      constructor
      · rintro ⟨links, spine, rfl⟩
        cases r with
        | nil => cases found
        | cell loc => exact ⟨_, .pair found spine, rfl⟩
      · rintro ⟨links, spine, length⟩
        cases spine with
        | here => cases length
        | pair found' rest =>
          rw [found, Option.some.injEq] at found'
          subst found'
          exact ⟨_, rest, Nat.succ_inj.1 length⟩

/-! ## The chain that is gone through -/

-- The pairs to come are neither among those that have been seen nor twice among themselves.
theorem chainFrom_nodup (fuel : Nat) (seen : Std.TreeSet Loc) (r : Ref) :
    ((s.chainFrom fuel seen r).links.map (·.1)).Nodup ∧
      ∀ loc ∈ (s.chainFrom fuel seen r).links.map (·.1), loc ∉ seen := by
  induction fuel generalizing seen r with
  | zero => simp [chainFrom]
  | succ fuel ih =>
    by_cases ends : ∀ loc fields, r = .cell loc → s.pair? r = some fields → loc ∈ seen
    · simp [chainFrom_of_end ends]
    · push Not at ends
      obtain ⟨loc, fields, rfl, found, unseen⟩ := ends
      obtain ⟨distinct, apart⟩ := ih (seen.insert loc) fields.2
      simp only [Std.TreeSet.mem_insert, Std.LawfulEqCmp.compare_eq_iff_eq, not_or] at apart
      rw [chainFrom_of_pair found unseen, List.map_cons, List.nodup_cons, List.forall_mem_cons]
      exact ⟨⟨fun member => (apart loc member).1 rfl, distinct⟩, unseen,
        fun loc' member => (apart loc' member).2⟩

/-- The chain that is computed is one to go through. -/
theorem chain_traverses (s : Store) (r : Ref) : s.Traverses r (s.chain r) where
  spine := s.chain_spine r
  nodup := (chainFrom_nodup _ _ r).1
  ends := by
    refine (chainFrom_ends (by simp) (by simp) r).imp_right ?_
    rintro ⟨loc, last, member⟩
    exact ⟨loc, by simpa [chain] using member, last⟩

namespace Traverses

variable {chain chain' : Chain}

/-- Behind the end of a chain one meets a pair for the second time, or none at all. -/
theorem not_continues {more : List (Loc × Ref)} (traverses : s.Traverses r chain)
    (on : s.Spine chain.last more r') (nodup : ((chain.links ++ more).map (·.1)).Nodup) :
    more = [] := by
  obtain ⟨links, last⟩ := chain
  cases on with
  | here => rfl
  | @pair loc fields links' r' found rest =>
    rcases traverses.ends with ends | ⟨loc', member, same⟩
    · rw [ends] at found
      cases found
    · -- the pair is among those that have been met
      cases same
      rw [List.map_append, List.nodup_append] at nodup
      exact absurd rfl (nodup.2.2 loc member loc (by simp))

/-- A chain that goes on where another one ends is that one. -/
theorem eq_of_append {more : List (Loc × Ref)} (traverses : s.Traverses r chain)
    (traverses' : s.Traverses r chain') (split : chain'.links = chain.links ++ more)
    (on : s.Spine chain.last more chain'.last) : chain = chain' := by
  obtain ⟨links, last⟩ := chain
  obtain ⟨links', last'⟩ := chain'
  have nodup := traverses'.nodup
  rw [split] at nodup
  obtain rfl := traverses.not_continues on nodup
  cases on
  simp only [List.append_nil] at split
  rw [split]

/-- There is one chain to go through. -/
theorem unique (traverses : s.Traverses r chain) (traverses' : s.Traverses r chain') :
    chain = chain' := by
  rcases traverses.spine.continues traverses'.spine with ⟨more, split, on⟩ | ⟨more, split, on⟩
  · exact traverses.eq_of_append traverses' split on
  · exact (traverses'.eq_of_append traverses split on).symm

/-- A chain that does not lead out of the store is the same in a larger one. -/
theorem extend (traverses : s.Traverses r chain) (extended : s.Extended s')
    (exist : s.Has chain.last) : s'.Traverses r chain where
  spine := traverses.spine.extend extended
  nodup := traverses.nodup
  ends := by
    refine traverses.ends.imp_left fun ends => ?_
    cases last : chain.last with
    | nil => rfl
    | cell loc =>
      rw [last] at ends
      rw [pair?, extended.node?_eq (exist loc last)]
      exact ends

/-- Further pairs in front of a chain. -/
theorem prepend (traverses : s.Traverses tail chain) (spine : s.Spine r links tail)
    (nodup : (links.map (·.1)).Nodup)
    (apart : ∀ loc ∈ links.map (·.1), loc ∉ chain.links.map (·.1)) :
    s.Traverses r ⟨links ++ chain.links, chain.last⟩ where
  spine := spine.append traverses.spine
  nodup := by
    rw [List.map_append, List.nodup_append]
    refine ⟨nodup, traverses.nodup, ?_⟩
    rintro loc member _ member' rfl
    exact apart loc member member'
  ends := by
    refine traverses.ends.imp_right ?_
    rintro ⟨loc, member, last⟩
    exact ⟨loc, by simp only [List.map_append, List.mem_append, member, or_true], last⟩

end Traverses

/-- The chain that is computed is the one to go through. -/
theorem chain_eq_iff {chain : Chain} : s.chain r = chain ↔ s.Traverses r chain := by
  constructor
  · rintro rfl
    exact s.chain_traverses r
  · exact (s.chain_traverses r).unique

/-- A chain has no more pairs than there are cells. -/
theorem length_chain_le (s : Store) (r : Ref) : (s.chain r).links.length ≤ s.size := by
  have traverses := s.chain_traverses r
  have inside : (s.chain r).links.map (·.1) ⊆ List.range s.size := fun loc member =>
    List.mem_range.2 (traverses.spine.lt_size loc member)
  simpa using (traverses.nodup.subperm inside).length_le

/-- Proper lists are the values from which one comes to the empty list. -/
theorem isProperList_iff : s.isProperList r = true ↔ ∃ k, s.drop? k r = some .nil := by
  simp only [isProperList_eq, Option.isSome_iff_exists, toList?_eq_some_iff, drop?_eq_some_iff]
  constructor
  · rintro ⟨_, links, spine, -⟩
    exact ⟨_, links, spine, rfl⟩
  · rintro ⟨_, links, spine, -⟩
    exact ⟨_, links, spine, rfl⟩

end Store

/-- Whoever asks for a list gets the items of a chain that ends in the empty list. -/
theorem listItems_eq_items (category : Category) (r : Ref) (s : Store) :
    listItems category r s =
      if s.isProperList r then .ok (s.chain r).items s
      else .error (.error (.improperList category)) s := by
  rw [listItems_eq, Store.toList?, Store.isProperList]
  by_cases last : (s.chain r).last = .nil <;> simp [last]

/-- The chain of a list that is made has its new pairs in front of the chain of the tail, if the
latter does not lead out of the store. -/
theorem chain_makeList {s : Store} {tail : Ref} (exist : s.Has (s.chain tail).last)
    (items : List Ref) :
    ∃ r s' links, makeList items tail s = .ok r s' ∧ s.Extended s' ∧ links.map (·.2) = items ∧
      (∀ loc ∈ links.map (·.1), s.node? (.cell loc) = none ∧ s'.isRegistered (.cell loc) = true) ∧
      s'.chain tail = s.chain tail ∧
      s'.chain r = ⟨links ++ (s.chain tail).links, (s.chain tail).last⟩ := by
  obtain ⟨r, s', links, made, extended, spine, fields, -, fresh, registered⟩ :=
    makeList_links items tail s
  have traverses := s.chain_traverses tail
  have new : ∀ loc ∈ links.map (·.1), s.size ≤ loc := by
    intro loc member
    rw [fresh, List.mem_reverse, List.mem_range'_1] at member
    exact member.1
  have nodup : (links.map (·.1)).Nodup := by
    rw [fresh, List.nodup_reverse]
    exact List.nodup_range'
  refine ⟨r, s', links, made, extended, fields, ?_,
    Store.chain_eq_iff.2 (traverses.extend extended exist),
    Store.chain_eq_iff.2 ((traverses.extend extended exist).prepend spine nodup ?_)⟩
  · intro loc member
    refine ⟨s.node?_eq_none (new loc member), ?_⟩
    simp only [Store.isRegistered, registered, List.contains_iff_mem, List.mem_append, member,
      true_or]
  · intro loc member old
    exact Nat.not_lt.2 (new loc member) (traverses.spine.lt_size loc old)

/-- A list that is made is a list of its items. -/
theorem listItems_makeList (category : Category) (items : List Ref) (s : Store) :
    ∃ r s', makeList items .nil s = .ok r s' ∧ listItems category r s' = .ok items s' := by
  obtain ⟨r, s', links, made, -, spine, fields⟩ := makeList_spine items .nil s
  refine ⟨r, s', made, ?_⟩
  rw [listItems_eq, Store.toList?_eq_some_iff.2 ⟨links, spine, fields⟩]

/-- **Going through chains.**  From every value there is one chain to go through, and it is
`Store.chain`: the pairs that following `second` leads to, without a repetition, up to the first
value that is no pair or the first pair that is met again.  It has no more pairs than the store has
cells, and its end is what stands behind the last of the pairs.

The value is a proper list exactly if one comes to the empty list by following `second` some number
of times.  Then, and only then, `listItems` gives its items, the first fields of the chain in their
order; otherwise the error is the one of the category that was asked for.

Where no reference dangles, `makeList` puts new pairs with the items in front of the chain that its
tail had and still has.  From a list with no other tail than the empty list one gets back the
items. -/
theorem traversal_laws (s : Store) (r : Ref) :
    (∀ chain, s.chain r = chain ↔ s.Traverses r chain) ∧
    (s.chain r).links.length ≤ s.size ∧
    ((s.chain r).links = [] → (s.chain r).last = r) ∧
    (∀ link ∈ (s.chain r).links.getLast?,
      s.pair? (.cell link.1) = some (link.2, (s.chain r).last)) ∧
    (s.isProperList r = true ↔ ∃ k, s.drop? k r = some .nil) ∧
    (∀ category, listItems category r s =
      if s.isProperList r then .ok (s.chain r).items s
      else .error (.error (.improperList category)) s) ∧
    (tidiness.Sound s → s.Has r → ∀ items, ∃ r' s' links,
      makeList items r s = .ok r' s' ∧ s.Extended s' ∧ links.map (·.2) = items ∧
      (∀ loc ∈ links.map (·.1), s.node? (.cell loc) = none ∧ s'.isRegistered (.cell loc) = true) ∧
      s'.chain r = s.chain r ∧
      s'.chain r' = ⟨links ++ (s.chain r).links, (s.chain r).last⟩) ∧
    ∀ category items, ∃ r' s', makeList items .nil s = .ok r' s' ∧
      listItems category r' s' = .ok items s' := by
  have spine := s.chain_spine r
  refine ⟨fun _ => Store.chain_eq_iff, s.length_chain_le r, spine.last_eq.1, spine.last_eq.2,
    Store.isProperList_iff, fun category => listItems_eq_items category r s, ?_,
    fun category items => listItems_makeList category items s⟩
  intro whole has items
  exact chain_makeList (spine.has whole has) items

/-- A chain that goes round behind its first pair: it is no list, and a list that is made in front
of it goes round as well. -/
theorem traversal_laws_round :
    let s : Store :=
      { cells := #[{ node := .pair (.cell 3) (.cell 1) }, { node := .pair .nil (.cell 2) },
          { node := .pair (.cell 3) (.cell 1) }, { node := .integer 7 }]
        registry := [3, 2, 1, 0], allocations := 4 }
    tidiness.Sound s ∧ s.Has (.cell 0) ∧
      s.chain (.cell 0) = ⟨[(0, .cell 3), (1, .nil), (2, .cell 3)], .cell 1⟩ ∧
      listItems .grammar (.cell 0) s = .error (.error (.improperList .grammar)) s ∧
      ∃ r' s' links, makeList [.nil, .cell 3] (.cell 0) s = .ok r' s' ∧
        links.map (·.2) = [.nil, .cell 3] ∧
        s'.chain r' = ⟨links ++ [(0, .cell 3), (1, .nil), (2, .cell 3)], .cell 1⟩ := by
  intro s
  have pair₀ : s.pair? (.cell 0) = some (.cell 3, .cell 1) := rfl
  have pair₁ : s.pair? (.cell 1) = some (.nil, .cell 2) := rfl
  have pair₂ : s.pair? (.cell 2) = some (.cell 3, .cell 1) := rfl
  have whole : tidiness.Sound s := by
    intro r node found
    cases r with
    | nil => cases found
    | cell loc =>
      match loc with
      | 0 | 1 | 2 | 3 =>
        cases found
        simp [s, Store.HasAll, Node.children, Store.has_nil, Store.size]
      | _ + 4 => simp [s, Store.node?] at found
  have has : s.Has (.cell 0) := by simp [s, Store.size]
  obtain ⟨chain, -, -, -, -, list, made, -⟩ := traversal_laws s (.cell 0)
  have round : s.chain (.cell 0) = ⟨[(0, .cell 3), (1, .nil), (2, .cell 3)], .cell 1⟩ :=
    (chain _).2 ⟨.pair pair₀ (.pair pair₁ (.pair pair₂ (.here _))), by decide, .inr ⟨1, by simp⟩⟩
  have improper := list .grammar
  rw [Store.isProperList, round] at improper
  obtain ⟨r', s', links, done, -, fields, -, -, front⟩ := made whole has [.nil, .cell 3]
  rw [round] at front
  exact ⟨whole, has, round, improper, r', s', links, done, fields, front⟩

end LittleScheme
