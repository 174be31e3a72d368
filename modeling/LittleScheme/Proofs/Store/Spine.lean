import LittleScheme.Proofs.Store.Renaming

/-!
# Where chains lead

`Store.Spine` follows `second` for a number of pairs.  The way is determined by where it begins: it
comes to something that is no pair, or it goes round in circles, and not both
(`Store.ends_or_circles`).  What is read off a chain is cut at the first pair that is met again, and
what is dropped from a chain is not; for a chain that comes to an end the two agree.
-/

namespace LittleScheme

namespace Store

/-- Following `second` from `r` along the pairs, each of them with its first field, one comes to
`r'`. -/
inductive Spine (s : Store) : Ref → List (Loc × Ref) → Ref → Prop
  | here (r : Ref) : s.Spine r [] r
  | pair {loc : Loc} {fields : Ref × Ref} {links : List (Loc × Ref)} {r : Ref}
    (found : s.pair? (.cell loc) = some fields) (rest : s.Spine fields.2 links r) :
    s.Spine (.cell loc) ((loc, fields.1) :: links) r

/-- Following `second` from `r`, one comes to a pair and from there back to it. -/
def Circles (s : Store) (r : Ref) : Prop :=
  ∃ pair way round, s.Spine r way pair ∧ s.Spine pair round pair ∧ round ≠ []

variable {s s' : Store} {r r' : Ref} {links : List (Loc × Ref)}

namespace Spine

/-- Each part of the way leads somewhere. -/
theorem exists_of_append {links' : List (Loc × Ref)} (spine : s.Spine r (links ++ links') r') :
    ∃ r'', s.Spine r links r'' ∧ s.Spine r'' links' r' := by
  induction links generalizing r with
  | nil => exact ⟨r, .here r, spine⟩
  | cons link links ih =>
    cases spine with
    | pair found rest =>
      obtain ⟨r'', first, second⟩ := ih rest
      exact ⟨r'', .pair found first, second⟩

theorem extend (spine : s.Spine r links r') (extended : s.Extended s') : s'.Spine r links r' := by
  induction spine with
  | here => exact .here _
  | pair found _ ih =>
    exact .pair (pair?_eq_some.2 (extended.node? (pair?_eq_some.1 found))) ih

/-- Of two ways from one place, one goes on where the other ends. -/
theorem continues {links' : List (Loc × Ref)} {r'' : Ref} (spine : s.Spine r links r')
    (spine' : s.Spine r links' r'') :
    (∃ more, links' = links ++ more ∧ s.Spine r' more r'') ∨
      ∃ more, links = links' ++ more ∧ s.Spine r'' more r' := by
  induction spine generalizing links' with
  | here => exact .inl ⟨links', rfl, spine'⟩
  | pair found rest ih =>
    cases spine' with
    | here => exact .inr ⟨_, rfl, .pair found rest⟩
    | pair found' rest' =>
      rw [found, Option.some.injEq] at found'
      subst found'
      rcases ih rest' with ⟨more, rfl, on⟩ | ⟨more, rfl, on⟩
      · exact .inl ⟨more, rfl, on⟩
      · exact .inr ⟨more, rfl, on⟩

/-- From what is no pair the way leads nowhere else. -/
theorem of_end (spine : s.Spine r links r') (ends : s.pair? r = none) : links = [] ∧ r = r' := by
  cases spine with
  | here => exact ⟨rfl, rfl⟩
  | pair found => simp [ends] at found

/-- There is one way to an end. -/
theorem unique {links' : List (Loc × Ref)} {r'' : Ref} (spine : s.Spine r links r')
    (ends : s.pair? r' = none) (spine' : s.Spine r links' r'') (ends' : s.pair? r'' = none) :
    links = links' ∧ r' = r'' := by
  rcases spine.continues spine' with ⟨more, rfl, on⟩ | ⟨more, rfl, on⟩
  · obtain ⟨rfl, rfl⟩ := on.of_end ends
    exact ⟨(List.append_nil _).symm, rfl⟩
  · obtain ⟨rfl, rfl⟩ := on.of_end ends'
    exact ⟨List.append_nil _, rfl⟩

/-- A pair on the way that is met again in the end closes a circle. -/
theorem circles_of_mem {loc : Loc} (spine : s.Spine r links (.cell loc))
    (member : loc ∈ links.map (·.1)) : s.Circles r := by
  obtain ⟨⟨loc, first⟩, linked, rfl⟩ := List.mem_map.1 member
  obtain ⟨way, round, rfl⟩ := List.append_of_mem linked
  obtain ⟨r'', before, around⟩ := spine.exists_of_append
  cases around with
  | pair found rest => exact ⟨_, way, _, before, .pair found rest, List.cons_ne_nil _ _⟩

end Spine

/-- A new pair is found in the cell behind the others. -/
theorem pair?_register (s : Store) (first second : Ref) :
    (s.register (.pair first second)).pair? (.cell s.size) = some (first, second) := by
  rw [pair?_eq_some, node?_register, if_pos rfl]

/-! ## Dropping pairs -/

/-- Pairs can be dropped in two goes. -/
theorem drop?_add (j k : Nat) (r : Ref) : s.drop? (j + k) r = (s.drop? j r).bind (s.drop? k) := by
  induction j generalizing r with
  | zero => rw [Nat.zero_add, drop?, Option.bind_some]
  | succ j ih =>
    rw [Nat.succ_add, drop?, drop?]
    cases s.pair? r with
    | none => rfl
    | some fields => exact ih fields.2

/-- From a chain that comes to an end no more can be dropped than its pairs. -/
theorem Spine.drop?_isSome_iff (spine : s.Spine r links r') (ends : s.pair? r' = none) (k : Nat) :
    (s.drop? k r).isSome ↔ k ≤ links.length := by
  induction spine generalizing k with
  | here => cases k <;> simp [drop?, ends]
  | pair found _ ih => cases k <;> simp [drop?, found, ih ends]

theorem Circles.exists_pair (circles : s.Circles r) :
    ∃ fields, s.pair? r = some fields ∧ s.Circles fields.2 := by
  obtain ⟨pair, way, round, before, around, some⟩ := circles
  cases before with
  | here =>
    cases around with
    | here => exact absurd rfl some
    | pair found rest =>
      exact ⟨_, found, _, _, _, rest, .pair found rest, List.cons_ne_nil _ _⟩
  | pair found rest => exact ⟨_, found, _, _, round, rest, around, some⟩

/-- From a chain that goes round any number of pairs can be dropped. -/
theorem Circles.exists_drop? (circles : s.Circles r) (k : Nat) : ∃ r', s.drop? k r = some r' := by
  induction k generalizing r with
  | zero => exact ⟨r, rfl⟩
  | succ k ih =>
    obtain ⟨fields, found, rest⟩ := circles.exists_pair
    rw [drop?, found]
    exact ih rest

/-- A chain that comes to an end does not go round. -/
theorem Spine.not_circles (spine : s.Spine r links r') (ends : s.pair? r' = none) :
    ¬s.Circles r := by
  intro circles
  obtain ⟨r'', dropped⟩ := circles.exists_drop? (links.length + 1)
  have short := (spine.drop?_isSome_iff ends (links.length + 1)).1 (by simp [dropped])
  omega

/-! ## Reading off a chain -/

theorem chainFrom_spine (fuel : Nat) (seen : Std.TreeSet Loc) (r : Ref) :
    s.Spine r (s.chainFrom fuel seen r).links (s.chainFrom fuel seen r).last := by
  induction fuel generalizing seen r with
  | zero => exact .here r
  | succ fuel ih =>
    by_cases ends : ∀ loc fields, r = .cell loc → s.pair? r = some fields → loc ∈ seen
    · rw [chainFrom_of_end ends]
      exact .here r
    · push Not at ends
      obtain ⟨loc, fields, rfl, found, unseen⟩ := ends
      rw [chainFrom_of_pair found unseen]
      exact .pair found (ih _ _)

/-- What is read off ends with something that is no pair, or with a pair that has been met. -/
theorem chainFrom_ends {fuel : Nat} {seen : Std.TreeSet Loc} (known : ∀ loc ∈ seen, loc < s.size)
    (enough : s.size ≤ fuel + seen.size) (r : Ref) :
    s.pair? (s.chainFrom fuel seen r).last = none ∨
      ∃ loc, (s.chainFrom fuel seen r).last = .cell loc ∧
        (loc ∈ seen ∨ loc ∈ (s.chainFrom fuel seen r).links.map (·.1)) := by
  induction fuel using Nat.strongRecOn generalizing seen r with
  | ind fuel ih =>
    by_cases ends : ∀ loc fields, r = .cell loc → s.pair? r = some fields → loc ∈ seen
    · rw [chainFrom_of_end ends]
      cases found : s.pair? r with
      | none => exact .inl rfl
      | some fields =>
        cases r with
        | nil => cases found
        | cell loc => exact .inr ⟨loc, rfl, .inl (ends loc fields rfl found)⟩
    · push Not at ends
      obtain ⟨loc, fields, rfl, found, unseen⟩ := ends
      -- a pair that has not been seen leaves room for a step
      have known' := lt_size_of_insert known (lt_size (pair?_eq_some.1 found))
      have longer := size_insert_of_not_mem unseen
      have short := size_path_le known'
      obtain ⟨fuel, rfl⟩ : ∃ n, fuel = n + 1 := ⟨fuel - 1, by omega⟩
      rw [chainFrom_of_pair found unseen]
      refine (ih fuel (Nat.lt_succ_self _) known' (by omega) fields.2).imp_right ?_
      rintro ⟨loc', last, before | later⟩
      · rw [Std.TreeSet.mem_insert, Std.LawfulEqCmp.compare_eq_iff_eq] at before
        refine ⟨loc', last, before.symm.imp_right ?_⟩
        rintro rfl
        exact List.mem_cons_self ..
      · exact ⟨loc', last, .inr (List.mem_cons_of_mem _ later)⟩

theorem chain_spine (s : Store) (r : Ref) : s.Spine r (s.chain r).links (s.chain r).last :=
  chainFrom_spine _ _ r

/-- A chain comes to an end, or it goes round in circles. -/
theorem chain_ends (s : Store) (r : Ref) : s.pair? (s.chain r).last = none ∨ s.Circles r := by
  refine (chainFrom_ends (by simp) (by simp) r).imp_right ?_
  rintro ⟨loc, last, member⟩
  have spine := s.chain_spine r
  rw [chain, last] at spine
  exact spine.circles_of_mem (by simpa using member)

theorem ends_or_circles (s : Store) (r : Ref) :
    (∃ links r', s.Spine r links r' ∧ s.pair? r' = none) ∨ s.Circles r :=
  (s.chain_ends r).imp_left fun ends => ⟨_, _, s.chain_spine r, ends⟩

/-- Lists are the chains that end in the empty list. -/
theorem toList?_eq_some_iff {items : List Ref} :
    s.toList? r = some items ↔ ∃ links, s.Spine r links .nil ∧ links.map (·.2) = items := by
  simp only [toList?, Option.ite_none_right_eq_some, Option.some.injEq]
  constructor
  · rintro ⟨last, items⟩
    exact ⟨_, last ▸ s.chain_spine r, items⟩
  · rintro ⟨links, spine, rfl⟩
    have ends := (s.chain_ends r).resolve_right (spine.not_circles rfl)
    obtain ⟨same, last⟩ := spine.unique rfl (s.chain_spine r) ends
    rw [Chain.items, ← same, ← last]
    exact ⟨rfl, rfl⟩

/-- What is a list is one of some items. -/
theorem isProperList_eq (s : Store) (r : Ref) : s.isProperList r = (s.toList? r).isSome := by
  rw [isProperList, toList?]
  split <;> simp [*]

theorem Extended.toList? (extended : s.Extended s') {items : List Ref}
    (listed : s.toList? r = some items) : s'.toList? r = some items := by
  obtain ⟨links, spine, rfl⟩ := toList?_eq_some_iff.1 listed
  exact toList?_eq_some_iff.2 ⟨links, spine.extend extended, rfl⟩

end Store

/-- A list that is made consists of one new registered pair for each item, the last of them made
first, and nothing else is new. -/
theorem makeList_links (items : List Ref) (tail : Ref) (s : Store) :
    ∃ r s' links, makeList items tail s = .ok r s' ∧ s.Extended s' ∧ s'.Spine r links tail ∧
      links.map (·.2) = items ∧ s'.size = s.size + items.length ∧
      links.map (·.1) = (List.range' s.size items.length).reverse ∧
      s'.registry = links.map (·.1) ++ s.registry := by
  induction items with
  | nil => exact ⟨tail, s, [], rfl, .refl s, .here tail, rfl, rfl, rfl, rfl⟩
  | cons item items ih =>
    obtain ⟨r, s', links, made, extended, spine, rfl, size, fresh, registered⟩ := ih
    have more := s'.extended_register (.pair item r)
    refine ⟨.cell s'.size, s'.register (.pair item r), (s'.size, item) :: links, ?_,
      extended.trans more, .pair (s'.pair?_register item r) (spine.extend more), rfl, ?_, ?_, ?_⟩
    · rw [makeList, StoreM.bind_ok made]
      rfl
    · rw [Store.size_register, size, List.length_cons, Nat.add_assoc]
    · simp [fresh, size, List.range'_1_concat]
    · simp [Store.register, registered]

/-- A list that is made is a list of the items, made of new cells only. -/
theorem makeList_spine (items : List Ref) (tail : Ref) (s : Store) :
    ∃ r s' links, makeList items tail s = .ok r s' ∧ s.Extended s' ∧ s'.Spine r links tail ∧
      links.map (·.2) = items := by
  obtain ⟨r, s', links, made, extended, spine, fields, -⟩ := makeList_links items tail s
  exact ⟨r, s', links, made, extended, spine, fields⟩

end LittleScheme
