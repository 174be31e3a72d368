import LittleScheme.Proofs.Evaluation.Storing
import LittleScheme.Proofs.Store.Recopying
import LittleScheme.Proofs.Store.Sharing

/-!
# Binding a name to itself

`(set! x x)` stores a copy of the value of `x`.  Time and again, by `Engine.reassign`, it replaces a
copy by a copy of the copy.  The first copy may be larger than the value, which may share cells, but
all the others are as large as the first.
-/

namespace LittleScheme

/-- Assign a name to itself, so many times. -/
def Engine.reassign (engine : Engine) (env : Loc) (target : Ref) : Nat → StoreM Unit
  | 0 => return
  | m + 1 => do
    discard (engine.assign env [target, target])
    engine.reassign env target m

namespace Store

/-- In the scope, whose frames are those of the chain, the name that `target` is is bound to the
value. -/
structure Names (s : Store) (env : Loc) (chain : List Loc) (target : Ref) (name : String)
    (value : Ref) : Prop where
  symbol : s.symbolName? target = some name
  outward : s.Outward env chain
  bound : s.lookup? env name = some value

/-- What an assignment comes to, after the copying: the name is bound to the copy, and nothing that
was added meanwhile is touched. -/
structure Rebound (t t' u : Store) (env : Loc) (chain : List Loc) (target : Ref) (name : String)
    (value : Ref) : Prop where
  names : u.Names env chain target name value
  retains : t.Retains t' u
  size : u.size = t'.size
  allocations : u.allocations = t'.allocations

variable {t t' : Store} {env : Loc} {chain : List Loc} {target value : Ref} {name : String}

theorem Names.extend (names : t.Names env chain target name value) (extended : t.Extended t') :
    t'.Names env chain target name value where
  symbol := symbolName?_eq_some.2 (extended.node? (symbolName?_eq_some.1 names.symbol))
  outward := names.outward.extend extended
  bound := by
    obtain ⟨loc, decides, here⟩ := Option.bind_eq_some_iff.1 names.bound
    obtain ⟨frame, found, -⟩ := exists_frame_of_find? decides
    rw [lookup?, names.outward.find?_extend extended, decides, Option.bind_some, valueAt?,
      extended.frame?_eq found]
    exact here

/-- The frame that is written to was there before the copy. -/
theorem Names.assign (names : t.Names env chain target name value) (extended : t.Extended t')
    (c : Ref) : Rebound t t' (t'.assign env name c) env chain target name c := by
  obtain ⟨loc, decides, -⟩ := Option.bind_eq_some_iff.1 names.bound
  obtain ⟨frame, found, -⟩ := exists_frame_of_find? decides
  have old : loc < t.size := lt_size (frame?_eq_some.1 found)
  have names' := names.extend extended
  have decides' : t'.find? env name = some loc :=
    (names.outward.find?_extend extended name).trans decides
  have found' : t'.frame? loc = some frame := (extended.frame?_eq found).trans found
  have written : t'.assign env name c = t'.write loc (.environment (frame.define name c)) := by
    rw [Store.assign, decides']
    simp only [Store.define, found']
  have elsewhere {r : Ref} (other : r ≠ .cell loc) :
      (t'.assign env name c).node? r = t'.node? r := by
    rw [written, t'.node?_write_of_ne _ other]
  refine ⟨⟨?_, ?_, names'.outward.lookup?_assign decides' c⟩, ?_, ?_, ?_⟩
  · have symbol := symbolName?_eq_some.1 names'.symbol
    have other : target ≠ .cell loc := by
      rintro rfl
      rw [frame?_eq_some.1 found'] at symbol
      cases symbol
    exact symbolName?_eq_some.2 ((elsewhere other).trans symbol)
  · rw [Store.assign, decides']
    exact names'.outward.define found' name c
  · intro q node since here
    have other : q ≠ loc := Nat.ne_of_gt (Nat.lt_of_lt_of_le old since)
    rwa [elsewhere (by simpa using other)]
  · rw [written, size_write]
  · rw [written]
    rfl

end Store

section Reassign

variable {t t' : Store} {env : Loc} {chain : List Loc} {target value c : Ref} {name : String}
  {budget n : Nat}

/-- A name that is assigned to itself is bound to a copy of its value. -/
theorem Store.Names.reassign (names : t.Names env chain target name value)
    (enough : Place.single.cost + Place.row.cost ≤ budget)
    (copied : duplicate (copyDepth budget) value t = .ok c t') :
    ∃ u, Rebound t t' u env chain target name c ∧ ∀ m,
      (Engine.within budget).reassign env target (m + 1) t =
        (Engine.within budget).reassign env target m u := by
  have extended : t.Extended t' := by
    simpa [StoreM.storeAfter, copied] using duplicate_extended (copyDepth budget) value t
  refine ⟨_, names.assign extended c, fun m => ?_⟩
  have evaluated : (Engine.within budget).evaluate .single target env t = .ok value t := by
    change evaluate (budget - Place.single.cost) target env t = _
    rw [evaluate_symbol (by omega) names.symbol, resolve_eq, names.bound]
  have assigned : (Engine.within budget).assign env [target, target] t =
      .ok value (t'.assign env name c) := by
    rw [assign_eq_run, Store.assignCourse, names.symbol]
    simp only [names.bound]
    rw [Course.run, StoreM.bind_ok evaluated, Course.run, Deed.perform]
    exact (StoreM.bind_ok copied _).trans (assign_of_bound (names.extend extended).bound c)
  rw [Engine.reassign, StoreM.discard_eq, bind_assoc, StoreM.bind_ok assigned]
  rfl

/-- A name can be assigned to itself as often as one likes, and this takes as many cells each time:
what is copied the first time is the value, and from then on a copy. -/
theorem Store.Names.reassign_all (names : t.Names env chain target name value)
    (enough : Place.single.cost + Place.row.cost ≤ budget)
    (copied : duplicate (copyDepth budget) value t = .ok c t') (size : t'.size = t.size + n)
    (m : Nat) :
    ∃ u, (Engine.within budget).reassign env target m t = .ok () u ∧
      u.allocations = t.allocations + m * n := by
  induction m generalizing t t' value c with
  | zero => exact ⟨t, rfl, by simp⟩
  | succ m ih =>
    obtain ⟨n', size', allocations⟩ := duplicate_allocations copied
    obtain rfl : n' = n := by omega
    obtain ⟨u, rebound, again⟩ := names.reassign enough copied
    have sizeU := rebound.size
    obtain ⟨d, u', copied', -, repeats⟩ := duplicate_again copied (by omega) rebound.retains
    have sizeU' := repeats.size
    obtain ⟨v, ended, total⟩ := ih rebound.names copied' (by omega)
    refine ⟨v, (again m).trans ended, ?_⟩
    rw [total, rebound.allocations, allocations, Nat.succ_mul]
    omega

end Reassign

/-- **Copying a copy is stable.**  A value is copied unless the depth is exceeded, which takes as
many cells as that.  Let the copy take `n` cells.  Then the copy can be copied as deep as the value,
which takes `n` cells again, and the two copies are twins.

If a name in scope is bound to the value, it can be assigned to itself any number of times, and each
time takes `n` cells. -/
theorem recopying_stable {s : Store} {r : Ref} (whole : s.Whole r) (depth : Nat) :
    (depth ≤ s.size ∧ ∃ s', duplicate depth r s = .error .tooDeep s') ∨
    ∃ c s' n, duplicate depth r s = .ok c s' ∧
      s'.size = s.size + n ∧ s'.allocations = s.allocations + n ∧
      (∃ d s'' φ, duplicate depth c s' = .ok d s'' ∧
        s''.size = s'.size + n ∧ s''.allocations = s'.allocations + n ∧ s.Twins φ s' s'' c d) ∧
      ∀ budget env chain target name, Place.single.cost + Place.row.cost ≤ budget →
        depth = copyDepth budget → s.Names env chain target name r →
        ∀ m, ∃ t, (Engine.within budget).reassign env target m s = .ok () t ∧
          t.allocations = s.allocations + m * n := by
  have copying := duplicate_unrolls whole depth
  cases copied : duplicate depth r s with
  | error fault s' =>
    refine .inl ⟨Nat.le_of_not_lt fun deep => ?_, s', by rw [copying.stops copied]⟩
    obtain ⟨c, s'', ended⟩ := copying.ends deep
    rw [ended] at copied
    cases copied
  | ok c s' =>
    obtain ⟨n, size, allocations⟩ := duplicate_allocations copied
    refine .inr ⟨c, s', n, rfl, size, allocations, ?_, ?_⟩
    · obtain ⟨d, s'', φ, copied', sameSize, twins⟩ := duplicate_twins copied
      obtain ⟨n', size', allocations'⟩ := duplicate_allocations copied'
      obtain rfl : n' = n := by omega
      exact ⟨d, s'', φ, copied', size', allocations', twins⟩
    · rintro budget env chain target name enough rfl names m
      exact names.reassign_all enough copied size m

/-- A list holds one pair twice, which leads back to the list.  There are three cells to it, and
five to each copy. -/
theorem recopying_stable_shared :
    let s : Store :=
      { cells := #[{ node := .environment { bindings := [("x", .cell 2)] } },
          { node := .symbol "x" }, { node := .pair (.cell 3) (.cell 3) },
          { node := .pair (.cell 4) (.cell 2) }, { node := .integer 7 }]
        registry := [4, 3, 2, 1, 0], allocations := 5 }
    s.Whole (.cell 2) ∧ ∃ c s', duplicate 6 (.cell 2) s = .ok c s' ∧ s'.allocations = 10 ∧
      (∃ d s'' φ, duplicate 6 c s' = .ok d s'' ∧ s''.allocations = 15 ∧ s.Twins φ s' s'' c d) ∧
      ∃ t, (Engine.within 17).reassign 0 (.cell 1) 3 s = .ok () t ∧ t.allocations = 20 := by
  intro s
  have whole : s.Whole (.cell 2) := Store.whole_cell (by decide) (by decide)
  have names : s.Names 0 [0] (.cell 1) "x" (.cell 2) := ⟨rfl, .last rfl rfl, by decide⟩
  have counted : (StoreM.storeAfter (duplicate 6 (.cell 2)) s).allocations = 10 := by decide +kernel
  refine ⟨whole, ?_⟩
  rcases recopying_stable whole 6 with
    ⟨exceeded, -⟩ | ⟨c, s', n, copied, -, allocations, again, all⟩
  · exact absurd exceeded (by decide)
  · rw [StoreM.storeAfter, copied] at counted
    obtain rfl : n = 5 := Nat.add_left_cancel (allocations.symm.trans counted)
    obtain ⟨d, s'', φ, copied', -, allocations', twins⟩ := again
    exact ⟨c, s', copied, counted, ⟨d, s'', φ, copied', by rw [allocations', counted], twins⟩,
      all 17 0 [0] (.cell 1) "x" (by decide) rfl names 3⟩

end LittleScheme
