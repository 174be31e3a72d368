import LittleScheme.Evaluation.Primitive
import LittleScheme.Proofs.Evaluation.Heredity
import LittleScheme.Proofs.Fault
import LittleScheme.Proofs.Store.Description
import LittleScheme.Proofs.Store.PrintedCopy

/-!
# Stores up to the names of their cells

The locations of cells are names: what a reference leads to matters, not where it is.  One store is
found in another if a renaming carries its cells to cells with the same contents, renamed.  The
other store may have more cells, which nothing of the first one leads to.

Whatever is read from a store by following references is read from the other one in the same way.
Where the way is cut after as many steps as there are cells, the larger store allows for more of
them, but no way is that long: pairs and copies that are met again are not followed, frames are
older than those inside of them, and a description that more procedures than there are cells do not
finish is never finished.
-/

namespace LittleScheme

/-! ## Other names -/

/-- The reference to the cell that is named differently. -/
def Ref.rename (f : Loc → Loc) : Ref → Ref
  | .nil => .nil
  | .cell loc => .cell (f loc)

/-- The frame with its references renamed. -/
def Frame.rename (f : Loc → Loc) (frame : Frame) : Frame where
  bindings := frame.bindings.map fun binding => (binding.1, binding.2.rename f)
  outer := frame.outer.map f

/-- The node with its references renamed. -/
def Node.rename (f : Loc → Loc) : Node → Node
  | .integer value => .integer value
  | .boolean value => .boolean value
  | .symbol name => .symbol name
  | .pair first second => .pair (first.rename f) (second.rename f)
  | .environment frame => .environment (frame.rename f)
  | .builtin op => .builtin op
  | .closure params body env =>
    .closure (params.map (Ref.rename f)) (body.map (Ref.rename f)) (env.map f)

/-- The chain with its references renamed. -/
def Chain.rename (f : Loc → Loc) (chain : Chain) : Chain where
  links := chain.links.map fun link => (f link.1, link.2.rename f)
  last := chain.last.rename f

section Names

variable {f g : Loc → Loc}

@[simp] theorem Ref.rename_nil : Ref.nil.rename f = .nil := rfl

@[simp] theorem Ref.rename_cell (loc : Loc) : (Ref.cell loc).rename f = .cell (f loc) := rfl

theorem Ref.rename_injective (injective : Function.Injective f) :
    Function.Injective (Ref.rename f) := by
  intro r r' same
  cases r <;> cases r' <;> simp_all [injective.eq_iff]

@[simp] theorem Ref.rename_eq_nil {r : Ref} : r.rename f = .nil ↔ r = .nil := by
  cases r <;> simp

@[simp] theorem Ref.loc?_rename (r : Ref) : (r.rename f).loc? = r.loc?.map f := by
  cases r <;> rfl

theorem Frame.get?_rename (frame : Frame) (name : String) :
    (frame.rename f).get? name = (frame.get? name).map (Ref.rename f) := by
  rw [Frame.get?, Frame.get?, Frame.rename]
  induction frame.bindings with
  | nil => rfl
  | cons binding rest ih =>
    obtain ⟨key, value⟩ := binding
    simp only [List.map_cons, List.lookup_cons]
    cases name == key with
    | true => rfl
    | false => exact ih

theorem Frame.define_rename (frame : Frame) (name : String) (value : Ref) :
    (frame.rename f).define name (value.rename f) = (frame.define name value).rename f := by
  have inserted (bindings : List (String × Ref)) :
      Frame.insert name (value.rename f)
          (bindings.map fun binding => (binding.1, binding.2.rename f)) =
        (Frame.insert name value bindings).map fun binding => (binding.1, binding.2.rename f) := by
    induction bindings with
    | nil => rfl
    | cons binding rest ih =>
      simp only [Frame.insert, List.map_cons]
      split
      · rfl
      · rw [ih, List.map_cons]
  simp only [Frame.define, Frame.rename, inserted]

theorem Frame.defineAll_rename (frame : Frame) (bindings : List (String × Ref)) :
    (frame.rename f).defineAll (bindings.map fun binding => (binding.1, binding.2.rename f)) =
      (frame.defineAll bindings).rename f := by
  induction bindings generalizing frame with
  | nil => rfl
  | cons binding rest ih =>
    simp only [Frame.defineAll, List.map_cons, List.foldl_cons] at ih ⊢
    rw [Frame.define_rename, ih]

@[simp] theorem Frame.summary_rename (frame : Frame) :
    (frame.rename f).summary = frame.summary := by
  simp [Frame.summary, Frame.names, Frame.rename, Function.comp_def]

theorem Frame.brief_rename (frame : Frame) : (frame.rename f).brief = frame.brief := by
  simp only [Frame.brief, Frame.summary_rename]
  simp [Frame.rename]

theorem Node.children_rename (node : Node) :
    (node.rename f).children = node.children.map (Ref.rename f) := by
  cases node with
  | environment frame =>
    cases outer : frame.outer <;> simp [rename, children, Frame.rename, outer]
  | closure params body env => cases env <;> simp [rename, children]
  | integer | boolean | symbol | pair | builtin => rfl

/-- Names that nothing refers to by are no matter. -/
theorem Node.rename_congr {node : Node}
    (same : ∀ r ∈ node.children, r.rename f = r.rename g) : node.rename f = node.rename g := by
  cases node with
  | environment frame =>
    have outer : frame.outer.map f = frame.outer.map g := by
      cases around : frame.outer with
      | none => rfl
      | some env => simpa using same (.cell env) (by simp [children, around])
    have bindings : frame.bindings.map (fun binding => (binding.1, binding.2.rename f)) =
        frame.bindings.map fun binding => (binding.1, binding.2.rename g) := by
      refine List.map_congr_left fun binding member => ?_
      rw [same binding.2 (by simp [children]; exact .inr ⟨binding.1, member⟩)]
    simp only [rename, Frame.rename, outer, bindings]
  | closure params body env =>
    simp only [children, List.mem_append] at same
    have captured : env.map f = env.map g := by
      cases env with
      | none => rfl
      | some env => simpa using same (.cell env) (by simp)
    simp only [rename, captured,
      List.map_congr_left fun r member => same r (.inl (.inl member)),
      List.map_congr_left fun r member => same r (.inl (.inr member))]
  | pair first second =>
    simp only [children, List.mem_cons] at same
    simp only [rename, same first (.inl rfl), same second (.inr (.inl rfl))]
  | integer | boolean | symbol | builtin => rfl

theorem Node.rename_id (node : Node) : node.rename id = node := by
  have refs (r : Ref) : r.rename id = r := by cases r <;> rfl
  have lists (rs : List Ref) : rs.map (Ref.rename id) = rs := by
    rw [show Ref.rename id = id from funext refs, List.map_id]
  cases node <;> simp [rename, Frame.rename, refs, lists]

end Names

namespace Store

/-! ## Tidy stores -/

/-- If the reference leads to a cell, it is one of the store. -/
def Has (s : Store) (r : Ref) : Prop := ∀ loc, r = .cell loc → loc < s.size

/-- The references lead to cells of the store. -/
def HasAll (s : Store) (rs : List Ref) : Prop := ∀ r ∈ rs, s.Has r

/-- No reference dangles, and the frame around a frame was made before it. -/
structure Tidy (s : Store) : Prop where
  children : ∀ {r node}, s.node? r = some node → s.HasAll node.children
  outer : ∀ {loc frame around}, s.frame? loc = some frame → frame.outer = some around →
    around < loc

variable {s s' t : Store} {f : Loc → Loc}

theorem has_nil (s : Store) : s.Has .nil := by simp [Has]

@[simp] theorem has_cell {loc : Loc} : s.Has (.cell loc) ↔ loc < s.size := by simp [Has]

theorem Has.mono {r : Ref} (has : s.Has r) (grown : s.size ≤ s'.size) : s'.Has r :=
  fun loc eq => Nat.lt_of_lt_of_le (has loc eq) grown

theorem HasAll.mono {rs : List Ref} (has : s.HasAll rs) (grown : s.size ≤ s'.size) : s'.HasAll rs :=
  fun r member => (has r member).mono grown

theorem hasAll_cons {r : Ref} {rs : List Ref} : s.HasAll (r :: rs) ↔ s.Has r ∧ s.HasAll rs := by
  simp [HasAll]

theorem hasAll_append {rs rs' : List Ref} :
    s.HasAll (rs ++ rs') ↔ s.HasAll rs ∧ s.HasAll rs' := by
  simp only [HasAll, List.forall_mem_append]

end Store

/-- The discipline of stores without dangling references. -/
def tidiness : Discipline where
  Sound s := ∀ {r node}, s.node? r = some node → s.HasAll node.children
  Value := Store.Has
  Scope s env := env < s.size
  Captured s env := env < s.size

namespace tidiness

open Store

variable {s s' : Store}

theorem keeps (sound : tidiness.Sound s') (grown : s.size ≤ s'.size) :
    tidiness.Keeps s s' :=
  ⟨sound, fun has => has.mono grown, fun scope => Nat.lt_of_lt_of_le scope grown,
    fun captured => Nat.lt_of_lt_of_le captured grown⟩

theorem hereditary : tidiness.Hereditary fun _ => True where
  nil := has_nil _
  scope := has_cell.symm
  captured := has_cell.symm
  fits _ _ _ _ _ := trivial
  parts sound _ found := sound found
  register {s node} sound _ children := by
    have grown : s.size ≤ (s.register node).size := by simp
    refine ⟨keeps ?_ grown, by simp [tidiness]⟩
    intro r node' found
    rw [node?_register] at found
    split at found
    · cases found
      exact HasAll.mono children grown
    · exact (sound found).mono grown
  write {s node} loc sound _ children := by
    have same : (s.write loc node).size = s.size := size_write s loc node
    refine keeps ?_ (Nat.le_of_eq same.symm)
    intro r node' found
    by_cases here : r = .cell loc
    · subst here
      have inside : loc < s.size := same ▸ lt_size found
      rw [node?_write s inside, if_pos rfl] at found
      cases found
      exact HasAll.mono children (Nat.le_of_eq same.symm)
    · rw [node?_write_of_ne s node here] at found
      exact (sound found).mono (Nat.le_of_eq same.symm)

end tidiness

namespace Store

variable {s s' t : Store} {f : Loc → Loc}

namespace Tidy

variable (tidy : s.Tidy)
include tidy

theorem sound : tidiness.Sound s := tidy.children

theorem fields {r : Ref} {fields : Ref × Ref} (found : s.pair? r = some fields) :
    s.Has fields.1 ∧ s.Has fields.2 := by
  have children := tidy.children (pair?_eq_some.1 found)
  exact ⟨children _ (by simp [Node.children]), children _ (by simp [Node.children])⟩

theorem chainFrom (fuel : Nat) (seen : Std.TreeSet Loc) (r : Ref) :
    s.HasAll (s.chainFrom fuel seen r).items := by
  induction fuel generalizing seen r with
  | zero => simp [Store.chainFrom, Chain.items, HasAll]
  | succ fuel ih =>
    simp only [Store.chainFrom]
    split
    · rename_i loc first second found
      split
      · simp [Chain.items, HasAll]
      · exact hasAll_cons.2 ⟨(tidy.fields found).1, ih _ _⟩
    · simp [Chain.items, HasAll]

/-- There are no more frames outwards than the location of the first one says. -/
theorem length_scopeFrom_le (n : Nat) (env : Loc) : (s.scopeFrom n env).length ≤ env + 1 := by
  induction n generalizing env with
  | zero => simp [Store.scopeFrom]
  | succ n ih =>
    cases found : s.frame? env with
    | none => simp [scopeFrom_of_none found]
    | some frame =>
      cases around : frame.outer with
      | none => simp [scopeFrom_of_last found around]
      | some outer =>
        rw [scopeFrom_of_outer found around, List.length_cons]
        exact Nat.succ_le_succ ((ih outer).trans (tidy.outer found around))

theorem isEndless_eq_false {env : Loc} (exist : env < s.size) : s.isEndless env = false :=
  decide_eq_false (Nat.not_lt.2 ((tidy.length_scopeFrom_le _ env).trans exist))

theorem toList? {r : Ref} {items : List Ref} (listed : s.toList? r = some items) :
    s.HasAll items := by
  simp only [Store.toList?, Option.ite_none_right_eq_some, Option.some.injEq] at listed
  obtain ⟨-, rfl⟩ := listed
  exact tidy.chainFrom _ _ _

theorem drop? (k : Nat) {r r' : Ref} (has : s.Has r) (dropped : s.drop? k r = some r') :
    s.Has r' := by
  induction k generalizing r with
  | zero =>
    cases dropped
    exact has
  | succ k ih =>
    rw [Store.drop?] at dropped
    split at dropped
    · exact ih (tidy.fields ‹_›).2 dropped
    · cases dropped

end Tidy

/-! ## One store in another -/

/-- The renaming carries the cells of `s` to cells of `t` with the same contents, renamed, and the
cells that either of them gets next as well. -/
structure Renamed (f : Loc → Loc) (s t : Store) : Prop where
  tidy : s.Tidy
  injective : Function.Injective f
  size_le : s.size ≤ t.size
  fresh : ∀ k, f (s.size + k) = t.size + k
  node? : ∀ r, t.node? (r.rename f) = (s.node? r).map (Node.rename f)

theorem Tidy.renamed (tidy : s.Tidy) : s.Renamed id s where
  tidy := tidy
  injective := Function.injective_id
  size_le := Nat.le_refl _
  fresh _ := rfl
  node? r := by
    have same : r.rename id = r := by cases r <;> rfl
    rw [same, show Node.rename id = id from funext Node.rename_id, Option.map_id, id]

namespace Renamed

variable (renamed : s.Renamed f t)
include renamed

theorem new : f s.size = t.size := renamed.fresh 0

/-! ### What is read -/

theorem frame? (loc : Loc) : t.frame? (f loc) = (s.frame? loc).map (Frame.rename f) := by
  have found := renamed.node? (.cell loc)
  rw [Ref.rename_cell] at found
  rw [Store.frame?, Store.frame?, found]
  cases s.node? (.cell loc) with
  | none => rfl
  | some node => cases node <;> rfl

theorem symbolName? (r : Ref) : t.symbolName? (r.rename f) = s.symbolName? r := by
  rw [Store.symbolName?, Store.symbolName?, renamed.node?]
  cases s.node? r with
  | none => rfl
  | some node => cases node <;> rfl

theorem integer? (r : Ref) : t.integer? (r.rename f) = s.integer? r := by
  rw [Store.integer?, Store.integer?, renamed.node?]
  cases s.node? r with
  | none => rfl
  | some node => cases node <;> rfl

theorem boolean? (r : Ref) : t.boolean? (r.rename f) = s.boolean? r := by
  rw [Store.boolean?, Store.boolean?, renamed.node?]
  cases s.node? r with
  | none => rfl
  | some node => cases node <;> rfl

theorem isTruthy (r : Ref) : t.isTruthy (r.rename f) = s.isTruthy r := by
  rw [Store.isTruthy, Store.isTruthy, renamed.node?]
  cases s.node? r with
  | none => rfl
  | some node => cases node <;> rfl

theorem pair? (r : Ref) : t.pair? (r.rename f) =
    (s.pair? r).map fun fields => (fields.1.rename f, fields.2.rename f) := by
  rw [Store.pair?, Store.pair?, renamed.node?]
  cases s.node? r with
  | none => rfl
  | some node => cases node <;> rfl

theorem integers? (rs : List Ref) : t.integers? (rs.map (Ref.rename f)) = s.integers? rs := by
  induction rs with
  | nil => rfl
  | cons r rs ih => simp only [List.map_cons, Store.integers?, renamed.integer?, ih]

theorem drop? (k : Nat) (r : Ref) :
    t.drop? k (r.rename f) = (s.drop? k r).map (Ref.rename f) := by
  induction k generalizing r with
  | zero => rfl
  | succ k ih =>
    rw [Store.drop?, Store.drop?, renamed.pair?]
    cases s.pair? r with
    | none => rfl
    | some fields => exact ih fields.2

end Renamed

/-! ### Lists -/

/-- A chain ends where there is no pair, or at a pair that has been seen. -/
theorem chainFrom_of_end {seen : Std.TreeSet Loc} {r : Ref}
    (ends : ∀ loc fields, r = .cell loc → s.pair? r = some fields → loc ∈ seen) (fuel : Nat) :
    s.chainFrom fuel seen r = ⟨[], r⟩ := by
  cases fuel with
  | zero => rfl
  | succ fuel =>
    simp only [chainFrom]
    split
    · rename_i loc first second found
      rw [if_pos (Std.TreeSet.mem_iff_contains.1 (ends loc _ rfl found))]
    · rfl

theorem chainFrom_of_pair {seen : Std.TreeSet Loc} {loc : Loc} {fields : Ref × Ref}
    (found : s.pair? (.cell loc) = some fields) (unseen : loc ∉ seen) (fuel : Nat) :
    s.chainFrom (fuel + 1) seen (.cell loc) =
      ⟨(loc, fields.1) :: (s.chainFrom fuel (seen.insert loc) fields.2).links,
        (s.chainFrom fuel (seen.insert loc) fields.2).last⟩ := by
  simp only [chainFrom, found]
  rw [if_neg (mt Std.TreeSet.mem_iff_contains.2 unseen)]

/-- Sets that correspond do so after corresponding locations have been added. -/
theorem mem_insert_rename (injective : Function.Injective f) {path path' : Std.TreeSet Loc}
    (same : ∀ loc, f loc ∈ path' ↔ loc ∈ path) (loc loc' : Loc) :
    f loc' ∈ path'.insert (f loc) ↔ loc' ∈ path.insert loc := by
  simp only [Std.TreeSet.mem_insert, Std.LawfulEqCmp.compare_eq_iff_eq, injective.eq_iff, same]

namespace Renamed

variable (renamed : s.Renamed f t)
include renamed

-- The induction is on the fuel for the smaller store.  Pairs that have been seen are cells of it,
-- so there is fuel on both sides as long as there is a pair that has not.
theorem chainFrom (fuel fuel' : Nat) {seen seen' : Std.TreeSet Loc}
    (known : ∀ loc ∈ seen, loc < s.size) (same : ∀ loc, f loc ∈ seen' ↔ loc ∈ seen)
    (enough : s.size ≤ fuel + seen.size) (enough' : s.size ≤ fuel' + seen.size) (r : Ref) :
    t.chainFrom fuel' seen' (r.rename f) = (s.chainFrom fuel seen r).rename f := by
  induction fuel using Nat.strongRecOn generalizing fuel' seen seen' r with
  | ind fuel ih =>
    by_cases ends : ∀ loc fields, r = .cell loc → s.pair? r = some fields → loc ∈ seen
    · have ends' : ∀ loc' fields', r.rename f = .cell loc' →
          t.pair? (r.rename f) = some fields' → loc' ∈ seen' := by
        intro loc' fields' cell found'
        rw [renamed.pair?] at found'
        obtain ⟨fields, found, -⟩ := Option.map_eq_some_iff.1 found'
        cases r with
        | nil => cases cell
        | cell loc =>
          cases cell
          exact (same loc).2 (ends loc fields rfl found)
      rw [chainFrom_of_end ends, chainFrom_of_end ends']
      rfl
    · push Not at ends
      obtain ⟨loc, fields, rfl, found, unseen⟩ := ends
      have exist : loc < s.size := lt_size (pair?_eq_some.1 found)
      have known' := lt_size_of_insert known exist
      have longer := size_insert_of_not_mem unseen
      have short := size_path_le known'
      obtain ⟨fuel, rfl⟩ : ∃ n, fuel = n + 1 := ⟨fuel - 1, by omega⟩
      obtain ⟨fuel', rfl⟩ : ∃ n, fuel' = n + 1 := ⟨fuel' - 1, by omega⟩
      have found' := renamed.pair? (.cell loc)
      rw [found] at found'
      have rest := ih fuel (Nat.lt_succ_self _) fuel' known'
        (mem_insert_rename renamed.injective same loc) (by omega) (by omega) fields.2
      rw [chainFrom_of_pair found unseen, Ref.rename_cell,
        chainFrom_of_pair found' (mt (same loc).1 unseen), rest]
      rfl

theorem chain (r : Ref) : t.chain (r.rename f) = (s.chain r).rename f :=
  renamed.chainFrom s.size t.size (by simp) (by simp) (by simp)
    (by simpa using renamed.size_le) r

theorem isProperList (r : Ref) : t.isProperList (r.rename f) = s.isProperList r := by
  rw [Store.isProperList, Store.isProperList, renamed.chain, Chain.rename]
  cases (s.chain r).last <;> rfl

theorem toList? (r : Ref) :
    t.toList? (r.rename f) = (s.toList? r).map (List.map (Ref.rename f)) := by
  simp only [Store.toList?, renamed.chain, Chain.rename, Ref.rename_eq_nil]
  split
  · simp [Chain.items, Function.comp_def]
  · rfl

/-! ### Scopes -/

/-- The frames around a frame are older, so there are fewer of them than its location says. -/
theorem scopeFrom {fuel fuel' : Nat} {env : Loc} (enough : env < fuel) (enough' : env < fuel') :
    t.scopeFrom fuel' (f env) = (s.scopeFrom fuel env).map f := by
  induction fuel generalizing fuel' env with
  | zero => simp at enough
  | succ fuel ih =>
    obtain ⟨fuel', rfl⟩ := Nat.exists_eq_add_one_of_ne_zero (Nat.ne_zero_of_lt enough')
    rw [Store.scopeFrom, Store.scopeFrom, renamed.frame?]
    cases found : s.frame? env with
    | none => rfl
    | some frame =>
      cases outer : frame.outer with
      | none => simp [Frame.rename, outer]
      | some around =>
        have older := renamed.tidy.outer found outer
        have rest := ih (Nat.lt_of_lt_of_le older (Nat.lt_succ_iff.1 enough))
          (Nat.lt_of_lt_of_le older (Nat.lt_succ_iff.1 enough'))
        simp [Frame.rename, outer, rest]

theorem find? {env : Loc} (exist : env < s.size) (name : String) :
    t.find? (f env) name = (s.find? env name).map f := by
  have bindsAt (loc : Loc) : t.bindsAt name (f loc) = s.bindsAt name loc := by
    rw [Store.bindsAt, Store.bindsAt, renamed.frame?]
    cases s.frame? loc with
    | none => rfl
    | some frame => simp [Frame.binds, Frame.get?_rename]
  rw [Store.find?, Store.find?, Store.scope, Store.scope,
    renamed.scopeFrom exist (Nat.lt_of_lt_of_le exist renamed.size_le), List.find?_map,
    Function.comp_def]
  simp only [bindsAt]

theorem lookup? {env : Loc} (exist : env < s.size) (name : String) :
    t.lookup? (f env) name = (s.lookup? env name).map (Ref.rename f) := by
  have valueAt? (loc : Loc) :
      t.valueAt? name (f loc) = (s.valueAt? name loc).map (Ref.rename f) := by
    rw [Store.valueAt?, Store.valueAt?, renamed.frame?]
    cases s.frame? loc with
    | none => rfl
    | some frame => exact frame.get?_rename name
  rw [Store.lookup?, Store.lookup?, renamed.find? exist]
  cases s.find? env name with
  | none => rfl
  | some loc => exact valueAt? loc

theorem isEndless {env : Loc} (exist : env < s.size) : t.isEndless (f env) = false := by
  have exist' : env < t.size + 1 := Nat.lt_succ_of_lt (Nat.lt_of_lt_of_le exist renamed.size_le)
  have few := renamed.tidy.length_scopeFrom_le (t.size + 1) env
  rw [Store.isEndless, renamed.scopeFrom exist' exist', List.length_map]
  exact decide_eq_false (Nat.not_lt.2 ((few.trans exist).trans renamed.size_le))

theorem unresolved {env : Loc} (exist : env < s.size) (name : String) :
    t.unresolved (f env) name = s.unresolved env name := by
  rw [Store.unresolved, Store.unresolved, renamed.isEndless exist,
    renamed.tidy.isEndless_eq_false exist]

/-! ### Descriptions -/

theorem kindName (r : Ref) : t.kindName (r.rename f) = s.kindName r := by
  rw [Store.kindName, Store.kindName, renamed.node?]
  cases s.node? r with
  | none => rfl
  | some node => cases node <;> rfl

theorem briefFrom (n : Nat) (r : Ref) : t.briefFrom n (r.rename f) = s.briefFrom n r := by
  induction n generalizing r with
  | zero => rfl
  | succ n ih =>
    rw [Store.briefFrom, Store.briefFrom, renamed.node?]
    cases s.node? r with
    | none => rfl
    | some node =>
      cases node with
      | integer value | boolean value | symbol name | builtin op => rfl
      | pair first second => simp only [Option.map_some, Node.rename, renamed.kindName]
      | environment frame => simp only [Option.map_some, Node.rename, Frame.brief_rename]
      | closure params body env =>
        simp only [Option.map_some, Node.rename, List.mapM_map, Function.comp_def, ih]

theorem brief (r : Ref) : t.brief (r.rename f) = s.brief r := by
  rw [Store.brief, renamed.briefFrom, briefFrom_eq_brief (Nat.lt_succ_of_le renamed.size_le)]

theorem scopeSummary {env : Loc} (exist : env < s.size) :
    t.scopeSummary (f env) = s.scopeSummary env := by
  have frames : ((t.scope (f env)).filterMap t.frame?).map Frame.summary =
      ((s.scope env).filterMap s.frame?).map Frame.summary := by
    rw [Store.scope, Store.scope,
      renamed.scopeFrom exist (Nat.lt_of_lt_of_le exist renamed.size_le), List.filterMap_map]
    simp only [Function.comp_def, renamed.frame?, ← List.map_filterMap, List.map_map,
      Frame.summary_rename]
  unfold Store.scopeSummary
  rw [frames]

theorem describe (r : Ref) : t.describe (r.rename f) = s.describe r := by
  cases r with
  | nil => exact renamed.brief .nil
  | cell loc =>
    have found' := renamed.node? (.cell loc)
    cases found : s.node? (.cell loc) with
    | none =>
      rw [found] at found'
      have same := renamed.brief (.cell loc)
      rw [Ref.rename_cell] at found' same ⊢
      unfold Store.describe
      simp only [found, found', Option.map_none, same]
    | some node =>
      rw [found] at found'
      have same := renamed.brief (.cell loc)
      have exist := lt_size found
      rw [Ref.rename_cell] at found' same ⊢
      cases node with
      | environment frame =>
        rw [describe_frame found, describe_frame found', renamed.isEndless exist,
          renamed.tidy.isEndless_eq_false exist, renamed.scopeSummary exist]
      | _ =>
        unfold Store.describe
        simp only [found, found', Option.map_some, Node.rename, same]

theorem objection (wording : String → Error) (r : Ref) :
    t.objection wording (r.rename f) = s.objection wording r := by
  rw [Store.objection, Store.objection, renamed.describe]

/-! ### Printing -/

theorem pictureFrom {fuel fuel' : Nat} (depth : Nat) {path path' : Std.TreeSet Loc}
    (known : ∀ loc ∈ path, loc < s.size) (same : ∀ loc, f loc ∈ path' ↔ loc ∈ path)
    (enough : s.size < fuel + path.size) (enough' : s.size < fuel' + path.size) (r : Ref) :
    t.pictureFrom fuel' depth path' (r.rename f) = s.pictureFrom fuel depth path r := by
  induction fuel generalizing fuel' depth path path' r with
  | zero =>
    have := size_path_le known
    omega
  | succ fuel ih =>
    obtain ⟨fuel', rfl⟩ := exists_fuel known enough'
    cases r with
    | nil => simp only [Ref.rename_nil, Store.pictureFrom]
    | cell loc =>
      cases depth with
      | zero => simp only [Ref.rename_cell, Store.pictureFrom]
      | succ depth =>
        have found' := renamed.node? (.cell loc)
        rw [Ref.rename_cell] at found' ⊢
        rw [Store.pictureFrom, Store.pictureFrom, found']
        cases found : s.node? (.cell loc) with
        | none => rfl
        | some node =>
          cases node with
          | integer value | boolean value | symbol name | builtin op => rfl
          | closure params body env => rfl
          | environment frame => exact congrArg _ (renamed.objection .cannotPrint (.cell loc))
          | pair first second =>
            simp only [Option.map_some, Node.rename]
            have around : path'.contains (f loc) = path.contains loc := by
              rw [Bool.eq_iff_iff, ← Std.TreeSet.mem_iff_contains, ← Std.TreeSet.mem_iff_contains,
                same]
            rw [around]
            split
            · rfl
            · rename_i outside
              have fresh : loc ∉ path := mt Std.TreeSet.mem_iff_contains.1 outside
              have known' := lt_size_of_insert known (lt_size found)
              have longer := size_insert_of_not_mem fresh
              have below (depth : Nat) (r : Ref) :=
                @ih fuel' depth (path.insert loc) (path'.insert (f loc)) known'
                  (mem_insert_rename renamed.injective same loc) (by omega) (by omega) r
              rw [below, below]

theorem render (depth : Nat) (r : Ref) :
    t.render depth (r.rename f) = s.render depth r := by
  have grown := renamed.size_le
  refine congrArg (Except.map Picture.text)
    (renamed.pictureFrom depth (by simp) (by simp) (by simp) ?_ r)
  simp
  omega

end Renamed

/-! ### What is changed -/

/-- A new cell that refers to cells of the store. -/
theorem Tidy.register (tidy : s.Tidy) {node : Node} (children : s.HasAll node.children) :
    (s.register node).Tidy where
  children := (tidiness.hereditary.register tidy.sound (fun _ _ => trivial) children).1.sound
  outer {loc frame around} found outer := by
    rw [frame?_eq_some, node?_register] at found
    split at found
    · rename_i here
      cases here
      cases found
      exact has_cell.1 (children (.cell around) (by simp [Node.children, outer]))
    · exact tidy.outer (frame?_eq_some.2 found) outer

/-- A cell whose contents change to something that refers to cells of the store.  If it is a frame
then, the frame around it is older. -/
theorem Tidy.write (tidy : s.Tidy) {loc : Loc} {node : Node} (exist : loc < s.size)
    (children : s.HasAll node.children)
    (older : ∀ frame around, node = .environment frame → frame.outer = some around →
      around < loc) :
    (s.write loc node).Tidy where
  children := (tidiness.hereditary.write loc tidy.sound (fun _ _ => trivial) children).sound
  outer {loc' frame around} found outer := by
    rw [frame?_eq_some, node?_write s exist] at found
    split at found
    · rename_i here
      cases here
      cases found
      exact older frame around rfl outer
    · exact tidy.outer (frame?_eq_some.2 found) outer

@[simp] theorem size_define (s : Store) (env : Loc) (name : String) (value : Ref) :
    (s.define env name value).size = s.size := by
  rw [define]
  split <;> simp

@[simp] theorem size_assign (s : Store) (env : Loc) (name : String) (value : Ref) :
    (s.assign env name value).size = s.size := by
  rw [assign]
  split <;> simp

theorem Tidy.congr (tidy : s.Tidy) (same : ∀ r, s'.node? r = s.node? r) : s'.Tidy where
  children {r node} found := by
    rw [same] at found
    exact (tidy.children found).mono (Nat.le_of_eq (size_eq_of_node? same).symm)
  outer {loc frame around} found := by
    rw [frame?_eq_some, same, ← frame?_eq_some] at found
    exact tidy.outer found

namespace Renamed

theorem lt_size (renamed : s.Renamed f t) {loc : Loc} (exist : loc < s.size) : f loc < t.size := by
  obtain ⟨node, found⟩ := exists_node? exist
  have found' := renamed.node? (.cell loc)
  rw [found] at found'
  exact Store.lt_size found'

theorem rename_eq_cell (renamed : s.Renamed f t) {r : Ref} {loc : Loc} :
    r.rename f = .cell (f loc) ↔ r = .cell loc :=
  (Ref.rename_injective renamed.injective).eq_iff (b := .cell loc)

/-- Both stores get the same cell. -/
theorem register (renamed : s.Renamed f t) {node : Node} (children : s.HasAll node.children) :
    (s.register node).Renamed f (t.register (node.rename f)) where
  tidy := renamed.tidy.register children
  injective := renamed.injective
  size_le := by simpa using renamed.size_le
  fresh k := by
    rw [size_register, size_register, Nat.add_assoc, Nat.add_assoc]
    exact renamed.fresh (1 + k)
  node? r := by
    rw [node?_register, node?_register, ← renamed.new, renamed.node?]
    simp only [renamed.rename_eq_cell]
    split <;> rfl

/-- The same is written to a cell of the one and to the cell of the other. -/
theorem write (renamed : s.Renamed f t) {loc : Loc} {node : Node} (exist : loc < s.size)
    (children : s.HasAll node.children)
    (older : ∀ frame around, node = .environment frame → frame.outer = some around →
      around < loc) :
    (s.write loc node).Renamed f (t.write (f loc) (node.rename f)) where
  tidy := renamed.tidy.write exist children older
  injective := renamed.injective
  size_le := by simpa using renamed.size_le
  fresh k := by simpa using renamed.fresh k
  node? r := by
    rw [node?_write s exist, node?_write t (renamed.lt_size exist), renamed.node?]
    simp only [renamed.rename_eq_cell]
    split <;> rfl

theorem define (renamed : s.Renamed f t) (env : Loc) (name : String) {value : Ref}
    (has : s.Has value) :
    (s.define env name value).Renamed f (t.define (f env) name (value.rename f)) := by
  rw [Store.define, Store.define, renamed.frame?]
  cases found : s.frame? env with
  | none => exact renamed
  | some frame =>
    simp only [Option.map_some, Frame.define_rename]
    have exist := Store.lt_size (frame?_eq_some.1 found)
    refine renamed.write exist ?_ ?_
    · exact tidiness.hereditary.definedFrame name renamed.tidy.sound (has_cell.2 exist) found has
    · rintro _ around ⟨⟩ outer
      exact renamed.tidy.outer found outer

theorem assign (renamed : s.Renamed f t) {env : Loc} (exist : env < s.size) (name : String)
    {value : Ref} (has : s.Has value) :
    (s.assign env name value).Renamed f (t.assign (f env) name (value.rename f)) := by
  rw [Store.assign, Store.assign, renamed.find? exist]
  cases s.find? env name with
  | none => exact renamed
  | some loc => exact renamed.define loc name has

/-- What does not change the contents is no matter. -/
theorem congr (renamed : s.Renamed f t) {t' : Store} (same : ∀ r, s'.node? r = s.node? r)
    (same' : ∀ r, t'.node? r = t.node? r) : s'.Renamed f t' where
  tidy := renamed.tidy.congr same
  injective := renamed.injective
  size_le := by
    rw [size_eq_of_node? same, size_eq_of_node? same']
    exact renamed.size_le
  fresh k := by
    rw [size_eq_of_node? same, size_eq_of_node? same']
    exact renamed.fresh k
  node? r := by rw [same, same', renamed.node?]

end Renamed

/-- The renaming that is `f` below `n`, and carries what follows `n` to what follows `m`. -/
def shift (f : Loc → Loc) (n m : Nat) (loc : Loc) : Loc := if loc < n then f loc else m + (loc - n)

/-- The larger store may get cells of its own. -/
theorem Renamed.add (renamed : s.Renamed f t) {t' : Store} (more : t.size ≤ t'.size)
    (kept : ∀ loc < t.size, t'.node? (.cell loc) = t.node? (.cell loc)) :
    s.Renamed (shift f s.size t'.size) t' := by
  have old {loc : Loc} (exist : loc < s.size) : shift f s.size t'.size loc = f loc := if_pos exist
  have new {loc : Loc} (beyond : s.size ≤ loc) :
      shift f s.size t'.size loc = t'.size + (loc - s.size) := if_neg (Nat.not_lt.2 beyond)
  have below {loc : Loc} (exist : loc < s.size) : f loc < t'.size :=
    Nat.lt_of_lt_of_le (renamed.lt_size exist) more
  constructor
  · exact renamed.tidy
  · intro loc loc' same
    rcases Nat.lt_or_ge loc s.size with exist | beyond
    · rcases Nat.lt_or_ge loc' s.size with exist' | beyond'
      · rw [old exist, old exist'] at same
        exact renamed.injective same
      · rw [old exist, new beyond'] at same
        exact absurd (same ▸ below exist) (Nat.not_lt.2 (Nat.le_add_right _ _))
    · rcases Nat.lt_or_ge loc' s.size with exist' | beyond'
      · rw [new beyond, old exist'] at same
        exact absurd (same ▸ below exist') (Nat.not_lt.2 (Nat.le_add_right _ _))
      · rw [new beyond, new beyond'] at same
        rw [← Nat.sub_add_cancel beyond, Nat.add_left_cancel same, Nat.sub_add_cancel beyond']
  · exact Nat.le_trans renamed.size_le more
  · intro k
    rw [new (Nat.le_add_right _ _), Nat.add_sub_cancel_left]
  · intro r
    cases r with
    | nil => rfl
    | cell loc =>
      rcases Nat.lt_or_ge loc s.size with exist | beyond
      · rw [Ref.rename_cell, old exist, kept _ (renamed.lt_size exist), ← Ref.rename_cell,
          renamed.node?]
        refine Option.map_congr fun node found => Node.rename_congr fun r member => ?_
        cases r with
        | nil => rfl
        | cell child =>
          have exist' := has_cell.1 (renamed.tidy.children found _ member)
          rw [Ref.rename_cell, Ref.rename_cell, old exist']
      · rw [Ref.rename_cell, new beyond, node?_eq_none _ (Nat.le_add_right _ _),
          node?_eq_none _ beyond]
        rfl

end Store

end LittleScheme
