import LittleScheme.Proofs.Evaluation.Heredity
import LittleScheme.Proofs.Store.Unrolling

/-!
# Where copies stem from

Each cell of a copy stems from one cell of the original.  It is of the same kind and holds the same,
but for the references: these lead to other cells of the copy, which stem from what the original
refers to.  Only the frame around a frame is the very same.  Where a value is shared, several cells
stem from one.  `Store.Replica` says all of this of a copy that `duplicate` has made.
-/

namespace LittleScheme

/-- The cells from `base` up to `top` stem from those that `origin` tells; the empty list stems from
itself. -/
inductive Stems (origin : Loc → Loc) (base top : Nat) : Ref → Ref → Prop
  | nil : Stems origin base top .nil .nil
  | cell {q : Nat} (new : base ≤ q) (made : q < top) :
    Stems origin base top (.cell (origin q)) (.cell q)

/-! ## Nodes and their copies -/

namespace Node

/-- The second node is the first, with references that stem from those of the first.  The frame
around a frame is the same. -/
inductive Matches (stems : Ref → Ref → Prop) : Node → Node → Prop
  | integer (value : Int) : Matches stems (.integer value) (.integer value)
  | boolean (value : Bool) : Matches stems (.boolean value) (.boolean value)
  | symbol (name : String) : Matches stems (.symbol name) (.symbol name)
  | builtin (op : Op) : Matches stems (.builtin op) (.builtin op)
  | pair {first second first' second' : Ref} (left : stems first first')
    (right : stems second second') : Matches stems (.pair first second) (.pair first' second')
  | environment {bindings bindings' : List (String × Ref)} {outer : Option Loc}
    (bound : List.Forall₂ (fun b b' => b'.1 = b.1 ∧ stems b.2 b'.2) bindings bindings') :
    Matches stems (.environment ⟨bindings, outer⟩) (.environment ⟨bindings', outer⟩)
  | closure {params body params' body' : List Ref} {env env' : Option Loc}
    (sameParams : List.Forall₂ stems params params') (sameBody : List.Forall₂ stems body body')
    (captured : Option.Rel (fun e e' => stems (.cell e) (.cell e')) env env') :
    Matches stems (.closure params body env) (.closure params' body' env')

variable {stems : Ref → Ref → Prop}

theorem matches_environment {frame frame' : Frame} (names : frame'.names = frame.names)
    (around : frame'.outer = frame.outer)
    (values : List.Forall₂ stems (frame.bindings.map (·.2)) (frame'.bindings.map (·.2))) :
    Matches stems (.environment frame) (.environment frame') := by
  obtain ⟨bindings, outer⟩ := frame
  obtain ⟨bindings', outer'⟩ := frame'
  obtain rfl : outer' = outer := around
  simp only [Frame.names] at names
  refine .environment ?_
  induction bindings generalizing bindings' with
  | nil =>
    obtain rfl : bindings' = [] := by simpa using names
    exact .nil
  | cons binding rest ih =>
    cases bindings' with
    | nil => simp at names
    | cons binding' rest' =>
      obtain ⟨name, names⟩ := List.cons.inj names
      obtain ⟨value, values⟩ := List.forall₂_cons.1 values
      exact .cons ⟨name, value⟩ (ih rest' names values)

theorem matches_closure {params body params' body' : List Ref} {env env' : Option Loc}
    (sameParams : params'.length = params.length) (sameBody : body'.length = body.length)
    (parts : List.Forall₂ stems (params ++ body ++ env.toList.map .cell)
      (params' ++ body' ++ env'.toList.map .cell)) :
    Matches stems (.closure params body env) (.closure params' body' env') := by
  have lengths : (params' ++ body').length = (params ++ body).length := by
    simp [sameParams, sameBody]
  have code := List.forall₂_take_append _ _ _ parts
  have captured := List.forall₂_drop_append _ _ _ parts
  rw [lengths, List.take_left] at code
  rw [lengths, List.drop_left] at captured
  have paramsRelated := List.forall₂_take_append _ _ _ code
  have bodyRelated := List.forall₂_drop_append _ _ _ code
  rw [sameParams, List.take_left] at paramsRelated
  rw [sameParams, List.drop_left] at bodyRelated
  refine .closure paramsRelated bodyRelated ?_
  cases env with
  | none =>
    cases env' with
    | none => exact .none
    | some env' => cases captured
  | some env =>
    cases env' with
    | none => cases captured
    | some env' => exact .some (List.forall₂_cons.1 captured).1

/-- A node that differs from another in its parts only is the other with these parts. -/
theorem Resembles.matches {node node' : Node} (alike : node.Resembles node')
    (parts : List.Forall₂ stems node.parts node'.parts) : Matches stems node node' := by
  cases alike with
  | refl =>
    cases node with
    | integer value => exact .integer value
    | boolean value => exact .boolean value
    | symbol name => exact .symbol name
    | builtin op => exact .builtin op
    | pair first second =>
      obtain ⟨left, rest⟩ := List.forall₂_cons.1 parts
      exact .pair left (List.forall₂_cons.1 rest).1
    | environment frame => exact matches_environment rfl rfl parts
    | closure params body env => exact matches_closure rfl rfl parts
  | pair first second first' second' =>
    obtain ⟨left, rest⟩ := List.forall₂_cons.1 parts
    exact .pair left (List.forall₂_cons.1 rest).1
  | environment names around => exact matches_environment names around parts
  | closure sameParams sameBody _ => exact matches_closure sameParams sameBody parts

end Node

/-! ## Origins of what is unrolled -/

namespace Store

/-- The cell is a copy of the one that it stems from.  There is a way from one of the first
references to the original, and from one of the second references to the copy. -/
structure Placed (s s' : Store) (origin : Loc → Loc) (base top : Nat) (rs cs : List Ref) (q : Loc) :
    Prop where
  copied : ∃ node node', s.node? (.cell (origin q)) = some node ∧
    s'.node? (.cell q) = some node' ∧ node.Matches (Stems origin base top) node'
  original : ∃ r ∈ rs, s.Reaches r (.cell (origin q))
  reached : ∃ c ∈ cs, s'.Reaches c (.cell q)

/-- The second references stem from the first, and all cells from `lo` up to `hi` are copies. -/
structure Covers (s s' : Store) (origin : Loc → Loc) (base top lo hi : Nat) (rs cs : List Ref) :
    Prop where
  stems : List.Forall₂ (Stems origin base top) rs cs
  placed : ∀ q : Nat, lo ≤ q → q < hi → s.Placed s' origin base top rs cs q

variable {s s' : Store} {origin : Loc → Loc} {base top lo mid hi : Nat} {rs cs rs' cs' : List Ref}

/-- There are the ways on from wherever there is a way to the references. -/
theorem Placed.of_reaches {q : Loc} (placed : s.Placed s' origin base top rs cs q)
    (way : ∀ r ∈ rs, ∃ r' ∈ rs', s.Reaches r' r) (way' : ∀ c ∈ cs, ∃ c' ∈ cs', s'.Reaches c' c) :
    s.Placed s' origin base top rs' cs' q := by
  refine ⟨placed.copied, ?_, ?_⟩
  · obtain ⟨r, member, path⟩ := placed.original
    obtain ⟨r', member', front⟩ := way r member
    exact ⟨r', member', front.trans path⟩
  · obtain ⟨c, member, path⟩ := placed.reached
    obtain ⟨c', member', front⟩ := way' c member
    exact ⟨c', member', front.trans path⟩

theorem Placed.cons {q : Loc} (placed : s.Placed s' origin base top rs cs q) (r c : Ref) :
    s.Placed s' origin base top (r :: rs) (c :: cs) q :=
  placed.of_reaches (fun r' member => ⟨r', List.mem_cons_of_mem _ member, .refl⟩)
    fun c' member => ⟨c', List.mem_cons_of_mem _ member, .refl⟩

theorem covers_nil {n : Nat} : s.Covers s' origin base top n n [] [] :=
  ⟨.nil, fun _ since made => absurd made (Nat.not_lt.2 since)⟩

/-- No cell is made for what is empty or under way. -/
theorem Covers.cons {r c : Ref} (stems : Stems origin base top r c)
    (rest : s.Covers s' origin base top lo hi rs cs) :
    s.Covers s' origin base top lo hi (r :: rs) (c :: cs) :=
  ⟨.cons stems rest.stems, fun q since made => (rest.placed q since made).cons r c⟩

/-- The cell of a value comes first, then those of its parts, and then all others. -/
theorem Covers.cell {node node' : Node} (new : base ≤ lo) (made : lo < top)
    (found : s.node? (.cell (origin lo)) = some node) (found' : s'.node? (.cell lo) = some node')
    (alike : node.Resembles node')
    (parts : s.Covers s' origin base top (lo + 1) mid node.parts node'.parts)
    (rest : s.Covers s' origin base top mid hi rs cs) :
    s.Covers s' origin base top lo hi (.cell (origin lo) :: rs) (.cell lo :: cs) := by
  refine ⟨.cons (.cell new made) rest.stems, fun q since made => ?_⟩
  rcases Nat.eq_or_lt_of_le since with rfl | later
  · exact ⟨⟨node, node', found, found', alike.matches parts.stems⟩, ⟨_, by simp, .refl⟩,
      ⟨_, by simp, .refl⟩⟩
  · rcases Nat.lt_or_ge q mid with below | behind
    · refine (parts.placed q later below).of_reaches ?_ ?_
      · intro r member
        exact ⟨_, by simp, .step .refl found (node.parts_subset_children member)⟩
      · intro c member
        exact ⟨_, by simp, .step .refl found' (node'.parts_subset_children member)⟩
    · exact (rest.placed q behind made).cons _ _

/-- The copies under way are cells from `base` up to `n`, and `origin` tells what they are copies
of. -/
def OriginsKnown (active : Active) (base n : Nat) (origin : Loc → Loc) : Prop :=
  ∀ {loc copy : Nat}, active[loc]? = some copy → base ≤ copy ∧ copy < n ∧ origin copy = loc

theorem OriginsKnown.insert {active : Active} {n : Nat} (known : OriginsKnown active base n origin)
    (new : base ≤ n) (loc : Loc) :
    OriginsKnown (active.insert loc n) base (n + 1) (Function.update origin n loc) := by
  intro loc' copy under
  rw [Std.TreeMap.getElem?_insert] at under
  split at under
  · rename_i same
    cases under
    exact ⟨new, Nat.lt_succ_self _, by simpa using same⟩
  · obtain ⟨since, earlier, stem⟩ := known under
    refine ⟨since, by omega, ?_⟩
    rw [Function.update_of_ne (Nat.ne_of_lt earlier), stem]

theorem OriginsKnown.extend {active : Active} {m n : Nat} {origin' : Loc → Loc}
    (known : OriginsKnown active base n origin) (le : n ≤ m)
    (agree : ∀ q : Nat, q < n → origin' q = origin q) : OriginsKnown active base m origin' := by
  intro loc copy under
  obtain ⟨since, earlier, stem⟩ := known under
  exact ⟨since, by omega, by rw [agree copy earlier, stem]⟩

-- The origins of the cells are found in the order in which these are made.  Those found later are
-- put on top of the earlier ones, so the statement is about all maps that agree up to `hi`.
theorem Unrolls.exists_origin {active : Active} (unrolls : s.Unrolls s' active rs cs lo hi)
    (new : base ≤ lo) (within : hi ≤ top) {before : Loc → Loc}
    (known : OriginsKnown active base lo before) :
    ∃ after : Loc → Loc, (∀ q : Nat, q < lo → after q = before q) ∧ ∀ origin : Loc → Loc,
      (∀ q : Nat, q < hi → origin q = after q) → s.Covers s' origin base top lo hi rs cs := by
  induction unrolls generalizing before with
  | done => exact ⟨before, fun _ _ => rfl, fun _ _ => covers_nil⟩
  | nil _ ih =>
    obtain ⟨after, kept, covers⟩ := ih new within known
    exact ⟨after, kept, fun origin agree => .cons .nil (covers origin agree)⟩
  | @back active loc copy rs cs lo hi under rest ih =>
    obtain ⟨after, kept, covers⟩ := ih new within known
    refine ⟨after, kept, fun origin agree => .cons ?_ (covers origin agree)⟩
    obtain ⟨since, earlier, stem⟩ := known under
    have le := rest.le
    have stem' : origin copy = loc := by
      rw [agree copy (by omega), kept copy earlier, stem]
    exact stem' ▸ .cell since (by omega)
  | @cell active loc node node' rs cs lo mid hi apart found found' alike parts rest ihParts
      ihRest =>
    have leParts := parts.le
    have leRest := rest.le
    obtain ⟨inner, keptInner, coversParts⟩ := ihParts (by omega) (by omega) (known.insert new loc)
    have keptBefore : ∀ q : Nat, q < lo → inner q = before q := by
      intro q earlier
      rw [keptInner q (by omega), Function.update_of_ne (Nat.ne_of_lt earlier)]
    obtain ⟨after, kept, coversRest⟩ := ihRest (by omega) within
      (known.extend (by omega) keptBefore)
    refine ⟨after, fun q earlier => ?_, fun origin agree => ?_⟩
    · rw [kept q (by omega), keptBefore q earlier]
    · have agreeInner : ∀ q : Nat, q < mid → origin q = inner q := by
        intro q earlier
        rw [agree q (by omega), kept q earlier]
      have stem : origin lo = loc := by
        rw [agreeInner lo (by omega), keptInner lo (by omega), Function.update_self]
      subst stem
      exact .cell new (by omega) found found' alike (coversParts origin agreeInner)
        (coversRest origin agree)

end Store

/-! ## What is registered -/

/-- The discipline of stores that have registered all cells that they have more than `s`. -/
def growth (s : Store) : Discipline where
  Sound t := s.size ≤ t.size ∧
    ∀ q : Nat, q ∈ t.registry ↔ q ∈ s.registry ∨ s.size ≤ q ∧ q < t.size
  Value _ _ := True
  Scope _ _ := True
  Captured _ _ := True

namespace growth

variable {s t t' : Store}

theorem refl (s : Store) : (growth s).Sound s := by
  refine ⟨Nat.le_refl _, fun q => ?_⟩
  have : ¬(s.size ≤ q ∧ q < s.size) := by omega
  simp [this]

theorem keeps (sound : (growth s).Sound t') : (growth s).Keeps t t' :=
  ⟨sound, fun _ => trivial, fun _ => trivial, fun _ => trivial⟩

theorem register (sound : (growth s).Sound t) (node : Node) :
    (growth s).Sound (t.register node) := by
  obtain ⟨le, registered⟩ := sound
  refine ⟨by simp only [Store.size_register]; omega, fun q => ?_⟩
  have member : q ∈ (t.register node).registry ↔ q = t.size ∨ q ∈ t.registry := List.mem_cons
  rw [member, registered, Store.size_register]
  constructor
  · rintro (rfl | old | ⟨new, made⟩)
    · exact .inr ⟨le, Nat.lt_succ_self _⟩
    · exact .inl old
    · exact .inr ⟨new, by omega⟩
  · rintro (old | ⟨new, made⟩)
    · exact .inr (.inl old)
    · rcases Nat.lt_succ_iff_lt_or_eq.1 made with earlier | last
      · exact .inr (.inr ⟨new, earlier⟩)
      · exact .inl last

theorem hereditary (s : Store) : (growth s).Hereditary fun _ => True where
  nil := trivial
  scope := Iff.rfl
  captured := Iff.rfl
  fits _ _ _ _ _ := trivial
  parts _ _ _ _ _ := trivial
  register sound _ _ := ⟨keeps (register sound _), trivial⟩
  write {t node} loc sound _ _ := by
    refine keeps ⟨?_, fun q => ?_⟩
    · simpa using sound.1
    · rw [Store.size_write]
      exact sound.2 q

end growth

/-! ## Copies of values -/

/-- What `s'` has more than `s` is a copy of the value, and `c` leads to it.  Each new cell is the
copy of a cell of the value, with references to new cells, and it is registered and can be reached
from `c`. -/
structure Store.Replica (s s' : Store) (origin : Loc → Loc) (r c : Ref) : Prop where
  result : Stems origin s.size s'.size r c
  copied : ∀ q : Nat, s.size ≤ q → q < s'.size → ∃ node node',
    s.node? (.cell (origin q)) = some node ∧
    s'.node? (.cell q) = some node' ∧ node.Matches (Stems origin s.size s'.size) node'
  original : ∀ q : Nat, s.size ≤ q → q < s'.size → s.Reaches r (.cell (origin q))
  reached : ∀ q : Nat, s.size ≤ q → q < s'.size → s'.Reaches c (.cell q)
  registered : ∀ q : Nat, q ∈ s'.registry ↔ q ∈ s.registry ∨ s.size ≤ q ∧ q < s'.size

/-- `duplicate` leaves alone all cells that there are, however it ends.  It gives a `Replica` of the
value unless the depth is exceeded, which takes a value of more cells than that. -/
theorem duplicate_replica {s : Store} {r : Ref} (whole : s.Whole r) (depth : Nat) :
    s.Extended (StoreM.storeAfter (duplicate depth r) s) ∧
      ((∃ c s' origin, duplicate depth r s = .ok c s' ∧ s.Replica s' origin r c) ∨
        depth ≤ s.size ∧ ∃ s', duplicate depth r s = .error .tooDeep s') := by
  refine ⟨duplicate_extended depth r s, ?_⟩
  have copying := duplicate_unrolls whole depth
  cases copied : duplicate depth r s with
  | error fault s' =>
    refine .inr ⟨?_, s', by rw [copying.stops copied]⟩
    refine Nat.le_of_not_lt fun enough => ?_
    obtain ⟨c, s'', ended⟩ := copying.ends enough
    rw [ended] at copied
    cases copied
  | ok c s' =>
    have grown := ((growth.hereditary s).duplicate depth (growth.refl s) trivial).ok copied
    have unrolls := (copying.ok copied).2
    have known : Store.OriginsKnown ∅ s.size s.size id := by simp [Store.OriginsKnown]
    obtain ⟨origin, -, covers⟩ := unrolls.exists_origin (Nat.le_refl _) (Nat.le_refl _) known
    have covered := covers origin fun _ _ => rfl
    refine .inl ⟨c, s', origin, rfl, ?_⟩
    constructor
    · exact (List.forall₂_cons.1 covered.stems).1
    · exact fun q new made => (covered.placed q new made).copied
    · intro q new made
      simpa using (covered.placed q new made).original
    · intro q new made
      simpa using (covered.placed q new made).reached
    · exact grown.1.sound.2

/-- A procedure is bound in the frame that it has captured, and so is its copy. -/
theorem duplicate_replica_knot :
    let s : Store :=
      { cells := #[{ node := .environment {} }, { node := .closure [.cell 2] [.cell 2] (some 3) },
          { node := .symbol "f" },
          { node := .environment { bindings := [("f", .cell 1)], outer := some 0 } }]
        registry := [3, 2, 1, 0], allocations := 4 }
    s.Whole (.cell 1) ∧ ∃ c s' origin, duplicate 5 (.cell 1) s = .ok c s' ∧
      s.Replica s' origin (.cell 1) c := by
  intro s
  have whole : s.Whole (.cell 1) := Store.whole_cell (by decide) (by decide)
  refine ⟨whole, ?_⟩
  rcases (duplicate_replica whole 5).2 with copied | ⟨exceeded, -⟩
  · exact copied
  · exact absurd exceeded (by decide)

end LittleScheme
