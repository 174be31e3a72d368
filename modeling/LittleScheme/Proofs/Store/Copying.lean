import LittleScheme.Proofs.Evaluation.Discipline
import LittleScheme.Proofs.Store.Ownership

/-!
# What a copy is made of

Copying adds cells and changes none.  The new cells refer to new cells only, and to each of them at
most once: references that lead downwards to one cell along two paths become references to two
cells, and the only reference that leads back up is that of a pair to itself.  So a copy has no
owner and owns what it is made of (`Ownership.Fresh`), and it can be stored.
-/

namespace LittleScheme

/-- A ranking of the cells of a store, and a map of owners. -/
structure Ownership where
  rank : Loc → Nat
  owner : Loc → Option Holder

namespace Ownership

/-- The ranking and the map are right for a store. -/
structure Fits (o : Ownership) (s : Store) : Prop where
  ranked : s.Ranked o.rank
  owned : s.Owned o.owner

/-- The store `s'` consists of `s` and of cells that refer to none of `s`. -/
structure Copies (o : Ownership) (s : Store) (o' : Ownership) (s' : Store) : Prop where
  fits : o'.Fits s'
  size : s.size ≤ s'.size
  node? : ∀ {l}, l < s.size → s'.node? (.cell l) = s.node? (.cell l)
  rank : ∀ {l}, l < s.size → o'.rank l = o.rank l
  owner : ∀ {l}, l < s.size → o'.owner l = o.owner l
  data : ∀ {l node q}, s.size ≤ l → s'.node? (.cell l) = some node → .cell q ∈ node.data →
    s.size ≤ q
  captured : ∀ {l node env}, s.size ≤ l → s'.node? (.cell l) = some node →
    node.captured = some env → s.size ≤ env

/-- From `t`, which consists of `s` and of copies, a computation adds copies however it ends, and
its result is as asked. -/
structure Adds (o : Ownership) (s : Store) {α : Type} (action : StoreM α) (t : Store)
    (post : α → Ownership → Store → Prop) : Prop where
  ok : ∀ {a t'}, action t = .ok a t' → ∃ o', Copies o s o' t' ∧ post a o' t'
  error : ∀ {fault t'}, action t = .error fault t' → ∃ o', Copies o s o' t'

/-- A new cell of rank below `k`, which has no owner and owns what it holds; it is the frame of
`f`, if there is one. -/
structure Fresh (base k : Nat) (f : Option Frame) (o : Ownership) (s : Store) (q : Loc) : Prop where
  new : base ≤ q
  exist : q < s.size
  rank : o.rank q < k
  frame : s.frame? q = f
  owner : o.owner q = none
  keeps : s.Keeps o.owner q

/-- A reference to a fresh cell. -/
def IsCopy (base k : Nat) (f : Option Frame) (r : Ref) (o : Ownership) (s : Store) : Prop :=
  ∀ q, r = .cell q → Fresh base k f o s q

section Copies

variable {o o' o'' : Ownership} {s s' s'' : Store}

/-- Being right depends on the contents of the cells alone. -/
theorem Fits.congr (fits : o.Fits s) (same : ∀ r, s'.node? r = s.node? r) : o.Fits s' :=
  ⟨fits.ranked.congr same, fits.owned.congr same⟩

theorem Copies.refl (fits : o.Fits s) : Copies o s o s where
  fits := fits
  size := Nat.le_refl _
  node? _ := rfl
  rank _ := rfl
  owner _ := rfl
  data beyond found := absurd (Store.lt_size found) (Nat.not_lt.2 beyond)
  captured beyond found := absurd (Store.lt_size found) (Nat.not_lt.2 beyond)

theorem Copies.trans (first : Copies o s o' s') (second : Copies o' s' o'' s'') :
    Copies o s o'' s'' where
  fits := second.fits
  size := Nat.le_trans first.size second.size
  node? old := (second.node? (Nat.lt_of_lt_of_le old first.size)).trans (first.node? old)
  rank old := (second.rank (Nat.lt_of_lt_of_le old first.size)).trans (first.rank old)
  owner old := (second.owner (Nat.lt_of_lt_of_le old first.size)).trans (first.owner old)
  data {l node q} new found member := by
    by_cases middle : l < s'.size
    · exact first.data new (second.node? middle ▸ found) member
    · exact Nat.le_trans first.size (second.data (Nat.not_lt.1 middle) found member)
  captured {l node env} new found captures := by
    by_cases middle : l < s'.size
    · exact first.captured new (second.node? middle ▸ found) captures
    · exact Nat.le_trans first.size (second.captured (Nat.not_lt.1 middle) found captures)

theorem Copies.frame? (copies : Copies o s o' s') {l : Loc} (old : l < s.size) :
    s'.frame? l = s.frame? l := by
  rw [Store.frame?_eq, Store.frame?_eq, copies.node? old]

/-- What a pair of the old store owns, it goes on to own. -/
theorem Copies.keeps (fits : o.Fits s) (copies : Copies o s o' s') {p : Loc} (old : p < s.size)
    (keeps : s.Keeps o.owner p) : s'.Keeps o'.owner p := by
  intro fields found field q held other
  rw [Store.pair?_eq, copies.node? old, ← Store.pair?_eq] at found
  obtain ⟨exist, -⟩ := fits.ranked.data (Store.pair?_eq_some.1 found) (Node.mem_data held)
  rw [copies.owner exist]
  exact keeps fields found field q held other

/-- A fresh cell stays fresh while others are added. -/
theorem Fresh.mono (fits : o.Fits s) (copies : Copies o s o' s') {base k : Nat} {f : Option Frame}
    {q : Loc} (fresh : Fresh base k f o s q) : Fresh base k f o' s' q where
  new := fresh.new
  exist := Nat.lt_of_lt_of_le fresh.exist copies.size
  rank := copies.rank fresh.exist ▸ fresh.rank
  frame := copies.frame? fresh.exist ▸ fresh.frame
  owner := copies.owner fresh.exist ▸ fresh.owner
  keeps := copies.keeps fits fresh.exist fresh.keeps

theorem Fresh.weaken {base base' k k' : Nat} {f : Option Frame} {q : Loc}
    (fresh : Fresh base k f o s q) (base_le : base' ≤ base) (le : k ≤ k') :
    Fresh base' k' f o s q :=
  { fresh with new := Nat.le_trans base_le fresh.new, rank := Nat.lt_of_lt_of_le fresh.rank le }

theorem IsCopy.mono (fits : o.Fits s) (copies : Copies o s o' s') {base k : Nat} {f : Option Frame}
    {r : Ref} (copy : IsCopy base k f r o s) : IsCopy base k f r o' s' :=
  fun q eq => (copy q eq).mono fits copies

/-- A copy that is no frame can be stored. -/
theorem IsCopy.free {base k : Nat} {r : Ref} (copy : IsCopy base k none r o s) :
    s.Free o.owner r :=
  fun q eq => ⟨(copy q eq).exist, (copy q eq).frame, (copy q eq).owner, (copy q eq).keeps⟩

end Copies

/-! ## Composing computations -/

section Compose

variable {o o' : Ownership} {s s' t t' : Store} {α β : Type} {action : StoreM α}
  {post : α → Ownership → Store → Prop}

theorem Adds.of_ok {a : α} (ended : action t = .ok a t') (copies : Copies o s o' t')
    (h : post a o' t') : Adds o s action t post := by
  constructor
  · intro b t'' ended'
    rw [ended] at ended'
    cases ended'
    exact ⟨o', copies, h⟩
  · intro fault t'' ended'
    rw [ended] at ended'
    cases ended'

theorem Adds.of_error {fault : Fault} (ended : action t = .error fault t')
    (copies : Copies o s o' t') : Adds o s action t post := by
  constructor
  · intro b t'' ended'
    rw [ended] at ended'
    cases ended'
  · intro fault' t'' ended'
    rw [ended] at ended'
    cases ended'
    exact ⟨o', copies⟩

theorem Adds.bind {next : α → StoreM β} {post' : β → Ownership → Store → Prop}
    (first : Adds o s action t post)
    (second : ∀ a o' t', Copies o s o' t' → post a o' t' → Adds o s (next a) t' post') :
    Adds o s (action >>= next) t post' := by
  cases h : action t with
  | error fault t' =>
    obtain ⟨o', copies⟩ := first.error h
    exact .of_error (StoreM.bind_error h next) copies
  | ok a t' =>
    obtain ⟨o', copies, asked⟩ := first.ok h
    have rest := second a o' t' copies asked
    constructor
    · intro b t'' ended
      rw [StoreM.bind_ok h] at ended
      exact rest.ok ended
    · intro fault t'' ended
      rw [StoreM.bind_ok h] at ended
      exact rest.error ended

theorem Adds.look {r : Ref} {next : Option Node → StoreM α}
    (h : Adds o s (next (t.node? r)) t post) : Adds o s (LittleScheme.look r >>= next) t post :=
  ⟨h.ok, h.error⟩

/-- What is added to a store that consists of `s` and of copies is added to `s`. -/
theorem Adds.rebase {post' : α → Ownership → Store → Prop} (copies : Copies o s o' t)
    (h : Adds o' t action t post)
    (imp : ∀ a o'' t'', Copies o' t o'' t'' → post a o'' t'' → post' a o'' t'') :
    Adds o s action t post' := by
  constructor
  · intro a t'' ended
    obtain ⟨o'', copies', asked⟩ := h.ok ended
    exact ⟨o'', copies.trans copies', imp a o'' t'' copies' asked⟩
  · intro fault t'' ended
    obtain ⟨o'', copies'⟩ := h.error ended
    exact ⟨o'', copies.trans copies'⟩

end Compose

/-! ## New cells -/

section Steps

variable {o o' : Ownership} {s t : Store}

/-- A new cell that refers to nothing. -/
theorem Copies.register (copies : Copies o s o' t) {node : Node} (k : Nat)
    (blank : ∀ q, .cell q ∉ node.data) (free : node.captured = none)
    (unbound : ∀ frame, node = .environment frame → frame.bindings = []) :
    Copies o s { o' with rank := Function.update o'.rank t.size k } (t.register node) := by
  have same {l : Loc} (old : l < t.size) :
      (t.register node).node? (.cell l) = t.node? (.cell l) := by
    rw [Store.node?_register, if_neg (by simpa using Nat.ne_of_lt old)]
  have within {l : Loc} (old : l < s.size) : l < t.size := Nat.lt_of_lt_of_le old copies.size
  constructor
  · constructor
    · refine copies.fits.ranked.register (fun q member => absurd member (blank q)) ?_
      intro env captures
      simp [free] at captures
    · exact copies.fits.owned.register unbound
  · rw [Store.size_register]
    exact Nat.le_succ_of_le copies.size
  · intro l old
    exact (same (within old)).trans (copies.node? old)
  · intro l old
    exact (Function.update_of_ne (Nat.ne_of_lt (within old)) _ _).trans (copies.rank old)
  · intro l old
    exact copies.owner old
  · intro l node' q new found member
    rw [Store.node?_register] at found
    split at found
    · obtain rfl := Option.some.inj found
      exact absurd member (blank q)
    · exact copies.data new found member
  · intro l node' env new found captures
    rw [Store.node?_register] at found
    split at found
    · obtain rfl := Option.some.inj found
      simp [free] at captures
    · exact copies.captured new found captures

/-- A cell with contents `node` and rank `k` that has no owner. -/
structure Allotted (node : Node) (k : Nat) (c : Loc) (o : Ownership) (s : Store) : Prop where
  found : s.node? (.cell c) = some node
  rank : o.rank c = k
  vacant : o.owner c = none

theorem Allotted.exist {node : Node} {k : Nat} {c : Loc} (allotted : Allotted node k c o s) :
    c < s.size :=
  Store.lt_size allotted.found

theorem Allotted.mono {s' : Store} (copies : Copies o s o' s') {node : Node} {k : Nat} {c : Loc}
    (allotted : Allotted node k c o s) : Allotted node k c o' s' where
  found := (copies.node? allotted.exist).trans allotted.found
  rank := (copies.rank allotted.exist).trans allotted.rank
  vacant := (copies.owner allotted.exist).trans allotted.vacant

theorem Allotted.fresh {node : Node} {base k : Nat} {c : Loc} (allotted : Allotted node k c o s)
    (new : base ≤ c) (keeps : ∀ fields, node.fields? = some fields → ∀ (field : Field) (q : Loc),
      field.get fields = .cell q → q ≠ c → o.owner q = some (.field c field)) :
    Fresh base (k + 1) node.frame? o s c := by
  refine ⟨new, allotted.exist, by rw [allotted.rank]; omega, ?_, allotted.vacant, ?_⟩
  · rw [Store.frame?_eq, allotted.found]
    rfl
  · intro fields found
    rw [Store.pair?_eq, allotted.found] at found
    exact keeps fields found

/-- A new cell that refers to nothing can be given any rank. -/
theorem Adds.allocate (fits : o.Fits s) {node : Node} (k : Nat) (blank : ∀ q, .cell q ∉ node.data)
    (free : node.captured = none)
    (unbound : ∀ frame, node = .environment frame → frame.bindings = []) :
    Adds o s (LittleScheme.allocate node) s fun c o' t => c = s.size ∧ Allotted node k c o' t := by
  have copies := (Copies.refl fits).register k blank free unbound
  refine .of_ok rfl copies ⟨rfl, ?_, ?_, ?_⟩
  · rw [Store.node?_register, if_pos rfl]
  · exact Function.update_self _ _ _
  · exact fits.owned.vacant (Nat.le_refl _)

/-- The map once the field of the pair at `c` holds `r`. -/
def hold (o : Ownership) (c : Loc) (field : Field) (r : Ref) : Ownership :=
  if r = .cell c then o else { o with owner := Store.give o.owner (.field c field) r }

@[simp] theorem rank_hold (c : Loc) (field : Field) (r : Ref) :
    (o.hold c field r).rank = o.rank := by
  rw [hold]
  split <;> rfl

theorem owner_hold_of_ne {c q : Loc} {field : Field} {r : Ref} (other : r ≠ .cell q) :
    (o.hold c field r).owner q = o.owner q := by
  rw [hold]
  split
  · rfl
  · exact Store.give_of_ne other

theorem owner_hold {c q : Loc} {field : Field} {r : Ref} (here : r = .cell q) (other : q ≠ c) :
    (o.hold c field r).owner q = some (.field c field) := by
  subst here
  simp [hold, other, Store.give]

/-- A pair does not own itself. -/
theorem owner_hold_self {c : Loc} {field : Field} {r : Ref} :
    (o.hold c field r).owner c = o.owner c := by
  rw [hold]
  split
  · rfl
  · exact Store.give_of_ne ‹_›

theorem Fits.hold (fits : o.Fits s) {c : Loc} {r : Ref} (part : r = .cell c ∨ s.Free o.owner r)
    (field : Field) : (o.hold c field r).Fits s := by
  refine ⟨by rw [rank_hold]; exact fits.ranked, ?_⟩
  rw [Ownership.hold]
  split
  · exact fits.owned
  · rename_i other
    exact fits.owned.give (part.resolve_left other) _

/-- A value without an owner has none once another value has been given one. -/
theorem free_hold {c : Loc} {r r' : Ref} (part : r = .cell c ∨ s.Free o.owner r)
    (free : s.Free o.owner r') (apart : ∀ q, r = .cell q → r' = .cell q → q = c) (field : Field) :
    s.Free (o.hold c field r).owner r' := by
  rw [hold]
  split
  · exact free
  · rename_i other
    intro q eq
    obtain ⟨exist, plain, vacant, keeps⟩ := free q eq
    have ne : r ≠ .cell q := by
      intro eq'
      obtain rfl := apart q eq' eq
      exact other eq'
    exact ⟨exist, plain, (Store.give_of_ne ne).trans vacant,
      keeps.give (part.resolve_left other) _⟩

/-- A new cell gets its contents, which refer to new cells. -/
theorem Copies.write {o'' : Ownership} (copies : Copies o s o' t) {c : Loc} {node : Node}
    (exist : c < t.size) (new : s.size ≤ c) (fits : o''.Fits (t.write c node))
    (rank : ∀ l, l < s.size → o''.rank l = o'.rank l)
    (owner : ∀ l, l < s.size → o''.owner l = o'.owner l)
    (data : ∀ q, .cell q ∈ node.data → s.size ≤ q)
    (captured : ∀ env, node.captured = some env → s.size ≤ env) :
    Copies o s o'' (t.write c node) := by
  constructor
  · exact fits
  · rw [Store.size_write]
    exact copies.size
  · intro l old
    have other : l ≠ c := Nat.ne_of_lt (Nat.lt_of_lt_of_le old new)
    exact (Store.node?_write_of_ne t _ (by simpa using other)).trans (copies.node? old)
  · intro l old
    exact (rank l old).trans (copies.rank old)
  · intro l old
    exact (owner l old).trans (copies.owner old)
  · intro l node' q beyond found member
    rw [Store.node?_write t exist] at found
    split at found
    · obtain rfl := Option.some.inj found
      exact data q member
    · exact copies.data beyond found member
  · intro l node' env beyond found captures
    rw [Store.node?_write t exist] at found
    split at found
    · obtain rfl := Option.some.inj found
      exact captured env captures
    · exact copies.captured beyond found captures

/-- What a copy at `c` refers to: `c` itself, or a copy from `base` on. -/
def IsPart (base c k : Nat) (r : Ref) (o : Ownership) (s : Store) : Prop :=
  r = .cell c ∨ IsCopy base k none r o s

theorem IsPart.free {base c k : Nat} {r : Ref} (part : IsPart base c k r o s) :
    r = .cell c ∨ s.Free o.owner r :=
  part.imp_right IsCopy.free

theorem IsPart.mono {s' : Store} (fits : o.Fits s) (copies : Copies o s o' s')
    {base base' c k : Nat} (le : base ≤ base') {r : Ref} (part : IsPart base' c k r o s) :
    IsPart base c k r o' s' :=
  part.imp_right fun copy q eq => ((copy q eq).mono fits copies).weaken le (Nat.le_refl _)

theorem IsPart.data {c k : Nat} {r : Ref} (part : IsPart c c k r o s) (exist : c < s.size)
    (plain : s.frame? c = none) {q : Loc} (eq : r = .cell q) :
    c ≤ q ∧ q < s.size ∧ s.frame? q = none ∧ (q = c ∨ o.rank q < k) := by
  rcases part with self | copy
  · obtain rfl : q = c := by simpa [eq] using self
    exact ⟨Nat.le_refl _, exist, plain, .inl rfl⟩
  · have fresh := copy q eq
    exact ⟨fresh.new, fresh.exist, fresh.frame, .inr fresh.rank⟩

/-- A new pair gets its fields. -/
theorem Copies.writePair (copies : Copies o s o' t) {c k : Nat} (new : s.size ≤ c)
    (allotted : Allotted (.pair .nil .nil) k c o' t) {a b : Ref} (first : IsPart c c k a o' t)
    (second : IsPart c c k b o' t) (apart : ∀ q, a = .cell q → b = .cell q → q = c) :
    ∃ o'', Copies o s o'' (t.write c (.pair a b)) ∧
      Fresh s.size (k + 1) none o'' (t.write c (.pair a b)) c := by
  obtain ⟨blank, rank, vacant⟩ := allotted
  have exist : c < t.size := Store.lt_size blank
  have plain : t.frame? c = none := by rw [Store.frame?_eq, blank]; rfl
  -- the fields get the pair as their owner, one after the other
  let o'' := (o'.hold c .first a).hold c .second b
  have secondFree : b = .cell c ∨ t.Free (o'.hold c .first a).owner b :=
    second.free.imp_right fun free => free_hold first.free free apart .first
  have fits : o''.Fits t := (copies.fits.hold first.free .first).hold secondFree .second
  have keeps (field : Field) (q : Loc) (held : field.get (a, b) = .cell q) (other : q ≠ c) :
      o''.owner q = some (.field c field) := by
    cases field with
    | first =>
      have ne : b ≠ .cell q := fun eq => other (apart q held eq)
      exact (owner_hold_of_ne ne).trans (owner_hold held other)
    | second => exact owner_hold held other
  have below {r : Ref} (member : r ∈ (Node.pair a b).data) {q : Loc} (eq : r = .cell q) :
      c ≤ q ∧ q < t.size ∧ t.frame? q = none ∧ (q = c ∨ o''.rank q < o''.rank c) := by
    simp only [o'', rank_hold, rank]
    simp only [Node.data, List.mem_cons, List.not_mem_nil, or_false] at member
    rcases member with rfl | rfl
    · exact first.data exist plain eq
    · exact second.data exist plain eq
  have written : o''.Fits (t.write c (.pair a b)) := by
    constructor
    · refine fits.ranked.write blank rfl rfl (fun q member => (below member rfl).2) ?_
      intro env captures
      simp [Node.captured] at captures
    · refine fits.owned.write blank rfl rfl ?_
      intro _ fields eq field q held other
      obtain rfl : (a, b) = fields := by simpa [Node.fields?] using eq
      exact keeps field q held other
  have old {l : Loc} (h : l < s.size) : o''.owner l = o'.owner l := by
    have ne {r : Ref} (part : IsPart c c k r o' t) : r ≠ .cell l := by
      intro eq
      exact absurd (Nat.le_trans new (part.data exist plain eq).1) (Nat.not_le.2 h)
    rw [owner_hold_of_ne (ne second), owner_hold_of_ne (ne first)]
  refine ⟨o'', copies.write exist new written ?_ (fun l h => old h) ?_ ?_, ?_⟩
  · intro l _
    simp [o'']
  · intro q member
    exact Nat.le_trans new (below member rfl).1
  · intro env captures
    simp [Node.captured] at captures
  · have allotted : Allotted (.pair a b) k c o'' (t.write c (.pair a b)) := by
      refine ⟨?_, by simp [o'', rank], ?_⟩
      · rw [Store.node?_write t exist, if_pos rfl]
      · rw [owner_hold_self, owner_hold_self, vacant]
    refine allotted.fresh new ?_
    intro fields eq
    obtain rfl : (a, b) = fields := by simpa [Node.fields?] using eq
    exact keeps

/-- A new procedure gets its code and its captured frame. -/
theorem Copies.writeClosure (copies : Copies o s o' t) {c k : Nat} (new : s.size ≤ c)
    (allotted : Allotted (.closure [] [] none) k c o' t) {params body : List Ref} {env : Option Loc}
    (code : ∀ r ∈ params ++ body, IsPart c c k r o' t)
    (frame : ∀ e, env = some e → ∃ outer, Fresh c k (some { outer }) o' t e) :
    Copies o s o' (t.write c (.closure params body env)) ∧
      Fresh s.size (k + 1) none o' (t.write c (.closure params body env)) c := by
  obtain ⟨blank, rank, vacant⟩ := allotted
  have exist : c < t.size := Store.lt_size blank
  have plain : t.frame? c = none := by rw [Store.frame?_eq, blank]; rfl
  have written : o'.Fits (t.write c (.closure params body env)) := by
    constructor
    · refine copies.fits.ranked.write blank rfl rfl ?_ ?_
      · intro q member
        rw [rank]
        exact ((code _ member).data exist plain rfl).2
      · intro e captures
        obtain ⟨outer, fresh⟩ := frame e captures
        rw [rank]
        exact ⟨⟨outer, fresh.frame⟩, fresh.rank⟩
    · refine copies.fits.owned.write blank rfl rfl ?_
      intro _ fields eq
      simp [Node.fields?] at eq
  refine ⟨copies.write exist new written (fun _ _ => rfl) (fun _ _ => rfl) ?_ ?_, ?_⟩
  · intro q member
    exact Nat.le_trans new ((code _ member).data exist plain rfl).1
  · intro e captures
    obtain ⟨outer, fresh⟩ := frame e captures
    exact Nat.le_trans new fresh.new
  · have found : (t.write c (.closure params body env)).node? (.cell c) =
        some (.closure params body env) := by
      rw [Store.node?_write t exist, if_pos rfl]
    exact Allotted.fresh ⟨found, rank, vacant⟩ new (by simp [Node.fields?])

/-- A cell that gets the contents it has. -/
theorem Copies.rewrite (copies : Copies o s o' t) {c : Loc} {node : Node}
    (found : t.node? (.cell c) = some node) : Copies o s o' (t.write c node) := by
  have same (r : Ref) : (t.write c node).node? r = t.node? r := by
    rw [Store.node?_write t (Store.lt_size found)]
    split
    · rename_i here
      rw [here, found]
    · rfl
  constructor
  · exact copies.fits.congr same
  · rw [Store.size_write]
    exact copies.size
  · intro l old
    exact (same _).trans (copies.node? old)
  · exact copies.rank
  · exact copies.owner
  · intro l node' q new found'
    exact copies.data new (same _ ▸ found')
  · intro l node' env new found'
    exact copies.captured new (same _ ▸ found')

end Steps

/-! ## Copies of values -/

/-- The values whose copies are under way have a rank of at least `k`. -/
def Above (active : Active) (k : Nat) (o : Ownership) (s : Store) : Prop :=
  ∀ l : Loc, active[l]?.isSome → l < s.size ∧ k ≤ o.rank l

/-- A reference to a cell of rank below `k`, which is the frame of `f`, if there is one. -/
def Below (k : Nat) (f : Option Frame) (r : Ref) (o : Ownership) (s : Store) : Prop :=
  ∀ q, r = .cell q → q < s.size ∧ o.rank q < k ∧ s.frame? q = f

section Copy

variable {o o' : Ownership} {s s' : Store} {active : Active} {k : Nat}

theorem Above.mono (copies : Copies o s o' s') (above : Above active k o s) :
    Above active k o' s' := by
  intro l member
  obtain ⟨exist, high⟩ := above l member
  exact ⟨Nat.lt_of_lt_of_le exist copies.size, copies.rank exist ▸ high⟩

theorem Below.mono (copies : Copies o s o' s') {f : Option Frame} {r : Ref}
    (below : Below k f r o s) : Below k f r o' s' := by
  intro q eq
  obtain ⟨exist, low, frame⟩ := below q eq
  exact ⟨Nat.lt_of_lt_of_le exist copies.size, copies.rank exist ▸ low,
    copies.frame? exist ▸ frame⟩

/-- The copy of a value below the others gets under way. -/
theorem Above.insert (above : Above active k o s) {loc : Loc} (exist : loc < s.size)
    (low : o.rank loc < k) (copy : Loc) : Above (active.insert loc copy) (o.rank loc) o s := by
  intro l member
  rw [Std.TreeMap.getElem?_insert] at member
  split at member
  · rename_i same
    obtain rfl : loc = l := by simpa using same
    exact ⟨exist, Nat.le_refl _⟩
  · obtain ⟨exist', high⟩ := above l member
    exact ⟨exist', Nat.le_trans (Nat.le_of_lt low) high⟩

/-- What is above a value is not the value. -/
theorem Above.getElem? (above : Above active k o s) {loc : Loc} (low : o.rank loc < k) :
    active[loc]? = none := by
  cases found : active[loc]? with
  | none => rfl
  | some copy =>
    have := (above loc (by simp [found])).2
    omega

/-- `below c` copies what lies below the value at `loc`, whose copy is at `c`. -/
structure CopiesBelow (active : Active) (loc : Loc) (k : Nat) (below : Loc → Ref → StoreM Ref) :
    Prop where
  lower : ∀ {o s c f r}, o.Fits s → Above (active.insert loc c) k o s →
    (∀ frame, f = some frame → frame.bindings = []) → Below k f r o s →
    Adds o s (below c r) s (IsCopy s.size k f)
  self : ∀ c s, below c (.cell loc) s = .ok (.cell c) s ∨
    ∃ fault, below c (.cell loc) s = .error fault s

section Nodes

variable {loc c : Loc} {below below' : Loc → Ref → StoreM Ref}

/-- What a value refers to: the value itself, or one below it. -/
theorem Fits.within (fits : o.Fits s) {node : Node} (found : s.node? (.cell loc) = some node)
    {r : Ref} (member : r ∈ node.data) : r = .cell loc ∨ Below (o.rank loc) none r o s := by
  refine or_iff_not_imp_left.2 fun other q eq => ?_
  subst eq
  obtain ⟨exist, plain, self | low⟩ := fits.ranked.data found member
  · subst self
    exact absurd rfl other
  · exact ⟨exist, low, plain⟩

/-- A part of the value is copied to a part of the copy. -/
theorem CopiesBelow.part (copying : CopiesBelow active loc k below) (fits : o.Fits s)
    (above : Above (active.insert loc c) k o s) {r : Ref}
    (within : r = .cell loc ∨ Below k none r o s) :
    Adds o s (below c r) s (IsPart s.size c k) := by
  rcases within with rfl | lower
  · rcases copying.self c s with ended | ⟨fault, ended⟩
    · exact .of_ok ended (.refl fits) (.inl rfl)
    · exact .of_error ended (.refl fits)
  · exact (copying.lower fits above (by simp) lower).rebase (.refl fits)
      fun _ _ _ _ copy => .inr copy

/-- The copy of a pair is fresh. -/
theorem copyPair (copyFirst : CopiesBelow active loc (o.rank loc) below)
    (copySecond : CopiesBelow active loc (o.rank loc) below') (fits : o.Fits s)
    (above : Above active k o s) (low : o.rank loc < k) {first second : Ref}
    (found : s.node? (.cell loc) = some (.pair first second)) :
    Adds o s (LittleScheme.copyPair below below' first second) s (IsCopy s.size k none) := by
  refine (Adds.allocate fits (o.rank loc) (by simp [Node.data]) rfl (by simp)).bind ?_
  rintro c o₁ s₁ copies₁ ⟨new, allotted⟩
  have above₁ := (above.insert (Store.lt_size found) low c).mono copies₁
  have within₁ : first = .cell loc ∨ Below (o.rank loc) none first o₁ s₁ :=
    (fits.within found (by simp [Node.data])).imp_right (Below.mono copies₁)
  refine .bind (.rebase copies₁ (copyFirst.part copies₁.fits above₁ within₁)
    fun _ _ _ copies part => And.intro copies part) ?_
  rintro a o₂ s₂ - ⟨copies₂, part₂⟩
  have within₂ : second = .cell loc ∨ Below (o.rank loc) none second o₂ s₂ :=
    (fits.within found (by simp [Node.data])).imp_right (Below.mono (copies₁.trans copies₂))
  refine .bind (.rebase (copies₁.trans copies₂) (copySecond.part copies₂.fits
    (above₁.mono copies₂) within₂) fun _ _ _ copies part => And.intro copies part) ?_
  rintro b o₃ s₃ copies ⟨copies₃, part₃⟩
  have apart (q : Loc) (eq : a = .cell q) (eq' : b = .cell q) : q = c := by
    rcases part₂, part₃ with ⟨self | copy, self' | copy'⟩
    · simpa [eq] using self
    · simpa [eq] using self
    · simpa [eq'] using self'
    · exact absurd (copy q eq).exist (Nat.not_lt.2 (copy' q eq').new)
  have before : c ≤ s₁.size := Nat.le_of_lt allotted.exist
  obtain ⟨o₄, copies₄, fresh⟩ := copies.writePair (Nat.le_of_eq new.symm)
    (allotted.mono (copies₂.trans copies₃)) (part₂.mono copies₂.fits copies₃ before)
    (part₃.mono copies₃.fits (.refl copies₃.fits) (Nat.le_trans before copies₂.size)) apart
  refine .of_ok rfl copies₄ ?_
  rintro _ ⟨⟩
  exact fresh.weaken (Nat.le_refl _) low

/-- The copy of a frame without bindings is fresh. -/
theorem copyFrame (fits : o.Fits s) (low : o.rank loc < k) {frame : Frame}
    (unbound : frame.bindings = []) :
    Adds o s (LittleScheme.copyFrame below frame) s (IsCopy s.size k (some frame)) := by
  obtain ⟨bindings, outer⟩ := frame
  obtain rfl : bindings = [] := unbound
  refine (Adds.allocate fits (o.rank loc) (by simp [Node.data]) rfl (by simp)).bind ?_
  rintro c o₁ s₁ copies₁ ⟨new, allotted⟩
  have copies₂ := copies₁.rewrite allotted.found
  refine .of_ok rfl copies₂ ?_
  rintro _ ⟨⟩
  have found : (s₁.write c (.environment { outer })).node? (.cell c) =
      some (.environment { outer }) := by
    rw [Store.node?_write s₁ allotted.exist, if_pos rfl]
  have fresh := Allotted.fresh ⟨found, allotted.rank, allotted.vacant⟩ (Nat.le_of_eq new.symm)
    (by simp [Node.fields?])
  exact fresh.weaken (Nat.le_refl _) low

/-- Parts of the value are copied to parts of the copy. -/
theorem CopiesBelow.parts (copying : CopiesBelow active loc k below) (fits : o.Fits s)
    (above : Above (active.insert loc c) k o s) {rs : List Ref}
    (within : ∀ r ∈ rs, r = .cell loc ∨ Below k none r o s) :
    Adds o s (copyEach (below c) rs) s fun rs' o' s' => ∀ r ∈ rs', IsPart s.size c k r o' s' := by
  induction rs generalizing o s with
  | nil => exact .of_ok rfl (.refl fits) (by simp)
  | cons r rs ih =>
    refine .bind (copying.part fits above (within r (by simp))) ?_
    intro r' o₁ s₁ copies₁ part
    have rest := ih copies₁.fits (above.mono copies₁) fun r member =>
      (within r (by simp [member])).imp_right (Below.mono copies₁)
    refine .bind (.rebase copies₁ rest fun _ _ _ copies parts => And.intro copies parts) ?_
    rintro rs' o₂ s₂ copies ⟨copies₂, parts⟩
    refine .of_ok rfl copies ?_
    intro r'' member
    rcases List.mem_cons.1 member with rfl | later
    · exact part.mono copies₁.fits copies₂ (Nat.le_refl _)
    · exact (parts r'' later).mono copies₂.fits (.refl copies₂.fits) copies₁.size

/-- The captured frame is copied. -/
theorem CopiesBelow.frame (copying : CopiesBelow active loc k below) (fits : o.Fits s)
    (above : Above (active.insert loc c) k o s) {env : Option Loc}
    (lower : ∀ e, env = some e → ∃ outer, Below k (some { outer }) (.cell e) o s) :
    Adds o s (copyCaptured (below c) env) s fun env' o' s' =>
      ∀ e, env' = some e → ∃ outer, Fresh s.size k (some { outer }) o' s' e := by
  cases env with
  | none => exact .of_ok rfl (.refl fits) (by simp)
  | some e =>
    obtain ⟨outer, lower⟩ := lower e rfl
    refine .bind (copying.lower fits above (by simp) lower) ?_
    intro r o₁ s₁ copies₁ copy
    refine .of_ok rfl copies₁ ?_
    intro e' eq
    cases r with
    | nil => simp [Ref.loc?] at eq
    | cell l =>
      obtain rfl : l = e' := by simpa [Ref.loc?] using eq
      exact ⟨outer, copy l rfl⟩

/-- The copy of a procedure is fresh. -/
theorem copyClosure (copying : CopiesBelow active loc (o.rank loc) below) (fits : o.Fits s)
    (above : Above active k o s) (low : o.rank loc < k) {params body : List Ref} {env : Option Loc}
    (found : s.node? (.cell loc) = some (.closure params body env)) :
    Adds o s (LittleScheme.copyClosure below params body env) s (IsCopy s.size k none) := by
  refine (Adds.allocate fits (o.rank loc) (by simp [Node.data]) rfl (by simp)).bind ?_
  rintro c o₁ s₁ copies₁ ⟨new, allotted⟩
  have above₁ := (above.insert (Store.lt_size found) low c).mono copies₁
  have within {o' : Ownership} {s' : Store} (copies : Copies o s o' s') (r : Ref)
      (member : r ∈ params ++ body) : r = .cell loc ∨ Below (o.rank loc) none r o' s' :=
    (fits.within found member).imp_right (Below.mono copies)
  refine .bind (.rebase copies₁ (copying.parts copies₁.fits above₁ fun r member =>
    within copies₁ r (by simp [member])) fun _ _ _ copies parts => And.intro copies parts) ?_
  rintro params' o₂ s₂ copies₁₂ ⟨copies₂, parts⟩
  refine .bind (.rebase copies₁₂ (copying.parts copies₂.fits (above₁.mono copies₂)
    fun r member => within copies₁₂ r (by simp [member]))
    fun _ _ _ copies parts => And.intro copies parts) ?_
  rintro body' o₃ s₃ copies₁₃ ⟨copies₃, parts'⟩
  have lower (e : Loc) (eq : env = some e) :
      ∃ outer, Below (o.rank loc) (some { outer }) (.cell e) o₃ s₃ := by
    obtain ⟨⟨outer, frame⟩, low⟩ := fits.ranked.captured found eq
    refine ⟨outer, Below.mono copies₁₃ ?_⟩
    rintro _ ⟨⟩
    exact ⟨Store.lt_size_of_frame? frame, low, frame⟩
  refine .bind (.rebase copies₁₃ (copying.frame copies₃.fits (above₁.mono (copies₂.trans copies₃))
    lower) fun _ _ _ copies frames => And.intro copies frames) ?_
  rintro env' o₄ s₄ copies ⟨copies₄, frames⟩
  have before : c ≤ s₁.size := Nat.le_of_lt allotted.exist
  have before₂ := Nat.le_trans before copies₂.size
  have code (r : Ref) (member : r ∈ params' ++ body') : IsPart c c (o.rank loc) r o₄ s₄ := by
    rcases List.mem_append.1 member with param | form
    · exact (parts r param).mono copies₂.fits (copies₃.trans copies₄) before
    · exact (parts' r form).mono copies₃.fits copies₄ before₂
  obtain ⟨copies₅, fresh⟩ := copies.writeClosure (Nat.le_of_eq new.symm)
    (allotted.mono ((copies₂.trans copies₃).trans copies₄)) code fun e eq =>
      (frames e eq).imp fun _ fresh =>
        fresh.weaken (Nat.le_trans before₂ copies₃.size) (Nat.le_refl _)
  refine .of_ok rfl copies₅ ?_
  rintro _ ⟨⟩
  exact fresh.weaken (Nat.le_refl _) low

end Nodes

/-- A reference back leads to the copy that is under way. -/
theorem copyFrom_active {loc c : Loc} (found : active[loc]? = some c) (fuel depth : Nat)
    (s : Store) :
    LittleScheme.copyFrom fuel depth active (.cell loc) s = .ok (.cell c) s ∨
      ∃ fault, LittleScheme.copyFrom fuel depth active (.cell loc) s = .error fault s := by
  cases fuel with
  | zero => exact .inr ⟨_, rfl⟩
  | succ fuel =>
    cases depth with
    | zero => exact .inr ⟨_, rfl⟩
    | succ depth =>
      left
      rw [LittleScheme.copyFrom]
      rw [found]
      rfl

/-- The copy of an atom or of an operator is fresh. -/
theorem makeCopy (fits : o.Fits s) {loc : Loc} (low : o.rank loc < k) {node : Node}
    (blank : node.data = []) (free : node.captured = none) (plain : node.frame? = none) :
    Adds o s (make node) s (IsCopy s.size k none) := by
  refine (Adds.allocate fits (o.rank loc) (by simp [blank]) free ?_).bind ?_
  · rintro frame rfl
    simp [Node.frame?] at plain
  · rintro c o₁ s₁ copies₁ ⟨new, allotted⟩
    refine .of_ok rfl copies₁ ?_
    rintro _ ⟨⟩
    have fresh := allotted.fresh (Nat.le_of_eq new.symm) fun fields eq => by
      cases node <;> simp [Node.fields?, Node.data] at eq blank
    rw [plain] at fresh
    exact fresh.weaken (Nat.le_refl _) low

/-- A copy below values of a higher rank is fresh. -/
theorem copyFrom (fuel depth : Nat) (fits : o.Fits s) (above : Above active k o s)
    {f : Option Frame} (unbound : ∀ frame, f = some frame → frame.bindings = []) {r : Ref}
    (below : Below k f r o s) :
    Adds o s (LittleScheme.copyFrom fuel depth active r) s (IsCopy s.size k f) := by
  induction fuel generalizing o s depth active k f r with
  | zero =>
    cases r with
    | nil => exact .of_ok rfl (.refl fits) (by simp [IsCopy])
    | cell loc => exact .of_error rfl (.refl fits)
  | succ fuel ih =>
    cases r with
    | nil => exact .of_ok rfl (.refl fits) (by simp [IsCopy])
    | cell loc =>
      cases depth with
      | zero => exact .of_error rfl (.refl fits)
      | succ depth =>
        obtain ⟨exist, low, frame⟩ := below loc rfl
        have copying (depth : Nat) : CopiesBelow active loc (o.rank loc) fun copy =>
            LittleScheme.copyFrom fuel depth (active.insert loc copy) :=
          ⟨fun fits above unbound below => ih depth fits above unbound below,
            fun c s' => copyFrom_active (by simp) fuel depth s'⟩
        rw [LittleScheme.copyFrom]
        rw [above.getElem? low]
        refine .look ?_
        rw [Store.frame?_eq] at frame
        split
        · exact .of_ok rfl (.refl fits) (by simp [IsCopy])
        · rename_i found
          obtain rfl : none = f := by simpa [found, Node.frame?] using frame
          exact copyPair (copying _) (copying _) fits above low found
        · rename_i inner found
          obtain rfl : some inner = f := by simpa [found, Node.frame?] using frame
          exact copyFrame fits low (unbound inner rfl)
        · rename_i found
          obtain rfl : none = f := by simpa [found, Node.frame?] using frame
          exact copyClosure (copying _) fits above low found
        · rename_i node notPair notFrame notClosure found
          obtain rfl : node.frame? = f := by simpa [found] using frame
          cases node with
          | pair first second => exact absurd rfl (notPair first second)
          | environment inner => exact absurd rfl (notFrame inner)
          | closure params body env => exact absurd rfl (notClosure params body env)
          | integer | boolean | symbol | builtin => exact makeCopy fits low rfl rfl rfl

/-- A copy of a value that is no frame can be stored. -/
theorem duplicate (depth : Nat) (fits : o.Fits s) {r : Ref}
    (value : ∀ q, r = .cell q → q < s.size ∧ s.frame? q = none) :
    Adds o s (LittleScheme.duplicate depth r) s fun r' o' s' =>
      ∃ k, IsCopy s.size k none r' o' s' := by
  have above (k : Nat) : Above ∅ k o s := by simp [Above]
  cases r with
  | nil => exact .of_ok rfl (.refl fits) ⟨0, by simp [IsCopy]⟩
  | cell loc =>
    obtain ⟨exist, plain⟩ := value loc rfl
    have below : Below (o.rank loc + 1) none (.cell loc) o s := by
      rintro _ ⟨⟩
      exact ⟨exist, Nat.lt_succ_self _, plain⟩
    have copied := copyFrom (s.size + 1) depth fits (above _) (by simp) below
    exact .rebase (.refl fits) ⟨copied.ok, copied.error⟩ fun _ _ _ _ copy => ⟨_, copy⟩

end Copy

end Ownership

end LittleScheme
