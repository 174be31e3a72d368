import LittleScheme.Fault

/-!
# The store

Every value except the empty list lives in a cell of the store and is referred to by its location.
Pairs and frames are mutable, and references may form cycles.  A cell is never given back: it is
*registered* from the time it is made until a collection finds it dead, and a value whose cell is
no longer registered is still there for whoever holds a reference to it.

## Main definitions

* `Ref`, `Loc` — references to values, and locations of cells.
* `Frame` — the bindings of one scope, in the order of their definition.
* `Node` — the contents of a cell, with `Node.children`, the references it holds.
* `Store` — cells and counters; `Store.node?` is what a reference leads to.
* `StoreM` — computations on a store that may stop with a fault; what they did to the store by
  then stays done.
* `allocate`, `make`, `place`, `look`, `overwrite` — the primitive operations.
-/

namespace LittleScheme

/-! ## References and nodes -/

/-- The location of a cell. -/
abbrev Loc := Nat

/-- A reference to a value: the empty list, or what a cell holds. -/
inductive Ref
  | nil
  | cell (loc : Loc)
deriving DecidableEq

/-- The location that a reference leads to. -/
def Ref.loc? : Ref → Option Loc
  | .nil => none
  | .cell loc => some loc

/-- The bindings of one scope, in the order of their definition, and the frame of the scope around
it. -/
structure Frame where
  bindings : List (String × Ref) := []
  outer : Option Loc := none
deriving DecidableEq

namespace Frame

/-- Bind `name` to `value`: in place if the name is bound, as the last binding otherwise. -/
def insert (name : String) (value : Ref) : List (String × Ref) → List (String × Ref)
  | [] => [(name, value)]
  | binding :: rest =>
    if binding.1 = name then (name, value) :: rest else binding :: insert name value rest

/-- The value that the frame itself binds a name to. -/
def get? (frame : Frame) (name : String) : Option Ref := frame.bindings.lookup name

/-- The frame itself binds the name. -/
def binds (frame : Frame) (name : String) : Bool := (frame.get? name).isSome

/-- Bind a name, in place if it is bound already. -/
def define (frame : Frame) (name : String) (value : Ref) : Frame :=
  { frame with bindings := insert name value frame.bindings }

/-- Define one name after the other. -/
def defineAll (frame : Frame) (bindings : List (String × Ref)) : Frame :=
  bindings.foldl (fun frame binding => frame.define binding.1 binding.2) frame

/-- The bound names, in the order of their definition. -/
def names (frame : Frame) : List String := frame.bindings.map (·.1)

/-- After a binding, the name has the new value and all others keep theirs. -/
theorem lookup_insert (name : String) (value : Ref) (bindings : List (String × Ref))
    (n : String) :
    (insert name value bindings).lookup n =
      if n = name then some value else bindings.lookup n := by
  induction bindings with
  | nil =>
    by_cases h : n = name <;>
      simp [insert, List.lookup_cons, List.lookup_nil, h, beq_eq_false_iff_ne.2]
  | cons binding rest ih =>
    obtain ⟨key, old⟩ := binding
    by_cases h : key = name
    · by_cases h' : n = name <;>
        simp [insert, List.lookup_cons, h, h', beq_eq_false_iff_ne.2]
    · by_cases h' : n = key <;>
        simp_all [insert, List.lookup_cons, beq_eq_false_iff_ne.2]

/-- A definition gives the name its value and leaves all others alone. -/
theorem get?_define (frame : Frame) (name : String) (value : Ref) (n : String) :
    (frame.define name value).get? n = if n = name then some value else frame.get? n :=
  lookup_insert name value frame.bindings n

/-- What a name is bound to stands among the bindings. -/
theorem mem_of_get? {frame : Frame} {name : String} {value : Ref}
    (h : frame.get? name = some value) : (name, value) ∈ frame.bindings := by
  obtain ⟨before, after, split, _⟩ := List.lookup_eq_some_iff.1 h
  simp [split]

/-- A definition binds names to no values but the old ones and the new one. -/
theorem mem_insert {name : String} {value : Ref} {bindings : List (String × Ref)}
    {binding : String × Ref} (member : binding ∈ insert name value bindings) :
    binding.2 = value ∨ binding ∈ bindings := by
  induction bindings with
  | nil => simp_all [insert]
  | cons head rest ih =>
    rw [insert] at member
    split at member
    · rcases List.mem_cons.1 member with rfl | later
      · exact .inl rfl
      · exact .inr (List.mem_cons_of_mem _ later)
    · rcases List.mem_cons.1 member with rfl | later
      · exact .inr (by simp)
      · exact (ih later).imp_right (List.mem_cons_of_mem _)

theorem mem_defineAll {frame : Frame} {bindings : List (String × Ref)} {binding : String × Ref}
    (member : binding ∈ (frame.defineAll bindings).bindings) :
    binding.2 ∈ bindings.map (·.2) ∨ binding ∈ frame.bindings := by
  induction bindings generalizing frame with
  | nil => exact .inr member
  | cons head rest ih =>
    rcases ih member with later | here
    · exact .inl (by simp [later])
    · exact (mem_insert here).imp_left fun h => by simp [h]

/-- A definition does not change the frame around. -/
@[simp] theorem outer_define (frame : Frame) (name : String) (value : Ref) :
    (frame.define name value).outer = frame.outer := rfl

@[simp] theorem outer_defineAll (frame : Frame) (bindings : List (String × Ref)) :
    (frame.defineAll bindings).outer = frame.outer := by
  induction bindings generalizing frame with
  | nil => rfl
  | cons head rest ih => exact ih _

end Frame

/-- The contents of a cell. -/
inductive Node
  | integer (value : Int)
  | boolean (value : Bool)
  | symbol (name : String)
  | pair (first second : Ref)
  | environment (frame : Frame)
  | builtin (op : Op)
  | closure (params body : List Ref) (env : Option Loc)
deriving DecidableEq

namespace Node

/-- The references that a node holds. -/
def children : Node → List Ref
  | .pair first second => [first, second]
  | .environment frame => frame.outer.toList.map .cell ++ frame.bindings.map (·.2)
  | .closure params body env => params ++ body ++ env.toList.map .cell
  | .integer _ | .boolean _ | .symbol _ | .builtin _ => []

/-- The text that a procedure prints as. -/
def tag? : Node → Option String
  | .builtin op => some op.tag
  | .closure _ _ _ => some Op.closureTag
  | _ => none

end Node

/-! ## The store -/

/-- A cell: its contents, and the mark of the last collection that reached it. -/
structure Cell where
  node : Node
  marked : Bool := false
deriving DecidableEq

/-- Cells, the register, and counters. -/
structure Store where
  cells : Array Cell := #[]
  /-- The locations of the registered values, the latest first. -/
  registry : List Loc := []
  /-- The number of values ever registered. -/
  allocations : Nat := 0
  /-- The number of collections. -/
  collections : Nat := 0
  /-- The number of values that collections have found dead. -/
  reclaimed : Nat := 0
deriving DecidableEq

namespace Store

/-- The number of cells. -/
def size (s : Store) : Nat := s.cells.size

/-- What a reference leads to; nothing for the empty list. -/
def node? (s : Store) : Ref → Option Node
  | .nil => none
  | .cell loc => s.cells[loc]?.map (·.node)

/-- The frame at a location, if there is a frame. -/
def frame? (s : Store) (loc : Loc) : Option Frame :=
  match s.node? (.cell loc) with
  | some (.environment frame) => some frame
  | _ => none

/-- The number of registered values. -/
def live (s : Store) : Nat := s.registry.length

/-- The value is registered. -/
def isRegistered (s : Store) : Ref → Bool
  | .nil => false
  | .cell loc => s.registry.contains loc

/-- The value carries a mark. -/
def isMarked (s : Store) : Ref → Bool
  | .nil => false
  | .cell loc => s.cells[loc]?.any (·.marked)

/-- Add a registered cell; its location is the former `size`. -/
def register (s : Store) (node : Node) : Store :=
  let registry := s.size :: s.registry
  { s with
    registry
    cells := s.cells.push { node }
    allocations := s.allocations + 1 }

/-- Add a cell that is not registered; its location is the former `size`. -/
def place (s : Store) (node : Node) : Store :=
  { s with cells := s.cells.push { node } }

/-- Change the contents of a cell. -/
def write (s : Store) (loc : Loc) (node : Node) : Store :=
  { s with cells := s.cells.modify loc fun cell => { cell with node } }

/-! ### What the operations do to the contents -/

@[simp] theorem size_register (s : Store) (node : Node) : (s.register node).size = s.size + 1 := by
  simp [register, size]

@[simp] theorem size_place (s : Store) (node : Node) : (s.place node).size = s.size + 1 := by
  simp [place, size]

@[simp] theorem size_write (s : Store) (loc : Loc) (node : Node) :
    (s.write loc node).size = s.size := by
  simp [write, size]

/-- Nothing is found at or beyond the end of the store. -/
theorem node?_eq_none (s : Store) {loc : Loc} (h : s.size ≤ loc) : s.node? (.cell loc) = none := by
  simp [node?, Array.getElem?_eq_none h]

/-- A new cell changes nothing that is there. -/
theorem node?_register (s : Store) (node : Node) (r : Ref) :
    (s.register node).node? r = if r = .cell s.size then some node else s.node? r := by
  cases r with
  | nil => simp [node?]
  | cell loc => by_cases h : loc = s.size <;> simp_all [node?, register, size, Array.getElem?_push]

/-- Writing changes one cell. -/
theorem node?_write (s : Store) {loc : Loc} (h : loc < s.size) (node : Node) (r : Ref) :
    (s.write loc node).node? r = if r = .cell loc then some node else s.node? r := by
  cases r with
  | nil => simp [node?]
  | cell loc' =>
    by_cases h' : loc' = loc
    · subst h'
      simp [node?, write, Array.getElem?_modify, Array.getElem?_eq_getElem h]
    · simp [node?, write, Array.getElem?_modify, Ne.symm h', h']

/-- Writing leaves the other cells alone. -/
theorem node?_write_of_ne (s : Store) {loc : Loc} (node : Node) {r : Ref} (h : r ≠ .cell loc) :
    (s.write loc node).node? r = s.node? r := by
  cases r with
  | nil => rfl
  | cell loc' =>
    have ne : loc ≠ loc' := by rintro rfl; exact h rfl
    simp [node?, write, Array.getElem?_modify, ne]

/-- The last of two writes counts. -/
theorem write_write (s : Store) (loc : Loc) (node node' : Node) :
    (s.write loc node).write loc node' = s.write loc node' := by
  have cells : (s.write loc node).cells.modify loc (fun cell => { cell with node := node' }) =
      s.cells.modify loc fun cell => { cell with node := node' } := by
    apply Array.ext_getElem?
    intro i
    by_cases h : loc = i <;> simp [write, Array.getElem?_modify, h, Function.comp_def]
  simp only [write] at cells ⊢
  rw [cells]

/-- A new cell can be given its contents later. -/
theorem write_register (s : Store) (node node' : Node) :
    (s.register node).write s.size node' = s.register node' := by
  have cells : (s.register node).cells.modify s.size (fun cell => { cell with node := node' }) =
      (s.register node').cells := by
    apply Array.ext_getElem?
    intro i
    rw [Array.getElem?_modify]
    by_cases h : s.size = i
    · subst h
      simp [register, size]
    · have other : i ≠ s.cells.size := fun same => h same.symm
      simp [register, Array.getElem?_push, h, other]
  rw [write]
  rw [cells]
  rfl

/-- Where something is found, there is a cell. -/
theorem lt_size {s : Store} {loc : Loc} {node : Node} (h : s.node? (.cell loc) = some node) :
    loc < s.size := by
  refine Nat.lt_of_not_le fun outside => ?_
  simp [s.node?_eq_none outside] at h

/-- Where there is a cell, something is found. -/
theorem exists_node? {s : Store} {loc : Loc} (h : loc < s.size) :
    ∃ node, s.node? (.cell loc) = some node :=
  ⟨s.cells[loc].node, by simp [node?, Array.getElem?_eq_getElem h]⟩

/-- Stores with the same contents have as many cells. -/
theorem size_eq_of_node? {s s' : Store} (same : ∀ r, s'.node? r = s.node? r) :
    s'.size = s.size := by
  apply Nat.le_antisymm
  · refine Nat.le_of_not_lt fun less => ?_
    obtain ⟨node, found⟩ := exists_node? less
    exact absurd (lt_size (same _ ▸ found)) (Nat.lt_irrefl _)
  · refine Nat.le_of_not_lt fun less => ?_
    obtain ⟨node, found⟩ := exists_node? less
    exact absurd (lt_size ((same _).trans found)) (Nat.lt_irrefl _)

theorem frame?_eq_some {s : Store} {loc : Loc} {frame : Frame} :
    s.frame? loc = some frame ↔ s.node? (.cell loc) = some (.environment frame) := by
  rw [frame?]
  split <;> simp_all

/-! ### What a reference leads to -/

/-- Only `#f` counts as false. -/
def isTruthy (s : Store) (r : Ref) : Bool := s.node? r != some (.boolean false)

/-- The name of a symbol. -/
def symbolName? (s : Store) (r : Ref) : Option String :=
  match s.node? r with
  | some (.symbol name) => some name
  | _ => none

/-- The value of an integer. -/
def integer? (s : Store) (r : Ref) : Option Int :=
  match s.node? r with
  | some (.integer value) => some value
  | _ => none

/-- The value of a boolean. -/
def boolean? (s : Store) (r : Ref) : Option Bool :=
  match s.node? r with
  | some (.boolean value) => some value
  | _ => none

/-- The fields of a pair. -/
def pair? (s : Store) (r : Ref) : Option (Ref × Ref) :=
  match s.node? r with
  | some (.pair first second) => some (first, second)
  | _ => none

theorem symbolName?_eq_some {s : Store} {r : Ref} {name : String} :
    s.symbolName? r = some name ↔ s.node? r = some (.symbol name) := by
  rw [symbolName?]
  split <;> simp_all

theorem pair?_eq_some {s : Store} {r : Ref} {fields : Ref × Ref} :
    s.pair? r = some fields ↔ s.node? r = some (.pair fields.1 fields.2) := by
  rw [pair?]
  split <;> simp_all [Prod.ext_iff]

end Store

/-! ## Computations on a store -/

/-- Computations on a store.  One that stops with a fault leaves the store as it was at that
point. -/
abbrev StoreM := EStateM Fault Store

namespace StoreM

variable {α β : Type} {action : StoreM α} {s s' : Store}

/-- Behind a computation that has ended well, the next one goes on. -/
theorem bind_ok {a : α} (h : action s = .ok a s') (next : α → StoreM β) :
    (action >>= next) s = next a s' := by
  change EStateM.bind action next s = _
  rw [EStateM.bind, h]

/-- Behind a computation that has stopped, nothing goes on. -/
theorem bind_error {fault : Fault} (h : action s = .error fault s') (next : α → StoreM β) :
    (action >>= next) s = .error fault s' := by
  change EStateM.bind action next s = _
  rw [EStateM.bind, h]

theorem discard_eq (action : StoreM α) :
    (Functor.discard action : StoreM PUnit) = action >>= fun _ => Pure.pure () := by
  funext s
  change EStateM.map _ _ s = EStateM.bind _ _ s
  rw [EStateM.map, EStateM.bind]
  cases action s <;> rfl

end StoreM

/-- Stop with an error of the program. -/
def fail {α : Type} (e : Error) : StoreM α := throw (.error e)

/-- Make a registered cell. -/
def allocate (node : Node) : StoreM Loc :=
  modifyGet fun s => (s.size, s.register node)

/-- Make a registered value. -/
def make (node : Node) : StoreM Ref := do
  let loc ← allocate node
  return .cell loc

/-- Make a value that is not registered. -/
def place (node : Node) : StoreM Ref :=
  modifyGet fun s => (.cell s.size, s.place node)

/-- What a reference leads to. -/
def look (r : Ref) : StoreM (Option Node) := do
  let s ← get
  return s.node? r

/-- Change the contents of a cell. -/
def overwrite (loc : Loc) (node : Node) : StoreM Unit :=
  modify (·.write loc node)

end LittleScheme
