import LittleScheme.Evaluation.Form
import LittleScheme.Store.Scope
import Mathlib.Logic.Function.Basic
import Mathlib.Tactic.Common

/-!
# Owners

A value that is stored has one `Holder`: a binding of a frame, or a field of a pair that is stored
itself.  This is said by a map that gives some of the cells an owner.  The map is right
(`Store.Owned`) if every binding owns the value it is bound to, and every pair with an owner owns
what its fields hold, itself excepted.  It may give owners to values that are no longer stored, and
says nothing about what the fields of a pair without an owner hold; so a value is let go of without
a change to the map, and the temporary values of an evaluation may share what they are made of.

References inside of data lead downwards in some ranking of the cells, again with the exception of a
pair that holds itself.  Captured frames are part of the procedures that captured them, and have no
bindings.
-/

namespace LittleScheme

/-! ## Contents of nodes -/

/-- What can refer to a stored value: a binding of a frame, or a field of a pair. -/
inductive Holder
  | slot (env : Loc) (name : String)
  | field (pair : Loc) (field : Field)
deriving DecidableEq

namespace Field

variable (field : Field) (fields : Ref × Ref) (r : Ref)

/-- Both fields of a pair with a field changed. -/
def put : Ref × Ref :=
  match field with
  | .first => (r, fields.2)
  | .second => (fields.1, r)

theorem set_eq : field.set r fields = .pair (field.put fields r).1 (field.put fields r).2 := by
  cases field <;> rfl

theorem get_put (field' : Field) :
    field'.get (field.put fields r) = if field' = field then r else field'.get fields := by
  cases field <;> cases field' <;> rfl

end Field

namespace Node

/-- The references of a node to data. -/
def data : Node → List Ref
  | .pair first second => [first, second]
  | .closure params body _ => params ++ body
  | _ => []

/-- The frame that a node has captured. -/
def captured : Node → Option Loc
  | .closure _ _ env => env
  | _ => none

/-- The frame that a node is. -/
def frame? : Node → Option Frame
  | .environment frame => some frame
  | _ => none

/-- The fields of a node that is a pair. -/
def fields? : Node → Option (Ref × Ref)
  | .pair first second => some (first, second)
  | _ => none

/-- What a field of a pair holds is among the data of the pair. -/
theorem mem_data {field : Field} {fields : Ref × Ref} {r : Ref} (held : field.get fields = r) :
    r ∈ (pair fields.1 fields.2).data := by
  subst held
  cases field <;> simp [data, Field.get]

theorem exists_field {fields : Ref × Ref} {r : Ref} (member : r ∈ (pair fields.1 fields.2).data) :
    ∃ field : Field, field.get fields = r := by
  rcases List.mem_cons.1 member with rfl | later
  · exact ⟨.first, rfl⟩
  · obtain rfl := List.mem_singleton.1 later
    exact ⟨.second, rfl⟩

end Node

namespace Store

variable {s s' : Store}

theorem frame?_eq (s : Store) (loc : Loc) :
    s.frame? loc = (s.node? (.cell loc)).bind Node.frame? := by
  unfold frame? Node.frame?
  cases s.node? (.cell loc) with
  | none => rfl
  | some node => cases node <;> rfl

theorem pair?_eq (s : Store) (r : Ref) : s.pair? r = (s.node? r).bind Node.fields? := by
  unfold pair? Node.fields?
  cases s.node? r with
  | none => rfl
  | some node => cases node <;> rfl

/-- Where there is a frame, there is a cell. -/
theorem lt_size_of_frame? {loc : Loc} {frame : Frame} (h : s.frame? loc = some frame) :
    loc < s.size :=
  lt_size (frame?_eq_some.1 h)

theorem valueAt?_eq_some {name : String} {loc : Loc} {r : Ref} :
    s.valueAt? name loc = some r ↔
      ∃ frame, s.frame? loc = some frame ∧ frame.get? name = some r := by
  simp [valueAt?, Option.bind_eq_some_iff]

/-! ## Rankings -/

/-- References inside of data lead downwards, or from a pair to itself; captured frames lie below
what has captured them, and have no bindings. -/
structure Ranked (s : Store) (rank : Loc → Nat) : Prop where
  data : ∀ {l node q}, s.node? (.cell l) = some node → .cell q ∈ node.data →
    q < s.size ∧ s.frame? q = none ∧ (q = l ∨ rank q < rank l)
  captured : ∀ {l node env}, s.node? (.cell l) = some node → node.captured = some env →
    (∃ outer, s.frame? env = some { outer }) ∧ rank env < rank l

/-- The ranking is right for a store with the same contents. -/
theorem Ranked.congr {rank : Loc → Nat} (ranked : s.Ranked rank)
    (same : ∀ r, s'.node? r = s.node? r) : s'.Ranked rank := by
  have size := size_eq_of_node? same
  have frames (l : Loc) : s'.frame? l = s.frame? l := by rw [frame?_eq, frame?_eq, same]
  constructor
  · intro l node q found member
    rw [size, frames]
    exact ranked.data (same _ ▸ found) member
  · intro l node env found captures
    rw [frames]
    exact ranked.captured (same _ ▸ found) captures

/-- A new cell can be given any rank above what it refers to. -/
theorem Ranked.register {rank : Loc → Nat} (ranked : s.Ranked rank) {node : Node} {k : Nat}
    (data : ∀ q, .cell q ∈ node.data → q < s.size ∧ s.frame? q = none ∧ rank q < k)
    (captured : ∀ env, node.captured = some env →
      (∃ outer, s.frame? env = some { outer }) ∧ rank env < k) :
    (s.register node).Ranked (Function.update rank s.size k) := by
  have frames {l : Loc} (old : l < s.size) : (s.register node).frame? l = s.frame? l := by
    rw [frame?_eq, frame?_eq, node?_register, if_neg (by simpa using Nat.ne_of_lt old)]
  have same {l : Loc} (old : l < s.size) : Function.update rank s.size k l = rank l :=
    Function.update_of_ne (Nat.ne_of_lt old) _ _
  constructor
  · intro l node' q found member
    rw [node?_register] at found
    split at found
    · rename_i new
      obtain rfl : l = s.size := by simpa using new
      obtain rfl := Option.some.inj found
      obtain ⟨old, plain, below⟩ := data q member
      rw [frames old, same old, Function.update_self, size_register]
      exact ⟨by omega, plain, .inr below⟩
    · obtain ⟨old, plain, below⟩ := ranked.data found member
      rw [frames old, same old, same (lt_size found), size_register]
      exact ⟨by omega, plain, below⟩
  · intro l node' env found captures
    rw [node?_register] at found
    split at found
    · rename_i new
      obtain rfl : l = s.size := by simpa using new
      obtain rfl := Option.some.inj found
      obtain ⟨⟨outer, frame⟩, below⟩ := captured env captures
      have old := lt_size_of_frame? frame
      rw [frames old, same old, Function.update_self]
      exact ⟨⟨outer, frame⟩, below⟩
    · obtain ⟨⟨outer, frame⟩, below⟩ := ranked.captured found captures
      have old := lt_size_of_frame? frame
      rw [frames old, same old, same (lt_size found)]
      exact ⟨⟨outer, frame⟩, below⟩

/-- Contents other than a frame can be exchanged for others that refer to what lies below. -/
theorem Ranked.write {rank : Loc → Nat} (ranked : s.Ranked rank) {p : Loc} {old node : Node}
    (found : s.node? (.cell p) = some old) (plain : old.frame? = none) (plain' : node.frame? = none)
    (data : ∀ q, .cell q ∈ node.data →
      q < s.size ∧ s.frame? q = none ∧ (q = p ∨ rank q < rank p))
    (captured : ∀ env, node.captured = some env →
      (∃ outer, s.frame? env = some { outer }) ∧ rank env < rank p) :
    (s.write p node).Ranked rank := by
  have frames (l : Loc) : (s.write p node).frame? l = s.frame? l := by
    rw [frame?_eq, frame?_eq, node?_write s (lt_size found)]
    split
    · rename_i here
      rw [here, found]
      simp [plain, plain']
    · rfl
  constructor
  · intro l node' q found' member
    rw [node?_write s (lt_size found)] at found'
    rw [size_write, frames]
    split at found'
    · rename_i here
      obtain rfl : l = p := by simpa using here
      obtain rfl := Option.some.inj found'
      exact data q member
    · exact ranked.data found' member
  · intro l node' env found' captures
    rw [node?_write s (lt_size found)] at found'
    rw [frames]
    split at found'
    · rename_i here
      obtain rfl : l = p := by simpa using here
      obtain rfl := Option.some.inj found'
      exact captured env captures
    · exact ranked.captured found' captures

/-- A definition in a frame that is not captured leaves the ranking right. -/
theorem Ranked.define {rank : Loc → Nat} (ranked : s.Ranked rank) {env : Loc}
    (scope : ∀ l node, s.node? (.cell l) = some node → node.captured ≠ some env) (name : String)
    (value : Ref) : (s.define env name value).Ranked rank := by
  rw [Store.define]
  split
  · rename_i frame here
    have found := frame?_eq_some.1 here
    have frames {l : Loc} (other : l ≠ env) :
        (s.write env (.environment (frame.define name value))).frame? l = s.frame? l := by
      rw [frame?_eq, frame?_eq, node?_write_of_ne s _ (by simpa using other)]
    constructor
    · intro l node q found' member
      rw [node?_write s (lt_size found)] at found'
      split at found'
      · obtain rfl := Option.some.inj found'
        simp [Node.data] at member
      · obtain ⟨exist, plain, below⟩ := ranked.data found' member
        have other : q ≠ env := by
          rintro rfl
          simp [plain] at here
        rw [frames other, size_write]
        exact ⟨exist, plain, below⟩
    · intro l node env' found' captures
      rw [node?_write s (lt_size found)] at found'
      split at found'
      · obtain rfl := Option.some.inj found'
        simp [Node.captured] at captures
      · have other : env' ≠ env := by
          rintro rfl
          exact scope l node found' captures
        rw [frames other]
        exact ranked.captured found' captures
  · exact ranked

/-! ## Maps of owners -/

/-- The pair at `p`, if there is one, owns what its fields hold, itself excepted. -/
def Keeps (s : Store) (owner : Loc → Option Holder) (p : Loc) : Prop :=
  ∀ fields, s.pair? (.cell p) = some fields → ∀ (field : Field) (q : Loc),
    field.get fields = .cell q → q ≠ p → owner q = some (.field p field)

/-- Every binding owns what it is bound to, and every pair with an owner owns what it holds. -/
structure Owned (s : Store) (owner : Loc → Option Holder) : Prop where
  slots : ∀ {env name q}, s.valueAt? name env = some (.cell q) →
    q < s.size ∧ s.frame? q = none ∧ owner q = some (.slot env name)
  fields : ∀ {p}, owner p ≠ none → s.Keeps owner p
  vacant : ∀ {p}, s.size ≤ p → owner p = none

/-- A value without an owner that can be given one. -/
def Free (s : Store) (owner : Loc → Option Holder) (r : Ref) : Prop :=
  ∀ q, r = .cell q → q < s.size ∧ s.frame? q = none ∧ owner q = none ∧ s.Keeps owner q

/-- Give an owner to what a reference leads to. -/
def give (owner : Loc → Option Holder) (holder : Holder) : Ref → Loc → Option Holder
  | .nil => owner
  | .cell q => Function.update owner q (some holder)

section Owners

variable {owner : Loc → Option Holder}

theorem give_of_ne {holder : Holder} {r : Ref} {q : Loc} (other : r ≠ .cell q) :
    give owner holder r q = owner q := by
  cases r with
  | nil => rfl
  | cell p => exact Function.update_of_ne (by rintro rfl; exact other rfl) _ _

theorem Keeps.congr {p : Loc} (keeps : s.Keeps owner p)
    (same : s'.node? (.cell p) = s.node? (.cell p)) : s'.Keeps owner p := by
  rw [Keeps]
  rw [pair?_eq, same, ← pair?_eq]
  exact keeps

/-- What a pair owns is not a value without an owner. -/
theorem Keeps.give {p : Loc} (keeps : s.Keeps owner p) {r : Ref} (free : s.Free owner r)
    (holder : Holder) : s.Keeps (give owner holder r) p := by
  intro fields found field q held other
  have owned := keeps fields found field q held other
  rw [give_of_ne ?_, owned]
  intro same
  simp [(free q same).2.2.1] at owned

theorem Owned.congr (owned : s.Owned owner) (same : ∀ r, s'.node? r = s.node? r) :
    s'.Owned owner := by
  have size := size_eq_of_node? same
  have frames (l : Loc) : s'.frame? l = s.frame? l := by rw [frame?_eq, frame?_eq, same]
  constructor
  · intro env name q bound
    rw [valueAt?] at bound
    rw [frames] at bound
    rw [size, frames]
    exact owned.slots bound
  · intro p has
    exact (owned.fields has).congr (same _)
  · intro p beyond
    exact owned.vacant (size ▸ beyond)

/-- A value without an owner can be given any. -/
theorem Owned.give (owned : s.Owned owner) {r : Ref} (free : s.Free owner r) (holder : Holder) :
    s.Owned (give owner holder r) := by
  constructor
  · intro env name q bound
    obtain ⟨exist, plain, isOwner⟩ := owned.slots bound
    refine ⟨exist, plain, ?_⟩
    rw [give_of_ne ?_, isOwner]
    intro same
    simp [(free q same).2.2.1] at isOwner
  · intro p has
    by_cases here : r = .cell p
    · exact (free p here).2.2.2.give free holder
    · rw [give_of_ne here] at has
      exact (owned.fields has).give free holder
  · intro p beyond
    rw [give_of_ne ?_, owned.vacant beyond]
    intro same
    exact absurd (free p same).1 (Nat.not_lt.2 beyond)

/-- A new cell that binds nothing needs no owner. -/
theorem Owned.register (owned : s.Owned owner) {node : Node}
    (binds : ∀ frame, node = .environment frame → frame.bindings = []) :
    (s.register node).Owned owner := by
  have same {l : Loc} (other : l ≠ s.size) :
      (s.register node).node? (.cell l) = s.node? (.cell l) := by
    rw [node?_register, if_neg (by simpa using other)]
  constructor
  · intro env name q bound
    obtain ⟨frame, here, value⟩ := valueAt?_eq_some.1 bound
    have other : env ≠ s.size := by
      rintro rfl
      rw [frame?_eq_some, node?_register, if_pos rfl, Option.some.injEq] at here
      simp [Frame.get?, binds frame here] at value
    rw [frame?_eq_some, same other, ← frame?_eq_some] at here
    obtain ⟨exist, plain, isOwner⟩ := owned.slots (valueAt?_eq_some.2 ⟨frame, here, value⟩)
    rw [size_register, frame?_eq, same (Nat.ne_of_lt exist), ← frame?_eq]
    exact ⟨Nat.lt_succ_of_lt exist, plain, isOwner⟩
  · intro p has
    have other : p ≠ s.size := by
      rintro rfl
      exact has (owned.vacant (Nat.le_refl _))
    exact (owned.fields has).congr (same other)
  · intro p beyond
    rw [size_register] at beyond
    exact owned.vacant (by omega)

/-- A definition leaves the map right if the value has the binding as its owner. -/
theorem Owned.define (owned : s.Owned owner) {env : Loc} {name : String} {value : Ref}
    (isOwner : ∀ q, value = .cell q →
      q < s.size ∧ s.frame? q = none ∧ owner q = some (.slot env name)) :
    (s.define env name value).Owned owner := by
  rw [Store.define]
  split
  · rename_i frame here
    have found := frame?_eq_some.1 here
    have same {l : Loc} (other : l ≠ env) :
        (s.write env (.environment (frame.define name value))).node? (.cell l) =
          s.node? (.cell l) :=
      node?_write_of_ne s _ (by simpa using other)
    have plain {q : Loc} (exist : q < s.size) (none : s.frame? q = none) :
        q < (s.write env (.environment (frame.define name value))).size ∧
          (s.write env (.environment (frame.define name value))).frame? q = Option.none := by
      have other : q ≠ env := by
        rintro rfl
        simp [none] at here
      rw [size_write, frame?_eq, same other, ← frame?_eq]
      exact ⟨exist, none⟩
    constructor
    · intro env' name' q bound
      have held : (env' = env ∧ name' = name ∧ value = .cell q) ∨
          s.valueAt? name' env' = some (.cell q) := by
        obtain ⟨frame', here', value'⟩ := valueAt?_eq_some.1 bound
        rw [frame?_eq_some, node?_write s (lt_size found)] at here'
        split at here'
        · rename_i eq
          obtain rfl : env' = env := by simpa using eq
          obtain rfl : frame.define name value = frame' := by simpa using here'
          rw [Frame.get?_define] at value'
          split at value'
          · exact .inl ⟨rfl, ‹_›, by simpa using value'⟩
          · exact .inr (valueAt?_eq_some.2 ⟨frame, here, value'⟩)
        · exact .inr (valueAt?_eq_some.2 ⟨frame', frame?_eq_some.2 here', value'⟩)
      rcases held with ⟨rfl, rfl, eq⟩ | before
      · obtain ⟨exist, none, has⟩ := isOwner q eq
        obtain ⟨exist, none⟩ := plain exist none
        exact ⟨exist, none, has⟩
      · obtain ⟨exist, none, has⟩ := owned.slots before
        obtain ⟨exist, none⟩ := plain exist none
        exact ⟨exist, none, has⟩
    · intro p has
      by_cases here' : p = env
      · subst here'
        intro fields pair
        rw [pair?_eq, node?_write s (lt_size found), if_pos rfl] at pair
        simp [Node.fields?] at pair
      · exact (owned.fields has).congr (same here')
    · intro p beyond
      rw [size_write] at beyond
      exact owned.vacant beyond
  · exact owned

/-- Contents other than a frame can be exchanged if a pair that is put there owns what it holds. -/
theorem Owned.write (owned : s.Owned owner) {p : Loc} {old node : Node}
    (found : s.node? (.cell p) = some old) (plain : old.frame? = none) (plain' : node.frame? = none)
    (keeps : owner p ≠ none → ∀ fields, node.fields? = some fields → ∀ (field : Field) (q : Loc),
      field.get fields = .cell q → q ≠ p → owner q = some (.field p field)) :
    (s.write p node).Owned owner := by
  have frames (l : Loc) : (s.write p node).frame? l = s.frame? l := by
    rw [frame?_eq, frame?_eq, node?_write s (lt_size found)]
    split
    · rename_i here
      rw [here, found]
      simp [plain, plain']
    · rfl
  constructor
  · intro env name q bound
    rw [valueAt?] at bound
    rw [frames] at bound
    rw [size_write, frames]
    exact owned.slots bound
  · intro l has
    by_cases here : l = p
    · subst here
      intro fields pair
      rw [pair?_eq, node?_write s (lt_size found), if_pos rfl] at pair
      exact keeps has fields pair
    · exact (owned.fields has).congr (node?_write_of_ne s _ (by simpa using here))
  · intro l beyond
    rw [size_write] at beyond
    exact owned.vacant beyond

end Owners

end Store

end LittleScheme
