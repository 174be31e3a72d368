import LittleScheme.Proofs.Evaluation.Heredity

/-!
# Registered values

What evaluation makes it registers, and it links registered values only.  So the register is closed
under references, and it holds as many values as were ever registered and not yet found dead: this
is `Store.Closed`, and `registration` is the discipline of closed stores.
-/

namespace LittleScheme

namespace Store

/-- The reference leads to no value, or to a registered one. -/
def Knows (s : Store) (r : Ref) : Prop := ∀ loc, r = .cell loc → loc ∈ s.registry

/-- Registered values refer to registered values, and those that are registered are those that
were ever registered less those found dead. -/
structure Closed (s : Store) : Prop where
  exist : ∀ loc ∈ s.registry, loc < s.size
  children : ∀ loc ∈ s.registry, ∀ node, s.node? (.cell loc) = some node →
    ∀ c ∈ node.children, s.Knows c
  nodup : s.registry.Nodup
  count : s.live + s.reclaimed = s.allocations

theorem knows_nil (s : Store) : s.Knows .nil := by simp [Knows]

@[simp] theorem knows_cell {s : Store} {loc : Loc} : s.Knows (.cell loc) ↔ loc ∈ s.registry := by
  simp [Knows]

theorem Knows.mono {s s' : Store} (more : s.registry ⊆ s'.registry) {r : Ref} (h : s.Knows r) :
    s'.Knows r :=
  fun loc eq => more (h loc eq)

/-- A new value that refers to registered ones. -/
theorem Closed.register {s : Store} (closed : s.Closed) {node : Node}
    (children : ∀ c ∈ node.children, s.Knows c) : (s.register node).Closed := by
  have more : s.registry ⊆ (s.register node).registry := List.subset_cons_self _ _
  constructor
  · intro loc member
    rcases List.mem_cons.1 member with rfl | old
    · simp
    · simpa using Nat.lt_succ_of_lt (closed.exist loc old)
  · intro loc member node' found c child
    rw [node?_register] at found
    split at found
    · obtain rfl := Option.some.inj found
      exact (children c child).mono more
    · rcases List.mem_cons.1 member with rfl | old
      · simp_all
      · exact (closed.children loc old node' found c child).mono more
  · refine List.nodup_cons.2 ⟨?_, closed.nodup⟩
    intro member
    exact Nat.lt_irrefl _ (closed.exist _ member)
  · have count := closed.count
    simp only [Store.register, live, List.length_cons] at count ⊢
    omega

/-- A cell whose contents change to something that refers to registered values. -/
theorem Closed.write {s : Store} (closed : s.Closed) {loc : Loc} {node : Node}
    (children : loc ∈ s.registry → ∀ c ∈ node.children, s.Knows c) :
    (s.write loc node).Closed := by
  constructor
  · intro loc' member
    simpa using closed.exist loc' member
  · intro loc' member node' found c child
    have inside : loc' < s.size := closed.exist loc' member
    by_cases same : loc' = loc
    · subst same
      rw [node?_write s inside, if_pos rfl] at found
      obtain rfl := Option.some.inj found
      exact children member c child
    · rw [node?_write_of_ne s node (by simpa using same)] at found
      exact closed.children loc' member node' found c child
  · exact closed.nodup
  · exact closed.count

end Store

/-! ## The discipline -/

/-- The discipline of stores whose register is closed. -/
def registration : Discipline where
  Sound := Store.Closed
  Value := Store.Knows
  Scope s env := env ∈ s.registry
  Captured s env := env ∈ s.registry

namespace registration

variable {s s' : Store}

theorem keeps (closed : s'.Closed) (more : s.registry ⊆ s'.registry) : registration.Keeps s s' :=
  ⟨closed, fun known => known.mono more, fun scope => more scope, fun captured => more captured⟩

theorem allocate (closed : s.Closed) {node : Node} (children : ∀ c ∈ node.children, s.Knows c) :
    registration.Runs (LittleScheme.allocate node) s fun loc s' => loc ∈ s'.registry :=
  .of_ok rfl (keeps (closed.register children) (List.subset_cons_self _ _))
    (by simp [Store.register])

/-- What is registered refers to what is registered. -/
theorem hereditary : registration.Hereditary fun _ => True where
  nil := Store.knows_nil _
  scope := Store.knows_cell.symm
  captured := Store.knows_cell.symm
  fits _ _ _ _ _ := trivial
  parts {s r node} closed known found := by
    cases r with
    | nil => simp [Store.node?] at found
    | cell loc => exact closed.children loc (known loc rfl) node found
  register closed _ children :=
    ⟨keeps (closed.register children) (List.subset_cons_self _ _),
      Store.knows_cell.2 (by simp [Store.register])⟩
  write _ closed _ children := keeps (closed.write fun _ => children) (List.Subset.refl _)

end registration

/-- Evaluation keeps registers closed. -/
theorem lawful_registration : registration.Lawful := registration.hereditary.lawful

end LittleScheme
