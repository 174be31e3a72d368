import LittleScheme.Proofs.Store.Discipline

/-!
# Adding to a store

Making values and copying them adds cells to a store and leaves alone those that are there, with
their contents and their marks.  This is `Store.Extended`, which holds of any store and however the
copying ends, since the only cells that a copy writes to are its own.
-/

namespace LittleScheme

/-- The store that a computation leaves behind, however it ends. -/
def StoreM.storeAfter {α : Type} (action : StoreM α) (s : Store) : Store :=
  match action s with
  | .ok _ s' => s'
  | .error _ s' => s'

/-- Where two computations end well, the first of them does. -/
theorem StoreM.exists_of_bind {α β : Type} {action : StoreM α} {next : α → StoreM β} {s s' : Store}
    {b : β} (ended : (action >>= next) s = .ok b s') :
    ∃ a s₁, action s = .ok a s₁ ∧ next a s₁ = .ok b s' := by
  cases h : action s with
  | ok a s₁ => exact ⟨a, s₁, rfl, (StoreM.bind_ok h next).symm.trans ended⟩
  | error fault s₁ => exact absurd ((StoreM.bind_error h next).symm.trans ended) (by simp)

/-- A computation that keeps to a discipline leaves a sound store behind. -/
theorem Discipline.Runs.sound_storeAfter {d : Discipline} {α : Type} {action : StoreM α} {s : Store}
    {post : α → Store → Prop} (runs : d.Runs action s post) :
    d.Sound (StoreM.storeAfter action s) := by
  rw [StoreM.storeAfter]
  split
  · exact (runs.ok ‹_›).1.sound
  · exact (runs.error ‹_›).sound

namespace Store

/-- The cells of `s` are cells of `s'` with the same contents and the same marks, and what was
registered still is. -/
structure Extended (s s' : Store) : Prop where
  cell : ∀ {loc : Loc} {cell : Cell}, s.cells[loc]? = some cell → s'.cells[loc]? = some cell
  registered : s.registry ⊆ s'.registry

variable {s s' s'' : Store}

theorem Extended.refl (s : Store) : s.Extended s := ⟨id, List.Subset.refl _⟩

theorem Extended.trans (first : s.Extended s') (second : s'.Extended s'') : s.Extended s'' :=
  ⟨fun found => second.cell (first.cell found),
    List.Subset.trans first.registered second.registered⟩

theorem Extended.node? (extended : s.Extended s') {r : Ref} {node : Node}
    (found : s.node? r = some node) : s'.node? r = some node := by
  cases r with
  | nil => exact found
  | cell loc =>
    obtain ⟨cell, here, rfl⟩ := Option.map_eq_some_iff.1 found
    simp [Store.node?, extended.cell here]

theorem Extended.node?_eq (extended : s.Extended s') {loc : Loc} (old : loc < s.size) :
    s'.node? (.cell loc) = s.node? (.cell loc) := by
  obtain ⟨node, found⟩ := exists_node? old
  rw [found, extended.node? found]

theorem Extended.isMarked (extended : s.Extended s') {loc : Loc} (old : loc < s.size) :
    s'.isMarked (.cell loc) = s.isMarked (.cell loc) := by
  have here : s.cells[loc]? = some s.cells[loc] := Array.getElem?_eq_getElem old
  simp only [Store.isMarked, here, extended.cell here]

theorem Extended.size_le (extended : s.Extended s') : s.size ≤ s'.size := by
  refine Nat.le_of_not_lt fun less => ?_
  obtain ⟨node, found⟩ := exists_node? less
  exact absurd (lt_size (extended.node? found)) (Nat.lt_irrefl _)

theorem isMarked_write (s : Store) (loc : Loc) (node : Node) (r : Ref) :
    (s.write loc node).isMarked r = s.isMarked r := by
  cases r with
  | nil => rfl
  | cell loc' =>
    by_cases here : loc = loc'
    · subst here
      cases found : s.cells[loc]? <;> simp [isMarked, write, Array.getElem?_modify, found]
    · simp [isMarked, write, Array.getElem?_modify, here]

theorem extended_register (s : Store) (node : Node) : s.Extended (s.register node) := by
  refine ⟨?_, List.subset_cons_self _ _⟩
  intro loc cell found
  obtain ⟨old, -⟩ := Array.getElem?_eq_some_iff.1 found
  simp [register, Array.getElem?_push, Nat.ne_of_lt old, found]

/-- What is written to a cell that was added is no matter to the others. -/
theorem Extended.write (extended : s.Extended s') {loc : Loc} (new : s.size ≤ loc) (node : Node) :
    s.Extended (s'.write loc node) := by
  refine ⟨?_, extended.registered⟩
  intro loc' cell found
  obtain ⟨old, -⟩ := Array.getElem?_eq_some_iff.1 found
  have other : loc ≠ loc' := Nat.ne_of_gt (Nat.lt_of_lt_of_le old new)
  simp [Store.write, Array.getElem?_modify, other, extended.cell found]

end Store

/-! ## Copying -/

/-- The discipline of the stores that extend `s`. -/
def extension (s : Store) : Discipline where
  Sound t := s.Extended t
  Value _ _ := True
  Scope _ _ := True
  Captured _ _ := True

namespace extension

variable {s t t' : Store}

theorem keeps (extended : s.Extended t') : (extension s).Keeps t t' :=
  ⟨extended, fun _ => trivial, fun _ => trivial, fun _ => trivial⟩

theorem allocate (extended : s.Extended t) (node : Node) :
    (extension s).Runs (LittleScheme.allocate node) t fun loc _ => s.size ≤ loc :=
  .of_ok rfl (keeps (extended.trans (t.extended_register node))) extended.size_le

theorem make (extended : s.Extended t) (node : Node) :
    (extension s).Runs (LittleScheme.make node) t (extension s).Result :=
  (allocate extended node).bind fun _ _ kept _ => .pure kept.sound trivial

theorem overwrite (extended : s.Extended t) {loc : Loc} (new : s.size ≤ loc) (node : Node) :
    (extension s).Runs (LittleScheme.overwrite loc node) t fun _ _ => True :=
  .of_ok rfl (keeps (extended.write new node)) trivial

theorem copyBindings {copy : Ref → StoreM Ref}
    (one : ∀ {t r}, s.Extended t → (extension s).Runs (copy r) t (extension s).Result)
    (extended : s.Extended t) (bindings : List (String × Ref)) :
    (extension s).Runs (LittleScheme.copyBindings copy bindings) t fun _ _ => True := by
  induction bindings generalizing t with
  | nil => exact .pure extended trivial
  | cons binding rest ih =>
    refine (one extended).bind ?_
    intro _ t₁ kept₁ _
    refine (ih kept₁.sound).bind ?_
    intro _ t₂ kept₂ _
    exact .pure kept₂.sound trivial

theorem copyEach {copy : Ref → StoreM Ref}
    (one : ∀ {t r}, s.Extended t → (extension s).Runs (copy r) t (extension s).Result)
    (extended : s.Extended t) (rs : List Ref) :
    (extension s).Runs (LittleScheme.copyEach copy rs) t (extension s).Results :=
  .copyEach (fun _ _ => trivial) (fun extended _ _ => one extended) extended trivial
    fun _ _ => trivial

theorem copyCaptured {copy : Ref → StoreM Ref}
    (one : ∀ {t r}, s.Extended t → (extension s).Runs (copy r) t (extension s).Result)
    (extended : s.Extended t) (env : Option Loc) :
    (extension s).Runs (LittleScheme.copyCaptured copy env) t fun _ _ => True := by
  cases env with
  | none => exact .pure extended trivial
  | some env => exact (one extended).bind fun _ _ kept _ => .pure kept.sound trivial

/-- A copy writes to no cell but its own. -/
theorem copyFrom (fuel depth : Nat) (active : Active) (r : Ref) (extended : s.Extended t) :
    (extension s).Runs (LittleScheme.copyFrom fuel depth active r) t (extension s).Result := by
  induction fuel generalizing t depth active r with
  | zero =>
    cases r with
    | nil => exact .pure extended trivial
    | cell loc => exact .throw extended
  | succ fuel ih =>
    cases r with
    | nil => exact .pure extended trivial
    | cell loc =>
      cases depth with
      | zero => exact .throw extended
      | succ depth =>
        rw [LittleScheme.copyFrom]
        split
        · exact .pure extended trivial
        · refine .look ?_
          split
          · exact .pure extended trivial
          · refine (allocate extended _).bind ?_
            intro copy t₁ kept₁ new
            refine (ih _ _ _ kept₁.sound).bind ?_
            intro _ t₂ kept₂ _
            refine (ih _ _ _ kept₂.sound).bind ?_
            intro _ t₃ kept₃ _
            exact (overwrite kept₃.sound new _).bind fun _ _ kept _ => .pure kept.sound trivial
          · refine (allocate extended _).bind ?_
            intro copy t₁ kept₁ new
            refine (copyBindings (ih _ _ _) kept₁.sound _).bind ?_
            intro _ t₂ kept₂ _
            exact (overwrite kept₂.sound new _).bind fun _ _ kept _ => .pure kept.sound trivial
          · refine (allocate extended _).bind ?_
            intro copy t₁ kept₁ new
            refine (copyEach (ih _ _ _) kept₁.sound _).bind ?_
            intro _ t₂ kept₂ _
            refine (copyEach (ih _ _ _) kept₂.sound _).bind ?_
            intro _ t₃ kept₃ _
            refine (copyCaptured (ih _ _ _) kept₃.sound _).bind ?_
            intro _ t₄ kept₄ _
            exact (overwrite kept₄.sound new _).bind fun _ _ kept _ => .pure kept.sound trivial
          · exact make extended _

/-- What extends a later store extends an earlier one. -/
theorem weaken {α : Type} {action : StoreM α} {post : α → Store → Prop} {u : Store}
    (extended : s.Extended t) (runs : (extension t).Runs action u post) :
    (extension s).Runs action u fun _ u' => t.Extended u' :=
  ⟨fun ended => ⟨keeps (extended.trans (runs.ok ended).1.sound), (runs.ok ended).1.sound⟩,
    fun ended => keeps (extended.trans (runs.error ended).sound)⟩

/-- The cell that a copy began with holds in the end what is written to it. -/
theorem fill {blank : Node} (extended : (s.register blank).Extended t) (node : Node) :
    (extension s).Runs (LittleScheme.overwrite s.size node >>= fun _ => Pure.pure (.cell s.size)) t
      fun c t' => t'.node? c = some node := by
  have inside : s.size < t.size := by
    have := extended.size_le
    rw [Store.size_register] at this
    omega
  have extended' := (s.extended_register blank).trans extended
  refine .of_ok rfl (keeps (extended'.write (Nat.le_refl _) node)) ?_
  rw [Store.node?_write t inside, if_pos rfl]

/-- A copy is tagged as the original is, unless it leads to a copy that is under way. -/
theorem tag_copyFrom (fuel depth : Nat) {active : Active} {r : Ref}
    (apart : ∀ loc, r = .cell loc → active[loc]? = none) (s : Store) :
    (extension s).Runs (LittleScheme.copyFrom fuel depth active r) s fun c t =>
      (t.node? c).bind Node.tag? = (s.node? r).bind Node.tag? := by
  cases r with
  | nil =>
    rw [LittleScheme.copyFrom]
    exact .pure (.refl s) rfl
  | cell loc =>
    cases fuel with
    | zero => exact .throw (.refl s)
    | succ fuel =>
      cases depth with
      | zero => exact .throw (.refl s)
      | succ depth =>
        have first {blank : Node} : (extension s).Runs (LittleScheme.allocate blank) s fun loc t =>
            loc = s.size ∧ t = s.register blank :=
          .of_ok rfl (keeps (s.extended_register blank)) ⟨rfl, rfl⟩
        rw [LittleScheme.copyFrom, apart loc rfl]
        refine .look ?_
        split
        · rename_i found
          exact .pure (.refl s) (by rw [found]; rfl)
        · rename_i found
          refine first.bind ?_
          rintro _ _ - ⟨rfl, rfl⟩
          refine (weaken (s.extended_register _) (copyFrom _ _ _ _ (.refl _))).bind ?_
          intro _ t₁ _ extended₁
          refine (weaken (s.extended_register _) (copyFrom _ _ _ _ extended₁)).bind ?_
          intro _ t₂ _ extended₂
          exact (fill extended₂ _).imp fun c t' filled => by rw [filled, found]; rfl
        · rename_i found
          refine first.bind ?_
          rintro _ _ - ⟨rfl, rfl⟩
          refine (weaken (s.extended_register _)
            (copyBindings (copyFrom _ _ _ _) (.refl _) _)).bind ?_
          intro _ t₁ _ extended₁
          exact (fill extended₁ _).imp fun c t' filled => by rw [filled, found]; rfl
        · rename_i found
          refine first.bind ?_
          rintro _ _ - ⟨rfl, rfl⟩
          refine (weaken (s.extended_register _) (copyEach (copyFrom _ _ _ _) (.refl _) _)).bind ?_
          intro _ t₁ _ extended₁
          refine (weaken (s.extended_register _) (copyEach (copyFrom _ _ _ _) extended₁ _)).bind ?_
          intro _ t₂ _ extended₂
          refine (weaken (s.extended_register _)
            (copyCaptured (copyFrom _ _ _ _) extended₂ _)).bind ?_
          intro _ t₃ _ extended₃
          exact (fill extended₃ _).imp fun c t' filled => by rw [filled, found]; rfl
        · rename_i found
          refine first.bind ?_
          rintro _ _ kept ⟨rfl, rfl⟩
          exact .pure kept.sound (by rw [Store.node?_register, if_pos rfl, found])

end extension

/-- Copying extends the store, however it ends. -/
theorem duplicate_extended (depth : Nat) (r : Ref) (s : Store) :
    s.Extended (StoreM.storeAfter (duplicate depth r) s) :=
  Discipline.Runs.sound_storeAfter
    (.get (extension.copyFrom _ depth ∅ r (.refl s)) : (extension s).Runs (duplicate depth r) s _)

/-- A copy of a procedure is a procedure. -/
theorem tag_duplicate {depth : Nat} {r c : Ref} {s s' : Store}
    (copied : duplicate depth r s = .ok c s') :
    (s'.node? c).bind Node.tag? = (s.node? r).bind Node.tag? := by
  have runs : (extension s).Runs (duplicate depth r) s fun c t =>
      (t.node? c).bind Node.tag? = (s.node? r).bind Node.tag? :=
    .get (extension.tag_copyFrom _ depth (by simp) s)
  exact (runs.ok copied).2

end LittleScheme
