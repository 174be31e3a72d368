import LittleScheme.Proofs.Store.Renaming

/-!
# Computations in renamed stores

If one store is found in another, a computation that makes values and changes them does the same in
both.  The cells that are made on both sides are the next ones of either store, so it is still the
same renaming by which one store is found in the other.

Copies are the same as well.  The two sides allow for paths of different lengths, but the values
along a path are distinct cells of the store in which the copying began.  What is copied must lead
to cells of that store, since otherwise it might lead to cells that are made for the copy.
-/

namespace LittleScheme

/-- Both computations have come to the same end.  The results correspond as `g` says, and the first
one is as asked; the first store has at least `n` cells and is found in the second one. -/
inductive Tracks (f : Loc → Loc) (n : Nat) {α β : Type} (g : α → β) (post : α → Store → Prop) :
    EStateM.Result Fault Store α → EStateM.Result Fault Store β → Prop
  | ok {a : α} {b : β} {s t : Store} (renamed : s.Renamed f t) (grown : n ≤ s.size)
    (asked : post a s) (same : b = g a) : Tracks f n g post (.ok a s) (.ok b t)
  | error {fault : Fault} {s t : Store} (renamed : s.Renamed f t) (grown : n ≤ s.size) :
    Tracks f n g post (.error fault s) (.error fault t)

/-- Both computations have come to the same reference. -/
abbrev TracksRef (f : Loc → Loc) (n : Nat) :=
  Tracks f n (Ref.rename f) fun r s => s.Has r

/-- Both computations have come to the same references. -/
abbrev TracksRefs (f : Loc → Loc) (n : Nat) :=
  Tracks f n (List.map (Ref.rename f)) fun rs s => s.HasAll rs

/-- Both computations have come to the same cell. -/
abbrev TracksLoc (f : Loc → Loc) (n : Nat) :=
  Tracks f n f fun loc s => loc < s.size

/-- Both computations have come to the same result, which has nothing to do with cells. -/
abbrev TracksSame (f : Loc → Loc) (n : Nat) {α : Type} :=
  @Tracks f n α α id fun _ _ => True

variable {f : Loc → Loc} {s t : Store} {α α' β β' : Type}

/-! ## Composing computations -/

namespace Tracks

variable {n : Nat} {g : α → α'} {h : β → β'} {post : α → Store → Prop} {post' : β → Store → Prop}

theorem pure {a : α} (renamed : s.Renamed f t) (asked : post a s) :
    Tracks f s.size g post ((Pure.pure a : StoreM α) s) ((Pure.pure (g a) : StoreM α') t) :=
  .ok renamed (Nat.le_refl _) asked rfl

theorem throw (fault : Fault) (renamed : s.Renamed f t) :
    Tracks f s.size g post ((MonadExcept.throw fault : StoreM α) s)
      ((MonadExcept.throw fault : StoreM α') t) :=
  .error renamed (Nat.le_refl _)

theorem fail {e : Error} (renamed : s.Renamed f t) :
    Tracks f s.size g post (LittleScheme.fail e s) (LittleScheme.fail e t) :=
  throw _ renamed

theorem imp {post' : α → Store → Prop} {ended : EStateM.Result Fault Store α}
    {ended' : EStateM.Result Fault Store α'} {m : Nat} (less : n ≤ m)
    (tracks : Tracks f m g post ended ended') (imp : ∀ a s, m ≤ s.size → post a s → post' a s) :
    Tracks f n g post' ended ended' := by
  cases tracks with
  | ok renamed grown asked same =>
    exact .ok renamed (Nat.le_trans less grown) (imp _ _ grown asked) same
  | error renamed grown => exact .error renamed (Nat.le_trans less grown)

theorem bind {action : StoreM α} {action' : StoreM α'} {next : α → StoreM β}
    {next' : α' → StoreM β'} (first : Tracks f s.size g post (action s) (action' t))
    (second : ∀ a s' t', s'.Renamed f t' → s.size ≤ s'.size → post a s' →
      Tracks f s'.size h post' (next a s') (next' (g a) t')) :
    Tracks f s.size h post' ((action >>= next) s) ((action' >>= next') t) := by
  change Tracks f s.size h post' (EStateM.bind action next s) (EStateM.bind action' next' t)
  rw [EStateM.bind, EStateM.bind]
  generalize action s = ended, action' t = ended' at first
  cases first with
  | ok renamed grown asked same =>
    subst same
    exact (second _ _ _ renamed grown asked).imp grown fun _ _ _ => id
  | error renamed grown => exact .error renamed grown

/-- The stores are there to be looked at. -/
theorem get {next : Store → StoreM α} {next' : Store → StoreM α'}
    (tracks : Tracks f n g post (next s s) (next' t t)) :
    Tracks f n g post ((MonadState.get >>= next) s) ((MonadState.get >>= next') t) :=
  tracks

theorem look {r : Ref} {next : Option Node → StoreM α} {next' : Option Node → StoreM α'}
    (renamed : s.Renamed f t)
    (tracks : Tracks f n g post (next (s.node? r) s)
      (next' ((s.node? r).map (Node.rename f)) t)) :
    Tracks f n g post ((LittleScheme.look r >>= next) s)
      ((LittleScheme.look (r.rename f) >>= next') t) := by
  change Tracks f n g post (next (s.node? r) s) (next' (t.node? (r.rename f)) t)
  rw [renamed.node?]
  exact tracks

theorem discard {action : StoreM α} {action' : StoreM α'}
    (tracks : Tracks f s.size g post (action s) (action' t)) :
    TracksSame f s.size ((Functor.discard action : StoreM PUnit) s)
      ((Functor.discard action' : StoreM PUnit) t) := by
  rw [StoreM.discard_eq, StoreM.discard_eq]
  exact tracks.bind fun _ _ _ renamed _ _ => .pure renamed trivial

end Tracks

/-! ## Making and changing values -/

theorem tracks_allocate (node : Node) (renamed : s.Renamed f t)
    (children : s.HasAll node.children) :
    Tracks f s.size f (fun loc s' => loc = s.size ∧ s' = s.register node)
      (allocate node s) (allocate (node.rename f) t) :=
  .ok (renamed.register children) (by simp) ⟨rfl, rfl⟩ renamed.new.symm

/-- Both computations have come to the same copy, and only cells were added to the first store. -/
abbrev TracksCopy (f : Loc → Loc) (s : Store) :=
  Tracks f s.size (Ref.rename f) fun c s' => s'.Has c ∧ s.Extended s'

theorem tracks_makeCopy (node : Node) (renamed : s.Renamed f t)
    (children : s.HasAll node.children) :
    TracksCopy f s (make node s) (make (node.rename f) t) := by
  refine (tracks_allocate node renamed children).bind ?_
  rintro _ _ t' renamed' - ⟨rfl, rfl⟩
  exact .pure renamed' ⟨by simp, s.extended_register node⟩

theorem TracksCopy.has {ended ended' : EStateM.Result Fault Store Ref}
    (tracks : TracksCopy f s ended ended') : TracksRef f s.size ended ended' :=
  tracks.imp (Nat.le_refl _) fun _ _ _ => And.left

theorem tracks_make (node : Node) (renamed : s.Renamed f t) (children : s.HasAll node.children) :
    TracksRef f s.size (make node s) (make (node.rename f) t) :=
  (tracks_makeCopy node renamed children).has

theorem tracks_overwrite {loc : Loc} {node : Node} (renamed : s.Renamed f t) (exist : loc < s.size)
    (children : s.HasAll node.children)
    (older : ∀ frame around, node = .environment frame → frame.outer = some around →
      around < loc) :
    TracksSame f s.size (overwrite loc node s) (overwrite (f loc) (node.rename f) t) :=
  .ok (renamed.write exist children older) (by simp) trivial rfl

theorem tracks_define (renamed : s.Renamed f t) (env : Loc) (name : String) {value : Ref}
    (has : s.Has value) :
    TracksSame f s.size (define env name value s) (define (f env) name (value.rename f) t) :=
  .ok (renamed.define env name has) (Nat.le_of_eq (s.size_define env name value).symm) trivial rfl

theorem tracks_resolve (renamed : s.Renamed f t) {env : Loc} (exist : env < s.size)
    (name : String) :
    TracksRef f s.size (resolve env name s) (resolve (f env) name t) := by
  refine .get ?_
  rw [renamed.lookup? exist, renamed.unresolved exist]
  cases bound : s.lookup? env name with
  | none => exact .throw _ renamed
  | some value =>
    exact .pure renamed (tidiness.hereditary.lookup? renamed.tidy.sound exist bound)

theorem tracks_assign (renamed : s.Renamed f t) {env : Loc} (exist : env < s.size) (name : String)
    {value : Ref} (has : s.Has value) :
    TracksRef f s.size (assign env name value s) (assign (f env) name (value.rename f) t) := by
  refine (tracks_resolve renamed exist name).bind ?_
  intro previous s₁ t₁ renamed₁ grown₁ had
  have assigned : TracksSame f s₁.size
      ((modify (·.assign env name value) : StoreM PUnit) s₁)
      ((modify (·.assign (f env) name (value.rename f)) : StoreM PUnit) t₁) :=
    .ok (renamed₁.assign (Nat.lt_of_lt_of_le exist grown₁) name (has.mono grown₁))
      (Nat.le_of_eq (s₁.size_assign env name value).symm) trivial rfl
  exact assigned.bind fun _ _ _ renamed₂ grown₂ _ => .pure renamed₂ (had.mono grown₂)

theorem tracks_listItems (renamed : s.Renamed f t) (category : Category) (r : Ref) :
    TracksRefs f s.size (listItems category r s) (listItems category (r.rename f) t) := by
  refine .get ?_
  rw [renamed.toList?]
  cases listed : s.toList? r with
  | none => exact .fail renamed
  | some items => exact .pure renamed (renamed.tidy.toList? listed)

theorem tracks_makeList (renamed : s.Renamed f t) {items : List Ref} (has : s.HasAll items) :
    TracksRef f s.size (makeList items .nil s) (makeList (items.map (Ref.rename f)) .nil t) := by
  induction items with
  | nil => exact .pure renamed s.has_nil
  | cons item items ih =>
    obtain ⟨first, later⟩ := Store.hasAll_cons.1 has
    refine (ih later).bind ?_
    intro rest s₁ t₁ renamed₁ grown₁ hasRest
    refine tracks_make (.pair item rest) renamed₁ ?_
    simpa [Node.children, Store.HasAll] using ⟨first.mono grown₁, hasRest⟩

theorem tracks_makeClosure (renamed : s.Renamed f t) {params body : List Ref} {env : Loc}
    (hasParams : s.HasAll params) (hasBody : s.HasAll body) (exist : env < s.size) :
    TracksRef f s.size (makeClosure params body (some env) s)
      (makeClosure (params.map (Ref.rename f)) (body.map (Ref.rename f)) (some (f env)) t) := by
  refine .get ?_
  simp only [List.all_map, Function.comp_def, renamed.symbolName?]
  split
  · have around : s.HasAll (Node.environment { outer := some env }).children := by
      simpa [Node.children, Store.HasAll] using exist
    refine (tracks_allocate _ renamed around).bind ?_
    rintro _ _ t₁ renamed₁ grown₁ ⟨rfl, rfl⟩
    refine tracks_make (.closure params body (some s.size)) renamed₁ ?_
    simp only [Node.children, Store.hasAll_append]
    exact ⟨⟨hasParams.mono grown₁, hasBody.mono grown₁⟩, by simp [Store.HasAll]⟩
  · exact .fail renamed

/-! ## Copying -/

section Copy

variable {copy copy' : Ref → StoreM Ref} {inv : Store → Store → Prop}
  (keep : ∀ {s t s' t'}, inv s t → s'.Renamed f t' → s.Extended s' → inv s' t')
include keep

theorem tracks_copyEach {rs : List Ref}
    (one : ∀ {s t}, inv s t → ∀ r ∈ rs, TracksCopy f s (copy r s) (copy' (r.rename f) t))
    (renamed : s.Renamed f t) (holds : inv s t) :
    Tracks f s.size (List.map (Ref.rename f)) (fun cs s' => s'.HasAll cs ∧ s.Extended s')
      (copyEach copy rs s) (copyEach copy' (rs.map (Ref.rename f)) t) := by
  induction rs generalizing s t with
  | nil => exact .pure renamed ⟨by simp [Store.HasAll], .refl s⟩
  | cons r rs ih =>
    refine (one holds r (by simp)).bind ?_
    rintro c s₁ t₁ renamed₁ - ⟨has, extended₁⟩
    refine (ih (fun holds r member => one holds r (by simp [member])) renamed₁
      (keep holds renamed₁ extended₁)).bind ?_
    rintro cs s₂ t₂ renamed₂ grown₂ ⟨hasAll, extended₂⟩
    exact .pure renamed₂ ⟨Store.hasAll_cons.2 ⟨has.mono grown₂, hasAll⟩, extended₁.trans extended₂⟩

theorem tracks_copyBindings {bindings : List (String × Ref)}
    (one : ∀ {s t}, inv s t → ∀ r ∈ bindings.map (·.2),
      TracksCopy f s (copy r s) (copy' (r.rename f) t))
    (renamed : s.Renamed f t) (holds : inv s t) :
    Tracks f s.size (List.map fun binding => (binding.1, binding.2.rename f))
      (fun bs s' => s'.HasAll (bs.map (·.2)) ∧ s.Extended s') (copyBindings copy bindings s)
      (copyBindings copy' (bindings.map fun binding => (binding.1, binding.2.rename f)) t) := by
  induction bindings generalizing s t with
  | nil => exact .pure renamed ⟨by simp [Store.HasAll], .refl s⟩
  | cons binding rest ih =>
    obtain ⟨name, r⟩ := binding
    refine (one holds r (by simp)).bind ?_
    rintro c s₁ t₁ renamed₁ - ⟨has, extended₁⟩
    refine (ih (fun holds r member => one holds r (by simp_all)) renamed₁
      (keep holds renamed₁ extended₁)).bind ?_
    rintro cs s₂ t₂ renamed₂ grown₂ ⟨hasAll, extended₂⟩
    exact .pure renamed₂ ⟨Store.hasAll_cons.2 ⟨has.mono grown₂, hasAll⟩, extended₁.trans extended₂⟩

omit keep in
theorem tracks_copyCaptured {env : Option Loc}
    (one : ∀ r ∈ env.toList.map Ref.cell, TracksCopy f s (copy r s) (copy' (r.rename f) t))
    (renamed : s.Renamed f t) :
    Tracks f s.size (Option.map f)
      (fun env s' => s'.HasAll (env.toList.map .cell) ∧ s.Extended s')
      (copyCaptured copy env s) (copyCaptured copy' (env.map f) t) := by
  cases env with
  | none => exact .pure renamed ⟨by simp [Store.HasAll], .refl s⟩
  | some env =>
    refine (one (.cell env) (by simp)).bind ?_
    rintro c s₁ t₁ renamed₁ - ⟨has, extended₁⟩
    refine .ok renamed₁ (Nat.le_refl _) ⟨?_, extended₁⟩ (by simp)
    cases c with
    | nil => simp [Ref.loc?, Store.HasAll]
    | cell loc => simpa [Ref.loc?, Store.HasAll] using has

end Copy

/-- The cell of a copy is made on both sides, and it is written to in the end. -/
theorem tracks_construct (blank : Node) {below below' : Loc → StoreM Node}
    (renamed : s.Renamed f t) (children : s.HasAll blank.children)
    (inner : ∀ t₁, (s.register blank).Renamed f t₁ →
      Tracks f (s.register blank).size (Node.rename f)
        (fun node s' => s'.HasAll node.children ∧ (s.register blank).Extended s' ∧
          ∀ frame around, node = .environment frame → frame.outer = some around → around < s.size)
        (below s.size (s.register blank)) (below' (f s.size) t₁)) :
    TracksCopy f s (construct blank below s) (construct (blank.rename f) below' t) := by
  refine (tracks_allocate blank renamed children).bind ?_
  rintro _ _ t₁ renamed₁ - ⟨rfl, rfl⟩
  refine (inner t₁ renamed₁).bind ?_
  rintro node s₂ t₂ renamed₂ grown₂ ⟨held, extended, older⟩
  have exist : s.size < s₂.size := Nat.lt_of_lt_of_le (by simp) grown₂
  have written : Tracks f s₂.size id
      (fun _ s' => s.size < s'.size ∧ s.Extended s')
      (overwrite s.size node s₂) (overwrite (f s.size) (node.rename f) t₂) :=
    .ok (renamed₂.write exist held older) (by simp) ⟨by simpa using exist,
      ((s.extended_register blank).trans extended).write (Nat.le_refl _) node⟩ rfl
  refine written.bind ?_
  rintro _ s₃ t₃ renamed₃ - ⟨exist₃, extended₃⟩
  exact .pure renamed₃ ⟨Store.has_cell.2 exist₃, extended₃⟩

/-- Copies of what was in the store `base` are under way, with the same cells on both sides. -/
structure Copying (f : Loc → Loc) (base : Store) (active active' : Active) (s t : Store) :
    Prop where
  tidy : base.Tidy
  extended : base.Extended s
  renamed : s.Renamed f t
  known : ∀ loc ∈ active, loc < base.size
  made : ∀ {loc copy : Loc}, active[loc]? = some copy → copy < s.size
  same : ∀ loc : Loc, active'[f loc]? = active[loc]?.map f

namespace Copying

variable {base s' t' : Store} {active active' : Active}

theorem keep (copying : Copying f base active active' s t) (renamed : s'.Renamed f t')
    (extended : s.Extended s') : Copying f base active active' s' t' :=
  { copying with
    extended := copying.extended.trans extended
    renamed
    made := fun under => Nat.lt_of_lt_of_le (copying.made under) extended.size_le }

/-- A cell is made, and it becomes the copy of what was not yet under way. -/
theorem insert (copying : Copying f base active active' s t) {loc : Loc} (exist : loc < base.size)
    {blank : Node} (renamed : (s.register blank).Renamed f t') :
    Copying f base (active.insert loc s.size) (active'.insert (f loc) (f s.size))
      (s.register blank) t' where
  tidy := copying.tidy
  extended := copying.extended.trans (s.extended_register blank)
  renamed := renamed
  known := Active.lt_of_insert copying.known exist _
  made {loc' copy} under := by
    rw [Std.TreeMap.getElem?_insert] at under
    split at under
    · cases under
      simp
    · simpa using Nat.lt_succ_of_lt (copying.made under)
  same loc' := by
    simp only [Std.TreeMap.getElem?_insert, Std.LawfulEqCmp.compare_eq_iff_eq,
      renamed.injective.eq_iff, copying.same]
    split <;> rfl

end Copying

/-- Below a cell whose copy is under way, what was in the store `base` is copied alike. -/
def CopiesBelow (f : Loc → Loc) (base : Store) (active active' : Active)
    (below below' : Ref → StoreM Ref) : Prop :=
  ∀ {s t}, Copying f base active active' s t → ∀ {r}, base.Has r →
    TracksCopy f s (below r s) (below' (r.rename f) t)

section Cells

variable {base : Store} {active active' : Active} {loc : Loc}
  {below below' : Loc → Ref → StoreM Ref}
  (copying : Copying f base active active' s t) (exist : loc < base.size)
  (copies : CopiesBelow f base (active.insert loc s.size) (active'.insert (f loc) (f s.size))
    (below s.size) (below' (f s.size)))
include copying exist copies

theorem tracks_copyPair {second second' : Loc → Ref → StoreM Ref}
    (copies' : CopiesBelow f base (active.insert loc s.size) (active'.insert (f loc) (f s.size))
      (second s.size) (second' (f s.size)))
    {a b : Ref} (has : base.Has a) (has' : base.Has b) :
    TracksCopy f s (copyPair below second a b s)
      (copyPair below' second' (a.rename f) (b.rename f) t) := by
  rw [copyPair_eq, copyPair_eq]
  refine tracks_construct _ copying.renamed
    (by simp [Node.children, Store.HasAll, Store.has_nil]) ?_
  intro t₁ renamed₁
  have copying₁ := copying.insert exist renamed₁
  refine (copies copying₁ has).bind ?_
  rintro c s₂ t₂ renamed₂ - ⟨hasCopy, extended₂⟩
  refine (copies' (copying₁.keep renamed₂ extended₂) has').bind ?_
  rintro c' s₃ t₃ renamed₃ grown₃ ⟨hasCopy', extended₃⟩
  refine .pure renamed₃ ⟨?_, extended₂.trans extended₃, by simp⟩
  simpa [Node.children, Store.HasAll] using ⟨hasCopy.mono grown₃, hasCopy'⟩

theorem tracks_copyFrame {frame : Frame}
    (found : base.node? (.cell loc) = some (.environment frame)) :
    TracksCopy f s (copyFrame below frame s) (copyFrame below' (frame.rename f) t) := by
  have held := Store.hasAll_append.1 (copying.tidy.children found)
  have grown := copying.extended.size_le
  rw [copyFrame_eq, copyFrame_eq]
  refine tracks_construct (.environment { frame with bindings := [] }) copying.renamed ?_ ?_
  · simpa [Node.children] using held.1.mono grown
  · intro t₁ renamed₁
    refine (tracks_copyBindings Copying.keep
      (fun copying r member => copies copying (held.2 r member)) renamed₁
      (copying.insert exist renamed₁)).bind ?_
    rintro bindings s₂ t₂ renamed₂ grown₂ ⟨hasAll, extended₂⟩
    refine .pure renamed₂ ⟨?_, extended₂, ?_⟩
    · have outside : s.size ≤ s₂.size := Nat.le_trans (by simp) grown₂
      exact Store.hasAll_append.2 ⟨held.1.mono (Nat.le_trans grown outside), hasAll⟩
    · rintro _ around ⟨⟩ outer
      have older := copying.tidy.outer (Store.frame?_eq_some.2 found) outer
      exact Nat.lt_of_lt_of_le (Nat.lt_trans older exist) grown

theorem tracks_copyClosure {params body : List Ref} {env : Option Loc}
    (found : base.node? (.cell loc) = some (.closure params body env)) :
    TracksCopy f s (copyClosure below params body env s)
      (copyClosure below' (params.map (Ref.rename f)) (body.map (Ref.rename f)) (env.map f) t) := by
  obtain ⟨code, hasEnv⟩ := Store.hasAll_append.1 (copying.tidy.children found)
  obtain ⟨hasParams, hasBody⟩ := Store.hasAll_append.1 code
  rw [copyClosure_eq, copyClosure_eq]
  refine tracks_construct _ copying.renamed (by simp [Node.children, Store.HasAll]) ?_
  intro t₁ renamed₁
  have copying₁ := copying.insert exist renamed₁
  simp only [copyParts, bind_assoc, pure_bind]
  refine (tracks_copyEach Copying.keep
    (fun copying r member => copies copying (hasParams r member)) renamed₁ copying₁).bind ?_
  rintro params' s₂ t₂ renamed₂ grown₂ ⟨hasParams', extended₂⟩
  have copying₂ := copying₁.keep renamed₂ extended₂
  refine (tracks_copyEach Copying.keep
    (fun copying r member => copies copying (hasBody r member)) renamed₂ copying₂).bind ?_
  rintro body' s₃ t₃ renamed₃ grown₃ ⟨hasBody', extended₃⟩
  have copying₃ := copying₂.keep renamed₃ extended₃
  refine (tracks_copyCaptured (fun r member => copies copying₃ (hasEnv r member)) renamed₃).bind ?_
  rintro env' s₄ t₄ renamed₄ grown₄ ⟨hasEnv', extended₄⟩
  refine .pure renamed₄ ⟨?_, (extended₂.trans extended₃).trans extended₄, by simp⟩
  simp only [Node.children, Store.hasAll_append]
  exact ⟨⟨hasParams'.mono (Nat.le_trans grown₃ grown₄), hasBody'.mono grown₄⟩, hasEnv'⟩

end Cells

-- The induction is on the fuel for the smaller store.  What is under way are cells of `base`, so on
-- both sides there is fuel as long as the path is shorter than `base` is large.
theorem tracks_copyFrom {base : Store} (fuel fuel' depth : Nat) {active active' : Active} {r : Ref}
    (copying : Copying f base active active' s t) (has : base.Has r)
    (enough : base.size < fuel + active.size) (enough' : base.size < fuel' + active.size) :
    TracksCopy f s (copyFrom fuel depth active r s)
      (copyFrom fuel' depth active' (r.rename f) t) := by
  induction fuel generalizing fuel' depth active active' r s t with
  | zero =>
    have := Active.size_le copying.known
    omega
  | succ fuel ih =>
    obtain ⟨fuel', rfl⟩ : ∃ n, fuel' = n + 1 := by
      have := Active.size_le copying.known
      exact ⟨fuel' - 1, by omega⟩
    cases r with
    | nil =>
      rw [Ref.rename_nil, copyFrom, copyFrom]
      exact .pure copying.renamed ⟨s.has_nil, .refl s⟩
    | cell loc =>
      cases depth with
      | zero => exact .throw _ copying.renamed
      | succ depth =>
        have exist : loc < base.size := Store.has_cell.1 has
        rw [Ref.rename_cell, copyFrom, copyFrom, copying.same]
        cases under : active[loc]? with
        | some copy =>
          exact .pure copying.renamed ⟨Store.has_cell.2 (copying.made under), .refl s⟩
        | none =>
          obtain ⟨node, found⟩ := Store.exists_node? exist
          have longer : (active.insert loc s.size).size = active.size + 1 := by
            have : loc ∉ active := by simpa using under
            simp [Std.TreeMap.size_insert, this]
          have below (depth : Nat) : CopiesBelow f base (active.insert loc s.size)
              (active'.insert (f loc) (f s.size)) (copyFrom fuel depth (active.insert loc s.size))
              (copyFrom fuel' depth (active'.insert (f loc) (f s.size))) :=
            fun copying' _ has' => ih fuel' depth copying' has' (by omega) (by omega)
          refine .look (r := .cell loc) copying.renamed ?_
          rw [copying.extended.node? found]
          cases node with
          | pair a b =>
            obtain ⟨hasFirst, hasSecond⟩ := Store.hasAll_cons.1 (copying.tidy.children found)
            exact tracks_copyPair copying exist (below depth) (below (depth + 1)) hasFirst
              (hasSecond b (by simp))
          | environment frame => exact tracks_copyFrame copying exist (below depth) found
          | closure params body env => exact tracks_copyClosure copying exist (below depth) found
          | integer value | boolean value | symbol name | builtin op =>
            exact tracks_makeCopy _ copying.renamed (by simp [Node.children, Store.HasAll])

theorem tracks_duplicate (renamed : s.Renamed f t) (depth : Nat) {r : Ref} (has : s.Has r) :
    TracksCopy f s (duplicate depth r s) (duplicate depth (r.rename f) t) := by
  have copying : Copying f s ∅ ∅ s t :=
    ⟨renamed.tidy, .refl s, renamed, by simp, by simp, by simp⟩
  have := renamed.size_le
  exact .get
    (tracks_copyFrom (s.size + 1) (t.size + 1) depth copying has (by simp) (by simp; omega))

end LittleScheme
