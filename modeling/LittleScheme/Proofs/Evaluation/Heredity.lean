import LittleScheme.Proofs.Evaluation.Discipline

/-!
# Disciplines that are inherited

Registration, ownership and the others ask the same of a value as of what it refers to.  Under such
a discipline a copy, a procedure or the frame of a call is a value because it is made of what there
was, and the laws of evaluation hold by themselves (`Discipline.Hereditary.lawful`).  Operators,
which refer to nothing, may be ruled out one by one: `Node.Fits` says which nodes are left.
-/

namespace LittleScheme

/-- If the node is an operator, it is one that is allowed. -/
def Node.Fits (allowed : Op → Prop) (node : Node) : Prop := ∀ op, node = .builtin op → allowed op

theorem Atom.fits_node {allowed : Op → Prop} (a : Atom) : a.node.Fits allowed := by
  cases a <;> simp [Node.Fits, Atom.node]

namespace Discipline

/-- Values are allowed and made of values; what is allowed and made of values can be made, and it
can be written to any cell. -/
structure Hereditary (d : Discipline) (allowed : Op → Prop) : Prop where
  nil : ∀ {s}, d.Value s .nil
  scope : ∀ {s env}, d.Scope s env ↔ d.Value s (.cell env)
  captured : ∀ {s env}, d.Captured s env ↔ d.Value s (.cell env)
  fits : ∀ {s r node}, d.Sound s → d.Value s r → s.node? r = some node → node.Fits allowed
  parts : ∀ {s r node}, d.Sound s → d.Value s r → s.node? r = some node →
    d.Results node.children s
  register : ∀ {s node}, d.Sound s → node.Fits allowed → d.Results node.children s →
    d.Keeps s (s.register node) ∧ d.Value (s.register node) (.cell s.size)
  write : ∀ {s node} (loc : Loc), d.Sound s → node.Fits allowed → d.Results node.children s →
    d.Keeps s (s.write loc node)

namespace Hereditary

variable {d : Discipline} {allowed : Op → Prop} (inherits : d.Hereditary allowed) {s s' : Store}
include inherits

/-! ## Looking into values -/

theorem fields {r : Ref} {fields : Ref × Ref} (sound : d.Sound s) (value : d.Value s r)
    (found : s.pair? r = some fields) : d.Value s fields.1 ∧ d.Value s fields.2 := by
  have parts := inherits.parts sound value (Store.pair?_eq_some.1 found)
  exact ⟨parts _ (by simp [Node.children]), parts _ (by simp [Node.children])⟩

theorem code {r : Ref} {params body : List Ref} {captured : Option Loc} (sound : d.Sound s)
    (value : d.Value s r) (found : s.node? r = some (.closure params body captured)) :
    d.Results params s ∧ d.Results body s ∧ ∀ env ∈ captured, d.Captured s env := by
  have parts := inherits.parts sound value found
  simp only [Results, Node.children, List.mem_append] at parts
  refine ⟨fun r h => parts r (.inl (.inl h)), fun r h => parts r (.inl (.inr h)), ?_⟩
  intro env h
  exact inherits.captured.2 (parts (.cell env) (.inr (by simpa using h)))

theorem outer {env around : Loc} {frame : Frame} (sound : d.Sound s) (value : d.Value s (.cell env))
    (found : s.frame? env = some frame) (outer : frame.outer = some around) :
    d.Value s (.cell around) := by
  refine inherits.parts sound value (Store.frame?_eq_some.1 found) _ ?_
  simp [Node.children, outer]

theorem binding {env : Loc} {frame : Frame} {binding : String × Ref} (sound : d.Sound s)
    (value : d.Value s (.cell env)) (found : s.frame? env = some frame)
    (member : binding ∈ frame.bindings) : d.Value s binding.2 := by
  refine inherits.parts sound value (Store.frame?_eq_some.1 found) _ ?_
  simp only [Node.children, List.mem_append, List.mem_map]
  exact .inr ⟨binding, member, rfl⟩

/-- The frames in scope are values if the innermost one is. -/
theorem scopeFrom (fuel : Nat) {env : Loc} (sound : d.Sound s) (value : d.Value s (.cell env)) :
    ∀ loc ∈ s.scopeFrom fuel env, d.Value s (.cell loc) := by
  induction fuel generalizing env with
  | zero => simp [Store.scopeFrom]
  | succ fuel ih =>
    rw [Store.scopeFrom]
    split
    · simp
    · rename_i frame found
      split
      · simpa using value
      · rename_i around outer
        intro loc member
        rcases List.mem_cons.1 member with rfl | later
        · exact value
        · exact ih (inherits.outer sound value found outer) loc later

theorem find? {env loc : Loc} {name : String} (sound : d.Sound s) (scope : d.Scope s env)
    (found : s.find? env name = some loc) : d.Value s (.cell loc) :=
  inherits.scopeFrom _ sound (inherits.scope.1 scope) loc (List.mem_of_find?_eq_some found)

theorem lookup? {env : Loc} {name : String} {r : Ref} (sound : d.Sound s) (scope : d.Scope s env)
    (bound : s.lookup? env name = some r) : d.Value s r := by
  obtain ⟨loc, found, value⟩ := Option.bind_eq_some_iff.1 bound
  obtain ⟨frame, at_loc, got⟩ := Option.bind_eq_some_iff.1 value
  exact inherits.binding sound (inherits.find? sound scope found) at_loc (Frame.mem_of_get? got)

/-! ## Making values and changing them -/

theorem allocate {node : Node} (sound : d.Sound s) (fits : node.Fits allowed)
    (parts : d.Results node.children s) :
    d.Runs (LittleScheme.allocate node) s fun loc s' => d.Value s' (.cell loc) := by
  obtain ⟨kept, value⟩ := inherits.register sound fits parts
  exact .of_ok rfl kept value

theorem make {node : Node} (sound : d.Sound s) (fits : node.Fits allowed)
    (parts : d.Results node.children s) : d.Runs (LittleScheme.make node) s d.Result :=
  (inherits.allocate sound fits parts).bind fun _ _ kept value => .pure kept.sound value

theorem overwrite {loc : Loc} {node : Node} (sound : d.Sound s) (fits : node.Fits allowed)
    (parts : d.Results node.children s) :
    d.Runs (LittleScheme.overwrite loc node) s fun _ _ => True :=
  .of_ok rfl (inherits.write loc sound fits parts) trivial

theorem atom (a : Atom) (sound : d.Sound s) : d.Runs (LittleScheme.make a.node) s d.Result :=
  inherits.make sound a.fits_node (by cases a <;> simp [Results, Atom.node, Node.children])

theorem pair {a b : Ref} (sound : d.Sound s) (first : d.Value s a) (second : d.Value s b) :
    d.Runs (LittleScheme.make (.pair a b)) s d.Result :=
  inherits.make sound (by simp [Node.Fits])
    (by simpa [Results, Node.children] using ⟨first, second⟩)

theorem makeClosure {params body : List Ref} {env : Loc} (sound : d.Sound s)
    (paramValues : d.Results params s) (bodyValues : d.Results body s) (scope : d.Scope s env) :
    d.Runs (LittleScheme.makeClosure params body (some env)) s d.Result := by
  refine .get ?_
  split
  · have around : d.Results (Node.environment { outer := some env }).children s := by
      simpa [Results, Node.children] using inherits.scope.1 scope
    refine (inherits.allocate sound (by simp [Node.Fits]) around).bind ?_
    intro captured s₁ kept value
    refine inherits.make kept.sound (by simp [Node.Fits]) ?_
    intro c child
    simp only [Node.children, List.mem_append] at child
    rcases child with (param | form) | frame
    · exact kept.value (paramValues c param)
    · exact kept.value (bodyValues c form)
    · obtain rfl : c = .cell captured := by simpa using frame
      exact value
  · exact .fail sound

/-- A frame with one more binding is made of values. -/
theorem definedFrame {env : Loc} {frame : Frame} {value : Ref} (name : String) (sound : d.Sound s)
    (scope : d.Value s (.cell env)) (found : s.frame? env = some frame) (known : d.Value s value) :
    d.Results (Node.environment (frame.define name value)).children s := by
  intro c child
  simp only [Node.children, List.mem_append, List.mem_map] at child
  rcases child with ⟨around, outer, rfl⟩ | ⟨binding, member, rfl⟩
  · exact inherits.outer sound scope found (by simpa using outer)
  · rcases Frame.mem_insert member with new | before
    · rwa [new]
    · exact inherits.binding sound scope found before

theorem keeps_define {env : Loc} {value : Ref} (name : String) (sound : d.Sound s)
    (frame : d.Value s (.cell env)) (known : d.Value s value) :
    d.Keeps s (s.define env name value) := by
  rw [Store.define]
  split
  · exact inherits.write env sound (by simp [Node.Fits])
      (inherits.definedFrame name sound frame ‹_› known)
  · exact .refl sound

theorem define {env : Loc} {value : Ref} (name : String) (sound : d.Sound s) (scope : d.Scope s env)
    (known : d.Value s value) : d.Runs (LittleScheme.define env name value) s fun _ _ => True :=
  .of_ok rfl (inherits.keeps_define name sound (inherits.scope.1 scope) known) trivial

theorem assign {env : Loc} {value : Ref} (name : String) (sound : d.Sound s) (scope : d.Scope s env)
    (known : d.Value s value) : d.Runs (LittleScheme.assign env name value) s d.Result := by
  cases bound : s.lookup? env name with
  | none => exact .of_error (assign_of_unbound bound value) (.refl sound)
  | some previous =>
    have kept : d.Keeps s (s.assign env name value) := by
      rw [Store.assign]
      split
      · rename_i found
        exact inherits.keeps_define name sound (inherits.find? sound scope found) known
      · exact .refl sound
    exact .of_ok (assign_of_bound bound value) kept
      (kept.value (inherits.lookup? sound scope bound))

theorem setField (field : Field) {loc : Loc} {value : Ref} {fields : Ref × Ref} (sound : d.Sound s)
    (pair : d.Value s (.cell loc)) (found : s.pair? (.cell loc) = some fields) (kept : d.Keeps s s')
    (known : d.Value s' value) :
    d.Runs (LittleScheme.overwrite loc (field.set value fields)) s' fun _ _ => True := by
  obtain ⟨first, second⟩ := inherits.fields sound pair found
  refine inherits.overwrite kept.sound (by cases field <;> simp [Node.Fits, Field.set]) ?_
  have first := kept.value first
  have second := kept.value second
  cases field <;> simp_all [Results, Field.set, Node.children]

/-! ## Copies -/

omit inherits in
theorem copyBindings {copy : Ref → StoreM Ref} {inv : Store → Prop}
    (keep : ∀ {s s'}, d.Keeps s s' → inv s → inv s')
    (one : ∀ {s r}, d.Sound s → inv s → d.Value s r → d.Runs (copy r) s d.Result)
    (sound : d.Sound s) (holds : inv s) {bindings : List (String × Ref)}
    (values : ∀ binding ∈ bindings, d.Value s binding.2) :
    d.Runs (LittleScheme.copyBindings copy bindings) s fun bs s' =>
      ∀ binding ∈ bs, d.Value s' binding.2 := by
  induction bindings generalizing s with
  | nil => exact .pure sound (by simp)
  | cons binding rest ih =>
    refine (one sound holds (values binding (by simp))).bind ?_
    intro c s₁ kept₁ result
    refine (ih kept₁.sound (keep kept₁ holds) fun b member =>
      kept₁.value (values b (by simp [member]))).bind ?_
    intro cs s₂ kept₂ results
    refine .pure kept₂.sound ?_
    intro b member
    rcases List.mem_cons.1 member with rfl | later
    · exact kept₂.value result
    · exact results b later

/-- The copies under way are values. -/
def Copied (d : Discipline) (active : Active) (s : Store) : Prop :=
  ∀ loc copy : Loc, active[loc]? = some copy → d.Value s (.cell copy)

omit inherits in
theorem Copied.keep {active : Active} (kept : d.Keeps s s') (copied : Copied d active s) :
    Copied d active s' :=
  fun loc copy h => kept.value (copied loc copy h)

omit inherits in
theorem Copied.insert {active : Active} (copied : Copied d active s) {loc copy : Loc}
    (value : d.Value s (.cell copy)) : Copied d (active.insert loc copy) s := by
  intro loc' copy' h
  rw [Std.TreeMap.getElem?_insert] at h
  split at h
  · obtain rfl := Option.some.inj h
    exact value
  · exact copied loc' copy' h

section Nodes

variable {active : Active} {loc : Loc} {below : Loc → Ref → StoreM Ref}
  (one : ∀ {s : Store} {copy : Loc} {r : Ref}, d.Sound s → Copied d (active.insert loc copy) s →
    d.Value s r → d.Runs (below copy r) s d.Result)
  (sound : d.Sound s) (copied : Copied d active s)
include one sound copied

theorem copyPair {below' : Loc → Ref → StoreM Ref}
    (one' : ∀ {s : Store} {copy : Loc} {r : Ref}, d.Sound s → Copied d (active.insert loc copy) s →
      d.Value s r → d.Runs (below' copy r) s d.Result)
    {first second : Ref} (value : d.Value s first) (value' : d.Value s second) :
    d.Runs (LittleScheme.copyPair below below' first second) s d.Result := by
  have blank : d.Results (Node.pair .nil .nil).children s := by
    simp [Results, Node.children, inherits.nil]
  refine (inherits.allocate sound (by simp [Node.Fits]) blank).bind ?_
  intro copy s₁ kept₁ new
  have copied₁ : Copied d (active.insert loc copy) s₁ := (copied.keep kept₁).insert new
  refine (one kept₁.sound copied₁ (kept₁.value value)).bind ?_
  intro first' s₂ kept₂ value₁
  refine (one' kept₂.sound (copied₁.keep kept₂) (kept₂.value (kept₁.value value'))).bind ?_
  intro second' s₃ kept₃ value₂
  have written : d.Results (Node.pair first' second').children s₃ := by
    have value₁ := kept₃.value value₁
    simpa [Results, Node.children] using ⟨value₁, value₂⟩
  refine (inherits.overwrite kept₃.sound (by simp [Node.Fits]) written).bind ?_
  intro _ s₄ kept₄ _
  exact .pure kept₄.sound (kept₄.value (kept₃.value (kept₂.value new)))

theorem copyFrame {frame : Frame} (outer : ∀ env ∈ frame.outer, d.Value s (.cell env))
    (values : ∀ binding ∈ frame.bindings, d.Value s binding.2) :
    d.Runs (LittleScheme.copyFrame below frame) s d.Result := by
  have blank : d.Results (Node.environment { frame with bindings := [] }).children s := by
    simpa [Results, Node.children] using outer
  refine (inherits.allocate sound (by simp [Node.Fits]) blank).bind ?_
  intro copy s₁ kept₁ new
  have copied₁ : Copied d (active.insert loc copy) s₁ := (copied.keep kept₁).insert new
  refine (copyBindings Copied.keep one kept₁.sound copied₁ fun binding member =>
    kept₁.value (values binding member)).bind ?_
  intro bindings s₂ kept₂ values
  refine (inherits.overwrite kept₂.sound (by simp [Node.Fits]) ?_).bind ?_
  · intro c member
    simp only [Node.children, List.mem_append, List.mem_map] at member
    rcases member with ⟨env, around, rfl⟩ | ⟨binding, bound, rfl⟩
    · exact kept₂.value (kept₁.value (outer env (by simpa using around)))
    · exact values binding bound
  · intro _ s₃ kept₃ _
    exact .pure kept₃.sound (kept₃.value (kept₂.value new))

omit inherits copied in
theorem copyCaptured {copy : Loc} (copied : Copied d (active.insert loc copy) s)
    {captured : Option Loc} (frame : ∀ env ∈ captured, d.Value s (.cell env)) :
    d.Runs (LittleScheme.copyCaptured (below copy) captured) s fun captured s' =>
      ∀ env ∈ captured, d.Value s' (.cell env) := by
  cases captured with
  | none => exact .pure sound (by simp)
  | some env =>
    refine (one sound copied (frame env rfl)).bind ?_
    intro c s₁ kept result
    refine .pure kept.sound ?_
    cases c with
    | nil => simp [Ref.loc?]
    | cell loc => simpa [Ref.loc?, Result] using result

theorem copyClosure {params body : List Ref} {captured : Option Loc}
    (paramValues : d.Results params s) (bodyValues : d.Results body s)
    (frame : ∀ env ∈ captured, d.Value s (.cell env)) :
    d.Runs (LittleScheme.copyClosure below params body captured) s d.Result := by
  have blank : d.Results (Node.closure [] [] none).children s := by simp [Results, Node.children]
  refine (inherits.allocate sound (by simp [Node.Fits]) blank).bind ?_
  intro copy s₁ kept₁ new
  have copied₁ : Copied d (active.insert loc copy) s₁ := (copied.keep kept₁).insert new
  refine (Runs.copyEach Copied.keep one kept₁.sound copied₁ (kept₁.values paramValues)).bind ?_
  intro params' s₂ kept₂ paramValues
  have kept := kept₁.trans kept₂
  refine (Runs.copyEach Copied.keep one kept₂.sound (copied₁.keep kept₂)
    (kept.values bodyValues)).bind ?_
  intro body' s₃ kept₃ bodyValues
  have kept := kept.trans kept₃
  refine (copyCaptured one kept₃.sound ((copied₁.keep kept₂).keep kept₃)
    fun env h => kept.value (frame env h)).bind ?_
  intro env' s₄ kept₄ envValues
  refine (inherits.overwrite kept₄.sound (by simp [Node.Fits]) ?_).bind ?_
  · intro c member
    simp only [Node.children, List.mem_append, List.mem_map] at member
    rcases member with (param | form) | ⟨env, around, rfl⟩
    · exact kept₄.value (kept₃.value (paramValues c param))
    · exact kept₄.value (bodyValues c form)
    · exact envValues env (by simpa using around)
  · intro _ s₅ kept₅ _
    exact .pure kept₅.sound (kept₅.value (kept₄.value (kept₃.value (kept₂.value new))))

end Nodes

/-- A copy of a value is made of values. -/
theorem copyFrom (fuel depth : Nat) {active : Active} {r : Ref} (sound : d.Sound s)
    (copied : Copied d active s) (value : d.Value s r) :
    d.Runs (LittleScheme.copyFrom fuel depth active r) s d.Result := by
  induction fuel generalizing s depth active r with
  | zero =>
    cases r with
    | nil => exact .pure sound inherits.nil
    | cell loc => exact .throw sound
  | succ fuel ih =>
    cases r with
    | nil => exact .pure sound inherits.nil
    | cell loc =>
      cases depth with
      | zero => exact .throw sound
      | succ depth =>
        rw [LittleScheme.copyFrom]
        split
        · exact .pure sound (copied _ _ ‹_›)
        · refine .look ?_
          split
          · exact .pure sound inherits.nil
          · rename_i found
            have parts := inherits.parts sound value found
            simp only [Results, Node.children, List.forall_mem_cons] at parts
            exact inherits.copyPair (ih _) sound copied (ih _) parts.1 parts.2.1
          · rename_i found
            have frame := Store.frame?_eq_some.2 found
            exact inherits.copyFrame (ih _) sound copied
              (fun _ outer => inherits.outer sound value frame outer)
              (fun _ member => inherits.binding sound value frame member)
          · rename_i found
            obtain ⟨params, body, captured⟩ := inherits.code sound value found
            exact inherits.copyClosure (ih _) sound copied params body
              (fun env h => inherits.captured.1 (captured env h))
          · exact inherits.make sound (inherits.fits sound value ‹_›)
              (inherits.parts sound value ‹_›)

theorem duplicate (depth : Nat) {r : Ref} (sound : d.Sound s) (value : d.Value s r) :
    d.Runs (LittleScheme.duplicate depth r) s d.Result :=
  .get (inherits.copyFrom _ depth sound (by simp [Copied]) value)

/-! ## Calls -/

theorem outerFrame {captured : Option Loc} (frame : ∀ env ∈ captured, d.Captured s env) :
    d.Results (Node.environment { outer := captured }).children s := by
  intro c child
  obtain ⟨env, around, rfl⟩ : ∃ env, captured = some env ∧ .cell env = c := by
    simpa [Node.children] using child
  exact inherits.captured.1 (frame env around)

theorem enterFrame (params : List Ref) {values : List Ref} {captured : Option Loc}
    (frame : ∀ env ∈ captured, d.Captured s env) (results : d.Results values s) :
    d.Results (Node.environment (Frame.defineAll { outer := captured }
      (Engine.parameterBindings s params values))).children s := by
  intro c child
  simp only [Node.children, Frame.outer_defineAll, List.mem_append, List.mem_map] at child
  rcases child with ⟨env, around, rfl⟩ | ⟨binding, bound, rfl⟩
  · exact inherits.captured.1 (frame env (by simpa using around))
  · rcases Frame.mem_defineAll bound with new | old
    · refine results _ ?_
      obtain ⟨binding', member, eq⟩ := List.mem_map.1 new
      obtain ⟨⟨param, value⟩, zipped, named⟩ := List.mem_filterMap.1 member
      obtain ⟨name, _, rfl⟩ := Option.map_eq_some_iff.1 named
      rw [← eq]
      exact (List.of_mem_zip zipped).2
    · simp at old

theorem enterCall {engine : Engine} {depth : Nat}
    (copy : engine.copy = LittleScheme.duplicate depth) {params values : List Ref}
    {captured : Option Loc} (sound : d.Sound s) (frame : ∀ env ∈ captured, d.Captured s env)
    (results : d.Results values s) :
    d.Runs (engine.enterCall params values captured) s fun inner s' => d.Scope s' inner := by
  rw [Engine.enterCall]
  rw [copy]
  refine (Runs.copyEach (fun _ _ => trivial) (fun sound _ value =>
    inherits.duplicate depth sound value) sound trivial results).bind ?_
  intro copies s₁ kept results
  have frame₁ : ∀ env ∈ captured, d.Captured s₁ env := fun env h => kept.captured (frame env h)
  refine .get ?_
  split
  · refine (inherits.allocate kept.sound (by simp [Node.Fits])
      (inherits.outerFrame frame₁)).discard.bind ?_
    intro _ s₂ kept₂ _
    exact .throw kept₂.sound
  · refine (inherits.allocate kept.sound (by simp [Node.Fits])
      (inherits.enterFrame params frame₁ results)).imp ?_
    intro inner s₂ value
    exact inherits.scope.2 value

end Hereditary

/-! ## Lawful disciplines -/

/-- If no operator is ruled out, evaluation keeps to the discipline. -/
theorem Hereditary.lawful {d : Discipline} (inherits : d.Hereditary fun _ => True) :
    d.Lawful where
  nil := inherits.nil
  lookup := inherits.lookup?
  fields := inherits.fields
  code := inherits.code
  atom a sound := inherits.atom a sound
  pair := inherits.pair
  procedure := inherits.makeClosure
  copy depth := inherits.duplicate depth
  define depth name sound value scope := (inherits.duplicate depth sound value).bind
    fun _ _ kept result => inherits.define name kept.sound (kept.scope scope) result
  defineProcedure name sound params body scope :=
    (inherits.makeClosure sound params body scope).bind
      fun _ _ kept result => inherits.define name kept.sound (kept.scope scope) result
  operator op name sound scope := by
    have parts : ∀ s, d.Results (Node.builtin op).children s := by simp [Results, Node.children]
    exact (inherits.make sound (fun _ _ => trivial) (parts _)).bind
      fun _ _ kept result => inherits.define name kept.sound (kept.scope scope) result
  assign depth name sound value scope := (inherits.duplicate depth sound value).bind
    fun _ _ kept result => inherits.assign name kept.sound (kept.scope scope) result
  replace depth field sound pair found value _ := (inherits.duplicate depth sound value).bind
    fun _ _ kept result => inherits.setField field sound pair found kept result
  tie field sound pair found := inherits.setField field sound pair found (.refl sound) pair
  enter _ copy := inherits.enterCall copy

end Discipline

end LittleScheme
