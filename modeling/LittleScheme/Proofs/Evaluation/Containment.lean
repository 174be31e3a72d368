import LittleScheme.Proofs.Evaluation.Discipline
import LittleScheme.Proofs.Store.Extension
import LittleScheme.Proofs.Store.Ownership

/-!
# What evaluation leaves alone

Evaluation in a scope changes the fields of pairs and the values of bindings, and it defines names
in that scope.  Atoms, operators, procedures, the links between frames, the names of all other
frames, the register and the marks stay as they are.  Bodies of procedures are evaluated in frames
made for the call, so what they define is not seen by anyone who was there before.  `containment` is
this as a discipline, and `evaluate_contained` holds of every store and expression, however the
evaluation ends.

No binding is ever removed, so a name that was bound before an evaluation is bound after it.  `set!`
looks for its name once before the value is computed and once more behind it, and it finds it the
second time.
-/

namespace LittleScheme

/-! ## Names of frames -/

namespace Frame

variable (frame : Frame) (name : String) (value : Ref)

/-- A frame binds the names it has. -/
theorem binds_iff : frame.binds name = true ↔ name ∈ frame.names := by
  rw [binds, get?, names, List.lookup_isSome_iff, List.mem_map]
  simp only [beq_iff_eq]
  exact exists_congr fun binding => and_congr_right fun _ => eq_comm

/-- A bound name stays where it is, any other becomes the last one. -/
theorem names_define : (frame.define name value).names =
    if name ∈ frame.names then frame.names else frame.names ++ [name] := by
  obtain ⟨bindings, outer⟩ := frame
  change (insert name value bindings).map (·.1) =
    if name ∈ bindings.map (·.1) then bindings.map (·.1) else bindings.map (·.1) ++ [name]
  induction bindings with
  | nil => rfl
  | cons binding rest ih =>
    rw [insert]
    by_cases here : binding.1 = name
    · simp [here]
    · have other : name ≠ binding.1 := Ne.symm here
      rw [if_neg here, List.map_cons, ih]
      by_cases later : name ∈ rest.map (·.1) <;> simp [later, other]

theorem names_define_of_mem {frame : Frame} {name : String} (bound : name ∈ frame.names)
    (value : Ref) : (frame.define name value).names = frame.names := by
  rw [names_define, if_pos bound]

theorem names_isPrefix_define : frame.names <+: (frame.define name value).names := by
  rw [names_define]
  split
  · exact List.prefix_refl _
  · exact List.prefix_append _ _

end Frame

/-! ## What may change -/

/-- What may become of the contents of a cell.  The fields of a pair may change and so may the
values in a frame; names are added behind the others, and only in a frame that `grows`. -/
def Node.Evolves (grows : Prop) : Node → Node → Prop
  | .pair _ _, .pair _ _ => True
  | .environment frame, .environment frame' =>
    frame'.outer = frame.outer ∧
      (frame'.names = frame.names ∨ grows ∧ frame.names <+: frame'.names)
  | node, node' => node' = node

namespace Node

variable {grows : Prop} {node node' node'' : Node}

theorem Evolves.refl (grows : Prop) (node : Node) : node.Evolves grows node := by
  cases node <;> simp [Evolves]

theorem Evolves.trans (first : node.Evolves grows node') (second : node'.Evolves grows node'') :
    node.Evolves grows node'' := by
  cases node <;> cases node' <;> cases node'' <;> simp_all [Evolves]
  obtain ⟨-, same | ⟨grown, longer⟩⟩ := first <;> obtain ⟨-, same' | ⟨grown', longer'⟩⟩ := second
  · exact .inl (same'.trans same)
  · exact .inr ⟨grown', same ▸ longer'⟩
  · exact .inr ⟨grown, same'.symm ▸ longer⟩
  · exact .inr ⟨grown, longer.trans longer'⟩

/-- A frame evolves into a frame around which there is the same one, and which binds its names. -/
theorem Evolves.exists_frame {frame : Frame} (evolves : (environment frame).Evolves grows node') :
    ∃ frame', node' = .environment frame' ∧ frame'.outer = frame.outer ∧
      frame.names ⊆ frame'.names := by
  cases node' with
  | environment frame' =>
    obtain ⟨outer, same | ⟨-, longer⟩⟩ := evolves
    · exact ⟨frame', rfl, outer, same ▸ List.Subset.refl _⟩
    · exact ⟨frame', rfl, outer, longer.subset⟩
  | _ => exact absurd evolves (by simp [Evolves])

end Node

namespace Store

/-- What may become of a store by an evaluation in the scope `env`: its cells evolve, where no
frame but that of the scope gains names, what was registered still is, and no mark changes. -/
structure Contained (env : Loc) (s s' : Store) : Prop where
  evolves : ∀ {loc node}, s.node? (.cell loc) = some node →
    ∃ node', s'.node? (.cell loc) = some node' ∧ node.Evolves (loc = env) node'
  registered : ∀ {r}, s.isRegistered r = true → s'.isRegistered r = true
  marked : ∀ {loc}, loc < s.size → s'.isMarked (.cell loc) = s.isMarked (.cell loc)

variable {env : Loc} {s t t' : Store}

theorem Contained.refl (env : Loc) (s : Store) : s.Contained env s :=
  ⟨fun found => ⟨_, found, .refl _ _⟩, id, fun _ => rfl⟩

theorem Contained.size_le (contained : s.Contained env t) : s.size ≤ t.size := by
  refine Nat.le_of_not_lt fun less => ?_
  obtain ⟨node, found⟩ := exists_node? less
  obtain ⟨node', found', -⟩ := contained.evolves found
  exact absurd (lt_size found') (Nat.lt_irrefl _)

/-- Adding cells is no matter to those that were there at the beginning. -/
theorem Contained.extended (contained : s.Contained env t) (extended : t.Extended t') :
    s.Contained env t' where
  evolves found := by
    obtain ⟨node', found', evolved⟩ := contained.evolves found
    exact ⟨node', extended.node? found', evolved⟩
  registered {r} known := by
    have known := contained.registered known
    cases r with
    | nil => exact known
    | cell loc =>
      have member : loc ∈ t.registry := by simpa [isRegistered] using known
      simpa [isRegistered] using extended.registered member
  marked old :=
    (extended.isMarked (Nat.lt_of_lt_of_le old contained.size_le)).trans (contained.marked old)

/-- A cell may be given contents that its own may evolve into, and a cell that was added any. -/
theorem Contained.write (contained : s.Contained env t) {loc : Loc} {old node : Node}
    (found : t.node? (.cell loc) = some old)
    (evolved : s.size ≤ loc ∨ old.Evolves (loc = env) node) :
    s.Contained env (t.write loc node) where
  evolves {loc' start} began := by
    obtain ⟨middle, found', evolved'⟩ := contained.evolves began
    rw [node?_write t (lt_size found)]
    by_cases here : loc' = loc
    · subst here
      rw [found, Option.some.injEq] at found'
      subst found'
      rcases evolved with new | evolved
      · exact absurd (lt_size began) (Nat.not_lt.2 new)
      · exact ⟨node, if_pos rfl, evolved'.trans evolved⟩
    · exact ⟨middle, by rw [if_neg (by simpa using here), found'], evolved'⟩
  registered known := contained.registered known
  marked old := by rw [isMarked_write, contained.marked old]

/-- A definition adds a name to a frame that may gain names, or gives a bound name a new value. -/
theorem Contained.define (contained : s.Contained env t) {loc : Loc} {name : String}
    (place : s.size ≤ loc ∨ loc = env ∨ t.bindsAt name loc = true) (value : Ref) :
    s.Contained env (t.define loc name value) := by
  rw [Store.define]
  split
  · rename_i frame here
    refine contained.write (frame?_eq_some.1 here) ?_
    rcases place with new | scope | bound
    · exact .inl new
    · exact .inr ⟨rfl, .inr ⟨scope, frame.names_isPrefix_define name value⟩⟩
    · have member : name ∈ frame.names := by
        simpa [bindsAt, here, Frame.binds_iff] using bound
      exact .inr ⟨rfl, .inl (Frame.names_define_of_mem member value)⟩
  · exact contained

/-! ## Names in scope -/

/-- The frames in scope stay in scope. -/
theorem Contained.mem_scopeFrom (contained : s.Contained env t) {fuel fuel' : Nat}
    (enough : fuel ≤ fuel') {loc loc' : Loc} (member : loc' ∈ s.scopeFrom fuel loc) :
    loc' ∈ t.scopeFrom fuel' loc := by
  induction fuel generalizing fuel' loc with
  | zero => simp [scopeFrom] at member
  | succ fuel ih =>
    obtain ⟨fuel', rfl⟩ := Nat.exists_eq_add_of_le' (Nat.le_trans (Nat.le_add_left 1 fuel) enough)
    rw [scopeFrom] at member ⊢
    cases here : s.frame? loc with
    | none => simp [here] at member
    | some frame =>
      obtain ⟨node', found, evolved⟩ := contained.evolves (frame?_eq_some.1 here)
      obtain ⟨frame', rfl, outer, -⟩ := evolved.exists_frame
      rw [here] at member
      rw [frame?_eq_some.2 found]
      simp only [outer] at member ⊢
      cases around : frame.outer with
      | none => simpa [around] using member
      | some loc₁ =>
        simp only [around, List.mem_cons] at member ⊢
        exact member.imp_right (ih (Nat.le_of_succ_le_succ enough))

/-- A name that is bound stays bound. -/
theorem Contained.lookup? (contained : s.Contained env t) {loc : Loc} {name : String} {r : Ref}
    (bound : s.lookup? loc name = some r) : ∃ r', t.lookup? loc name = some r' := by
  obtain ⟨loc', decides, -⟩ := Option.bind_eq_some_iff.1 bound
  have inScope := contained.mem_scopeFrom contained.size_le (List.mem_of_find?_eq_some decides)
  have binds : t.bindsAt name loc' = true := by
    have before := List.find?_some decides
    cases here : s.frame? loc' with
    | none => simp [bindsAt, here] at before
    | some frame =>
      obtain ⟨node', found, evolved⟩ := contained.evolves (frame?_eq_some.1 here)
      obtain ⟨frame', rfl, -, names⟩ := evolved.exists_frame
      simp only [bindsAt, here, Option.any_some, Frame.binds_iff] at before
      simpa [bindsAt, frame?_eq_some.2 found, Frame.binds_iff] using names before
  obtain ⟨loc₁, decides₁⟩ : ∃ loc₁, t.find? loc name = some loc₁ :=
    Option.isSome_iff_exists.1 (List.find?_isSome.2 ⟨loc', inScope, binds⟩)
  have binds₁ : t.bindsAt name loc₁ = true := List.find?_some decides₁
  rw [Store.lookup?, decides₁]
  cases here : t.frame? loc₁ with
  | none => simp [bindsAt, here] at binds₁
  | some frame =>
    refine Option.isSome_iff_exists.1 ?_
    simpa [valueAt?, bindsAt, here, Frame.binds] using binds₁

end Store

/-! ## The discipline -/

/-- What an evaluation that began in the scope `env` of the store `s` may do.  It goes on to
evaluate in that scope and in frames that were added since. -/
def containment (s : Store) (env : Loc) : Discipline where
  Sound t := s.Contained env t
  Value _ _ := True
  Scope _ loc := loc = env ∨ s.size ≤ loc
  Captured _ _ := True

namespace containment

variable {s t t' : Store} {env : Loc}

theorem keeps (contained : s.Contained env t') : (containment s env).Keeps t t' :=
  ⟨contained, fun _ => trivial, id, fun _ => trivial⟩

/-- What extends the store keeps to the discipline. -/
theorem runs_of_extension {α : Type} {action : StoreM α} {post : α → Store → Prop}
    (contained : s.Contained env t) (runs : (extension t).Runs action t post) :
    (containment s env).Runs action t post :=
  ⟨fun ended => (runs.ok ended).imp_left fun kept => keeps (contained.extended kept.sound),
    fun ended => keeps (contained.extended (runs.error ended).sound)⟩

theorem make (contained : s.Contained env t) (node : Node) :
    (containment s env).Runs (LittleScheme.make node) t (containment s env).Result :=
  runs_of_extension contained (extension.make (.refl t) node)

theorem duplicate (contained : s.Contained env t) (depth : Nat) (r : Ref) :
    (containment s env).Runs (LittleScheme.duplicate depth r) t (containment s env).Result :=
  runs_of_extension contained (.get (extension.copyFrom _ depth ∅ r (.refl t)))

theorem makeClosure (contained : s.Contained env t) (params body : List Ref) (outer : Option Loc) :
    (containment s env).Runs (LittleScheme.makeClosure params body outer) t
      (containment s env).Result := by
  refine runs_of_extension contained (.get ?_)
  split
  · exact (extension.allocate (.refl t) _).bind fun _ _ kept _ => extension.make kept.sound _
  · exact .fail (.refl t)

theorem define (contained : s.Contained env t) {loc : Loc} (scope : loc = env ∨ s.size ≤ loc)
    (name : String) (value : Ref) :
    (containment s env).Runs (LittleScheme.define loc name value) t fun _ _ => True := by
  have place : s.size ≤ loc ∨ loc = env ∨ t.bindsAt name loc = true :=
    scope.elim (fun here => .inr (.inl here)) .inl
  exact .of_ok rfl (keeps (contained.define place value)) trivial

theorem assign (contained : s.Contained env t) (loc : Loc) (name : String) (value : Ref) :
    (containment s env).Runs (LittleScheme.assign loc name value) t
      (containment s env).Result := by
  cases bound : t.lookup? loc name with
  | none => exact .of_error (assign_of_unbound bound value) (keeps contained)
  | some previous =>
    have assigned : s.Contained env (t.assign loc name value) := by
      rw [Store.assign]
      split
      · rename_i decides
        exact contained.define (.inr (.inr (List.find?_some decides))) value
      · exact contained
    exact .of_ok (assign_of_bound bound value) (keeps assigned) trivial

theorem setField (contained : s.Contained env t) {loc : Loc} {fields : Ref × Ref}
    (found : t.pair? (.cell loc) = some fields) (field : Field) (value : Ref) :
    (containment s env).Runs (overwrite loc (field.set value fields)) t fun _ _ => True := by
  have evolved : (Node.pair fields.1 fields.2).Evolves (loc = env) (field.set value fields) := by
    cases field <;> trivial
  exact .of_ok rfl (keeps (contained.write (Store.pair?_eq_some.1 found) (.inr evolved))) trivial

/-- The frame of a call is added. -/
theorem enterCall (contained : s.Contained env t) {engine : Engine} {depth : Nat}
    (copy : engine.copy = LittleScheme.duplicate depth) (params values : List Ref)
    (captured : Option Loc) :
    (containment s env).Runs (engine.enterCall params values captured) t fun inner _ =>
      inner = env ∨ s.size ≤ inner := by
  have copies {r : Ref} {t' : Store} (extended : t.Extended t') :
      (extension t).Runs (engine.copy r) t' (extension t).Result := by
    rw [copy]
    exact .get (extension.copyFrom _ depth ∅ r extended)
  refine (runs_of_extension contained (extension.copyEach copies (.refl t) values)).bind ?_
  intro values' t₁ kept₁ _
  refine .get ?_
  split
  · refine (runs_of_extension kept₁.sound (extension.allocate (.refl t₁) _)).discard.bind ?_
    intro _ t₂ kept₂ _
    exact .throw kept₂.sound
  · refine (runs_of_extension kept₁.sound (extension.allocate (.refl t₁) _)).imp ?_
    intro inner _ new
    exact .inr (Nat.le_trans kept₁.sound.size_le new)

end containment

/-- Evaluation is contained in the scope it began in. -/
theorem lawful_containment (s : Store) (env : Loc) : (containment s env).Lawful where
  nil := trivial
  lookup _ _ _ := trivial
  fields _ _ _ := ⟨trivial, trivial⟩
  code _ _ _ := ⟨fun _ _ => trivial, fun _ _ => trivial, fun _ _ => trivial⟩
  atom _ contained := containment.make contained _
  pair contained _ _ := containment.make contained _
  procedure contained _ _ _ := containment.makeClosure contained _ _ _
  copy depth contained _ := containment.duplicate contained depth _
  define depth name contained _ scope := (containment.duplicate contained depth _).bind
    fun _ _ kept _ => containment.define kept.sound scope name _
  defineProcedure name contained _ _ scope := (containment.makeClosure contained _ _ _).bind
    fun _ _ kept _ => containment.define kept.sound scope name _
  operator op name contained scope := (containment.make contained (.builtin op)).bind
    fun _ _ kept _ => containment.define kept.sound scope name _
  assign depth name contained _ _ := (containment.duplicate contained depth _).bind
    fun _ _ kept _ => containment.assign kept.sound _ name _
  replace {t loc fields r} depth field contained _ found _ _ := by
    -- the copy is taken between looking at the pair and writing to it, and leaves the pair alone
    have copied : (containment s env).Runs (duplicate depth r) t fun _ t' =>
        t'.pair? (.cell loc) = some fields := by
      have extends' : (extension t).Runs (duplicate depth r) t fun _ _ => True :=
        .get (extension.copyFrom _ depth ∅ r (.refl t))
      refine containment.runs_of_extension contained ⟨fun ended => ?_, extends'.error⟩
      have kept := (extends'.ok ended).1
      refine ⟨kept, ?_⟩
      exact Store.pair?_eq_some.2 (kept.sound.node? (Store.pair?_eq_some.1 found))
    exact copied.bind fun value _ kept found' => containment.setField kept.sound found' field value
  tie field contained _ found := containment.setField contained found field _
  enter _ copy contained _ _ := containment.enterCall contained copy _ _ _

theorem containment.evaluate (s : Store) (env : Loc) (budget : Nat) (expr : Ref) :
    (containment s env).Runs (LittleScheme.evaluate budget expr env) s (containment s env).Result :=
  (lawful_containment s env).evaluate budget (Store.Contained.refl env s) trivial (.inl rfl)

/-- A name that was bound when an evaluation began can be assigned when its value has been
copied. -/
theorem assign_ok_of_lookup? {s s₁ s₂ : Store} {env : Loc} {name : String}
    {previous value copy : Ref} {budget depth : Nat} {expr : Ref}
    (bound : s.lookup? env name = some previous)
    (ended : evaluate budget expr env s = .ok value s₁)
    (copied : duplicate depth value s₁ = .ok copy s₂) :
    ∃ previous', assign env name copy s₂ = .ok previous' (s₂.assign env name copy) := by
  have runs := containment.evaluate s env budget expr
  have contained : s.Contained env s₁ := (runs.ok ended).1.sound
  have extended : s₁.Extended s₂ := by
    simpa [StoreM.storeAfter, copied] using duplicate_extended depth value s₁
  obtain ⟨previous', bound'⟩ := (contained.extended extended).lookup? bound
  exact ⟨previous', assign_of_bound bound' copy⟩

/-- **What evaluation in a scope leaves alone**, however it ends: atoms, operators and procedures
are unchanged, pairs stay pairs, frames keep their names in their order and the frame around them,
no frame but that of the scope gains a name, nothing is struck from the register and no mark
changes.  So the second search of an assignment cannot fail: a name that was bound before its value
was computed and copied is bound behind that, and an assignment to a bound name stops only where the
evaluation or the copying of the value does. -/
theorem evaluate_contained (budget : Nat) (expr : Ref) (env : Loc) (s : Store) :
    s.Contained env (StoreM.storeAfter (evaluate budget expr env) s) ∧
      ∀ name previous, s.lookup? env name = some previous →
        (∀ value s₁, evaluate budget expr env s = .ok value s₁ →
          ∀ depth copy s₂, duplicate depth value s₁ = .ok copy s₂ →
            ∃ previous', assign env name copy s₂ = .ok previous' (s₂.assign env name copy)) ∧
        ∀ (engine : Engine) depth target, engine.evaluate .single = evaluate budget →
          engine.copy = duplicate depth → s.symbolName? target = some name →
          ∀ fault s', engine.assign env [target, expr] s = .error fault s' →
            evaluate budget expr env s = .error fault s' ∨
              ∃ value s₁, evaluate budget expr env s = .ok value s₁ ∧
                duplicate depth value s₁ = .error fault s' := by
  have runs := containment.evaluate s env budget expr
  refine ⟨runs.sound_storeAfter, ?_⟩
  intro name previous bound
  refine ⟨fun value s₁ ended depth copy s₂ copied => assign_ok_of_lookup? bound ended copied, ?_⟩
  intro engine depth target evaluates copies named fault s' stopped
  have looked : (get : StoreM Store) s = .ok s s := rfl
  have found : resolve env name s = .ok previous s := by
    rw [resolve, StoreM.bind_ok looked, bound]
    rfl
  have resolved : (discard (resolve env name) : StoreM PUnit) s = .ok () s := by
    rw [StoreM.discard_eq, StoreM.bind_ok found]
    rfl
  rw [Engine.assign, StoreM.bind_ok looked, named] at stopped
  simp only at stopped
  rw [StoreM.bind_ok resolved, evaluates, copies] at stopped
  cases ended : evaluate budget expr env s with
  | error fault' s₁ =>
    rw [StoreM.bind_error ended] at stopped
    exact .inl stopped
  | ok value s₁ =>
    rw [StoreM.bind_ok ended] at stopped
    cases copied : duplicate depth value s₁ with
    | error fault' s₂ =>
      rw [StoreM.bind_error copied] at stopped
      cases stopped
      exact .inr ⟨value, s₁, rfl, copied⟩
    | ok copy s₂ =>
      obtain ⟨previous', assigned⟩ := assign_ok_of_lookup? bound ended copied
      rw [StoreM.bind_ok copied, assigned] at stopped
      cases stopped

end LittleScheme
