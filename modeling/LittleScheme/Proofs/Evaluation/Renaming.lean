import LittleScheme.Proofs.Store.RenamedCopy
import LittleScheme.Session

/-!
# Evaluation up to the names of cells

If one store is found in another, `evaluate` does the same in both: it comes to the same value, up
to the names of cells, or stops with the same fault, and of the stores that it leaves behind one is
found in the other by the same renaming.  The proof goes along the computations.  Whatever they look
at is in both stores, and whatever they make is the next cell of either store.
-/

namespace LittleScheme

variable {f : Loc → Loc} {s t : Store}

/-! ## Primitives -/

namespace Primitive

variable (p : Primitive) (renamed : s.Renamed f t)
include renamed

theorem tracks_exactlyOne {args : List Ref} (has : s.HasAll args) :
    TracksRef f s.size (p.exactlyOne args s) (p.exactlyOne (args.map (Ref.rename f)) t) := by
  match args with
  | [] => exact .fail renamed
  | [r] => exact .pure renamed (has r (by simp))
  | r :: r' :: rs =>
    simp only [exactlyOne, List.map_cons, List.length_cons, List.length_map]
    exact .fail renamed

theorem tracks_exactlyTwo {args : List Ref} (has : s.HasAll args) :
    Tracks f s.size (Prod.map (Ref.rename f) (Ref.rename f)) (fun rs s' => s'.HasAll [rs.1, rs.2])
      (p.exactlyTwo args s) (p.exactlyTwo (args.map (Ref.rename f)) t) := by
  match args with
  | [] | [r] => exact .fail renamed
  | [r, r'] => exact .pure renamed has
  | r :: r' :: r'' :: rs =>
    simp only [exactlyTwo, List.map_cons, List.length_cons, List.length_map]
    exact .fail renamed

theorem tracks_atLeastOne {args : List Ref} (has : s.HasAll args) :
    TracksRefs f s.size (p.atLeastOne args s) (p.atLeastOne (args.map (Ref.rename f)) t) := by
  cases args with
  | nil => exact .fail renamed
  | cons r rs => exact .pure renamed has

theorem tracks_integers (args : List Ref) :
    TracksSame f s.size (p.integers args s) (p.integers (args.map (Ref.rename f)) t) := by
  refine .get ?_
  rw [renamed.integers?]
  cases s.integers? args with
  | none => exact .fail renamed
  | some ns => exact .pure renamed trivial

theorem tracks_fields (r : Ref) :
    Tracks f s.size (Prod.map (Ref.rename f) (Ref.rename f))
      (fun fields s' => s'.Has fields.1 ∧ s'.Has fields.2)
      (p.fields r s) (p.fields (r.rename f) t) := by
  refine .get ?_
  rw [renamed.pair?]
  cases found : s.pair? r with
  | none => exact .fail renamed
  | some fields => exact .pure renamed (renamed.tidy.fields found)

theorem tracks_index (r : Ref) :
    TracksSame f s.size (p.index r s) (p.index (r.rename f) t) := by
  refine .get ?_
  rw [renamed.integer?]
  cases s.integer? r with
  | none => exact .fail renamed
  | some k => exact .pure renamed trivial

theorem tracks_boolean (value : Bool) :
    TracksRef f s.size (make (.boolean value) s) (make (.boolean value) t) :=
  tracks_make (.boolean value) renamed (by simp [Node.children, Store.HasAll])

theorem tracks_test {property : Store → Ref → Bool}
    (same : ∀ {s t : Store}, s.Renamed f t → ∀ r, property t (r.rename f) = property s r)
    {args : List Ref} (has : s.HasAll args) :
    TracksRef f s.size (p.test property args s)
      (p.test property (args.map (Ref.rename f)) t) := by
  refine (p.tracks_exactlyOne renamed has).bind ?_
  intro r s₁ t₁ renamed₁ _ _
  refine .get ?_
  rw [same renamed₁]
  exact tracks_boolean renamed₁ _

theorem tracks_relate (relation : Int → Int → Bool) (args : List Ref) :
    TracksRef f s.size (p.relate relation args s)
      (p.relate relation (args.map (Ref.rename f)) t) :=
  (p.tracks_integers renamed args).bind fun _ _ _ renamed₁ _ _ => tracks_boolean renamed₁ _

theorem tracks_compute (g : List Int → Except Error Int) (args : List Ref) :
    TracksRef f s.size (p.compute g args s) (p.compute g (args.map (Ref.rename f)) t) := by
  refine (p.tracks_integers renamed args).bind ?_
  intro ns s₁ t₁ renamed₁ _ _
  rw [id]
  cases g ns with
  | ok n =>
    exact tracks_make (.integer n) renamed₁ (by simp [Node.children, Store.HasAll])
  | error e => exact .fail renamed₁

theorem tracks_item {args : List Ref} (has : s.HasAll args) :
    TracksRef f s.size (p.item args s) (p.item (args.map (Ref.rename f)) t) := by
  refine (p.tracks_exactlyTwo renamed has).bind ?_
  intro rs s₁ t₁ renamed₁ _ _
  refine (tracks_listItems renamed₁ .runtime rs.1).bind ?_
  intro items s₂ t₂ renamed₂ _ hasItems
  refine (p.tracks_index renamed₂ rs.2).bind ?_
  intro k s₃ t₃ renamed₃ grown₃ _
  have picked : (if k < 0 then none else (items.map (Ref.rename f))[k.toNat]?) =
      (if k < 0 then none else items[k.toNat]?).map (Ref.rename f) := by
    split <;> simp
  simp only [id, picked]
  cases item : if k < 0 then none else items[k.toNat]? with
  | none => exact .fail renamed₃
  | some item' =>
    have listed : items[k.toNat]? = some item' := by
      split at item
      · cases item
      · exact item
    exact .pure renamed₃ ((hasItems item' (List.mem_of_getElem? listed)).mono grown₃)

theorem tracks_rest {args : List Ref} (has : s.HasAll args) :
    TracksRef f s.size (p.rest args s) (p.rest (args.map (Ref.rename f)) t) := by
  refine (p.tracks_exactlyTwo renamed has).bind ?_
  intro rs s₁ t₁ renamed₁ _ hasBoth
  refine (p.tracks_index renamed₁ rs.2).bind ?_
  intro k s₂ t₂ renamed₂ grown₂ _
  refine .get ?_
  simp only [id, renamed₂.drop?]
  cases dropped : s₂.drop? k.toNat rs.1 with
  | none => exact .fail renamed₂
  | some rest =>
    exact .pure renamed₂ (renamed₂.tidy.drop? _ ((hasBoth rs.1 (by simp)).mono grown₂) dropped)

/-- Primitives do the same in both stores. -/
theorem tracks_call {args : List Ref} (has : s.HasAll args) :
    TracksRef f s.size (p.call args s) (p.call (args.map (Ref.rename f)) t) := by
  cases p with
  | add | mul =>
    rw [call, call]
    exact tracks_compute _ renamed _ args
  | sub | div | max | min =>
    exact (tracks_atLeastOne _ renamed has).bind fun _ _ _ renamed₁ _ _ =>
      tracks_compute _ renamed₁ _ _
  | abs =>
    exact (tracks_exactlyOne _ renamed has).bind fun r _ _ renamed₁ _ _ =>
      tracks_compute _ renamed₁ _ [r]
  | eq | lt | gt | le | ge => exact tracks_relate _ renamed _ args
  | isPair => exact tracks_test _ renamed (fun renamed r => by simp [renamed.pair?]) has
  | isNull =>
    refine tracks_test _ renamed (fun _ r => ?_) has
    cases r <;> rfl
  | isList => exact tracks_test _ renamed (fun renamed r => renamed.isProperList r) has
  | isNumber => exact tracks_test _ renamed (fun renamed r => by simp [renamed.integer?]) has
  | isBoolean => exact tracks_test _ renamed (fun renamed r => by simp [renamed.boolean?]) has
  | isSymbol => exact tracks_test _ renamed (fun renamed r => by simp [renamed.symbolName?]) has
  | not => exact tracks_test _ renamed (fun renamed r => by simp [renamed.isTruthy]) has
  | list => exact tracks_makeList renamed has
  | cons =>
    exact (tracks_exactlyTwo _ renamed has).bind fun rs _ _ renamed₁ _ hasBoth =>
      tracks_make (.pair rs.1 rs.2) renamed₁ hasBoth
  | car =>
    exact (tracks_exactlyOne _ renamed has).bind fun _ _ _ renamed₁ _ _ =>
      (tracks_fields _ renamed₁ _).bind fun _ _ _ renamed₂ _ hasBoth => .pure renamed₂ hasBoth.1
  | cdr =>
    exact (tracks_exactlyOne _ renamed has).bind fun _ _ _ renamed₁ _ _ =>
      (tracks_fields _ renamed₁ _).bind fun _ _ _ renamed₂ _ hasBoth => .pure renamed₂ hasBoth.2
  | listRef => exact tracks_item _ renamed has
  | listTail => exact tracks_rest _ renamed has

end Primitive

/-! ## Forms, calls and evaluation -/

namespace Engine

/-- What the engine does is the same in stores of which one is found in the other. -/
structure Tracks (f : Loc → Loc) (engine : Engine) : Prop where
  evaluate : ∀ {s t : Store} {expr env} (place : Place), s.Renamed f t → s.Has expr →
    env < s.size → TracksRef f s.size (engine.evaluate place expr env s)
      (engine.evaluate place (expr.rename f) (f env) t)
  copy : ∀ {s t : Store} {r}, s.Renamed f t → s.Has r →
    TracksCopy f s (engine.copy r s) (engine.copy (r.rename f) t)

variable {engine : Engine} {env : Loc} {args : List Ref}

theorem tracks_quote (renamed : s.Renamed f t) (has : s.HasAll args) :
    TracksRef f s.size (quote args s) (quote (args.map (Ref.rename f)) t) := by
  match args with
  | [] => exact .fail renamed
  | [datum] => exact .pure renamed (has datum (by simp))
  | a :: b :: rest =>
    simp only [quote, Form.wrongCount, List.map_cons, List.length_cons, List.length_map]
    exact .fail renamed

theorem tracks_lambda (renamed : s.Renamed f t) (has : s.HasAll args) (exist : env < s.size) :
    TracksRef f s.size (lambda env args s) (lambda (f env) (args.map (Ref.rename f)) t) := by
  match args with
  | [] | [a] => exact .fail renamed
  | params :: expr :: more =>
    refine (tracks_listItems renamed .grammar params).bind ?_
    intro items s₁ t₁ renamed₁ grown₁ hasItems
    have hasBody : s₁.HasAll (expr :: more) := (Store.hasAll_cons.1 has).2.mono grown₁
    exact tracks_makeClosure renamed₁ hasItems hasBody (Nat.lt_of_lt_of_le exist grown₁)

variable (inside : engine.Tracks f) (renamed : s.Renamed f t) (exist : env < s.size)
include inside renamed exist

theorem tracks_evaluateAll (has : s.HasAll args) :
    TracksRefs f s.size (engine.evaluateAll env args s)
      (engine.evaluateAll (f env) (args.map (Ref.rename f)) t) := by
  induction args generalizing s t with
  | nil => exact .pure renamed (by simp [Store.HasAll])
  | cons expr exprs ih =>
    obtain ⟨first, later⟩ := Store.hasAll_cons.1 has
    refine (inside.evaluate .row renamed first exist).bind ?_
    intro value s₁ t₁ renamed₁ grown₁ hasValue
    refine (ih renamed₁ (Nat.lt_of_lt_of_le exist grown₁) (later.mono grown₁)).bind ?_
    intro values s₂ t₂ renamed₂ grown₂ hasValues
    exact .pure renamed₂ (Store.hasAll_cons.2 ⟨hasValue.mono grown₂, hasValues⟩)

theorem tracks_sequence (has : s.HasAll args) {last : Ref} (hasLast : s.Has last) :
    TracksRef f s.size (engine.sequence env last args s)
      (engine.sequence (f env) (last.rename f) (args.map (Ref.rename f)) t) := by
  induction args generalizing s t last with
  | nil => exact .pure renamed hasLast
  | cons expr exprs ih =>
    obtain ⟨first, later⟩ := Store.hasAll_cons.1 has
    refine (inside.evaluate .single renamed first exist).bind ?_
    intro value s₁ t₁ renamed₁ grown₁ hasValue
    exact ih renamed₁ (Nat.lt_of_lt_of_le exist grown₁) (later.mono grown₁) hasValue

theorem tracks_branch (has : s.HasAll args) :
    TracksRef f s.size (engine.branch env args s)
      (engine.branch (f env) (args.map (Ref.rename f)) t) := by
  match args with
  | [] | [a] => exact .fail renamed
  | [condition, consequent] =>
    refine (inside.evaluate .single renamed (has condition (by simp)) exist).bind ?_
    intro value s₁ t₁ renamed₁ grown₁ _
    refine .get ?_
    rw [renamed₁.isTruthy]
    split
    · exact inside.evaluate .single renamed₁ ((has consequent (by simp)).mono grown₁)
        (Nat.lt_of_lt_of_le exist grown₁)
    · exact .pure renamed₁ s₁.has_nil
  | [condition, consequent, alternative] =>
    refine (inside.evaluate .single renamed (has condition (by simp)) exist).bind ?_
    intro value s₁ t₁ renamed₁ grown₁ _
    refine .get ?_
    rw [renamed₁.isTruthy]
    split
    · exact inside.evaluate .single renamed₁ ((has consequent (by simp)).mono grown₁)
        (Nat.lt_of_lt_of_le exist grown₁)
    · exact inside.evaluate .single renamed₁ ((has alternative (by simp)).mono grown₁)
        (Nat.lt_of_lt_of_le exist grown₁)
  | a :: b :: c :: d :: rest =>
    simp only [branch, List.map_cons, List.length_cons, List.length_map]
    exact .fail renamed

theorem tracks_define (has : s.HasAll args) :
    TracksRef f s.size (engine.define env args s)
      (engine.define (f env) (args.map (Ref.rename f)) t) := by
  match args with
  | [] | [a] => exact .fail renamed
  | target :: expr :: more =>
    obtain ⟨hasTarget, hasBody⟩ := Store.hasAll_cons.1 has
    refine .get ?_
    rw [renamed.node?, renamed.toList?]
    cases found : s.node? target with
    | none => exact .fail renamed
    | some node =>
      cases node with
      | symbol name =>
        cases more with
        | nil =>
          refine (inside.evaluate .single renamed (hasBody expr (by simp)) exist).bind ?_
          intro value s₁ t₁ renamed₁ grown₁ hasValue
          refine (inside.copy renamed₁ hasValue).bind ?_
          rintro copy s₂ t₂ renamed₂ grown₂ ⟨hasCopy, -⟩
          refine (LittleScheme.tracks_define renamed₂ env name hasCopy).bind ?_
          intro _ s₃ t₃ renamed₃ grown₃ _
          exact .pure renamed₃ (hasTarget.mono (grown₁.trans (grown₂.trans grown₃)))
        | cons next rest =>
          simp only [List.length_map]
          exact .fail renamed
      | pair first second =>
        cases listed : s.toList? target with
        | none => exact .fail renamed
        | some items =>
          cases items with
          | nil => exact .fail renamed
          | cons name params =>
            obtain ⟨hasName, hasParams⟩ := Store.hasAll_cons.1 (renamed.tidy.toList? listed)
            simp only [Option.map_some, List.map_cons, renamed.symbolName?]
            cases s.symbolName? name with
            | none => exact .fail renamed
            | some text =>
              refine (tracks_makeClosure renamed hasParams hasBody exist).bind ?_
              intro closure s₁ t₁ renamed₁ grown₁ hasClosure
              refine (LittleScheme.tracks_define renamed₁ env text hasClosure).bind ?_
              intro _ s₂ t₂ renamed₂ grown₂ _
              exact .pure renamed₂ (hasName.mono (grown₁.trans grown₂))
      | integer value | boolean value | builtin op => exact .fail renamed
      | environment frame => exact .fail renamed
      | closure params body captured => exact .fail renamed

theorem tracks_assign (has : s.HasAll args) :
    TracksRef f s.size (engine.assign env args s)
      (engine.assign (f env) (args.map (Ref.rename f)) t) := by
  match args with
  | [] | [a] => exact .fail renamed
  | [target, expr] =>
    refine .get ?_
    rw [renamed.symbolName?]
    cases s.symbolName? target with
    | none => exact .fail renamed
    | some name =>
      refine (tracks_resolve renamed exist name).discard.bind ?_
      intro _ s₁ t₁ renamed₁ grown₁ _
      have exist₁ := Nat.lt_of_lt_of_le exist grown₁
      refine (inside.evaluate .single renamed₁ ((has expr (by simp)).mono grown₁) exist₁).bind ?_
      intro value s₂ t₂ renamed₂ grown₂ hasValue
      refine (inside.copy renamed₂ hasValue).bind ?_
      rintro copy s₃ t₃ renamed₃ grown₃ ⟨hasCopy, -⟩
      exact LittleScheme.tracks_assign renamed₃
        (Nat.lt_of_lt_of_le exist₁ (grown₂.trans grown₃)) name hasCopy
  | a :: b :: c :: rest =>
    simp only [assign, Form.wrongCount, List.map_cons, List.length_cons, List.length_map]
    exact .fail renamed

omit exist in
theorem tracks_storeField (field : Field) (pair : Ref) {value : Ref} (has : s.Has value) :
    TracksRef f s.size (engine.storeField field pair value s)
      (engine.storeField field (pair.rename f) (value.rename f) t) := by
  refine .get ?_
  rw [renamed.pair?]
  cases pair with
  | nil => exact .fail renamed
  | cell loc =>
    cases found : s.pair? (.cell loc) with
    | none => exact .fail renamed
    | some fields =>
      have exist : loc < s.size := Store.lt_size (Store.pair?_eq_some.1 found)
      obtain ⟨hasFirst, hasSecond⟩ := renamed.tidy.fields found
      have hasOld : s.Has (field.get fields) := by cases field <;> assumption
      have written (copy : Ref) (s₁ t₁ : Store) (renamed₁ : s₁.Renamed f t₁)
          (grown₁ : s.size ≤ s₁.size) (hasCopy : s₁.Has copy) :
          TracksRef f s₁.size
            ((overwrite loc (field.set copy fields) >>= fun _ => pure (field.get fields)) s₁)
            ((overwrite (f loc)
                (field.set (copy.rename f) (fields.1.rename f, fields.2.rename f)) >>=
              fun _ => pure (field.get (fields.1.rename f, fields.2.rename f))) t₁) := by
        have held : s₁.HasAll (field.set copy fields).children := by
          have first := hasFirst.mono grown₁
          have second := hasSecond.mono grown₁
          cases field <;> simp_all [Field.set, Node.children, Store.HasAll]
        have overwritten := tracks_overwrite renamed₁ (Nat.lt_of_lt_of_le exist grown₁) held
          (by cases field <;> simp [Field.set])
        have same : (field.set copy fields).rename f =
            field.set (copy.rename f) (fields.1.rename f, fields.2.rename f) := by
          cases field <;> rfl
        rw [same] at overwritten
        refine overwritten.bind ?_
        intro _ s₂ t₂ renamed₂ grown₂ _
        exact .ok renamed₂ (Nat.le_refl _) (hasOld.mono (grown₁.trans grown₂))
          (by cases field <;> rfl)
      simp only [Option.map_some, Ref.rename_cell, renamed.rename_eq_cell]
      split
      · have kept : TracksRef f s.size ((pure value : StoreM Ref) s)
            ((pure (value.rename f) : StoreM Ref) t) :=
          .pure renamed has
        exact kept.bind written
      · exact (inside.copy renamed has).has.bind written

theorem tracks_setField (field : Field) (has : s.HasAll args) :
    TracksRef f s.size (engine.setField field env args s)
      (engine.setField field (f env) (args.map (Ref.rename f)) t) := by
  match args with
  | [] | [a] => exact .fail renamed
  | [target, expr] =>
    refine (inside.evaluate .row renamed (has target (by simp)) exist).bind ?_
    intro pair s₁ t₁ renamed₁ grown₁ _
    refine (inside.evaluate .row renamed₁ ((has expr (by simp)).mono grown₁)
      (Nat.lt_of_lt_of_le exist grown₁)).bind ?_
    intro value s₂ t₂ renamed₂ _ hasValue
    exact tracks_storeField inside renamed₂ field pair hasValue
  | a :: b :: c :: rest =>
    simp only [setField, Form.wrongCount, List.map_cons, List.length_cons, List.length_map]
    exact .fail renamed

theorem tracks_conj (has : s.HasAll args) :
    TracksRef f s.size (engine.conj env args s)
      (engine.conj (f env) (args.map (Ref.rename f)) t) := by
  induction args generalizing s t with
  | nil => exact Primitive.tracks_boolean renamed true
  | cons expr exprs ih =>
    obtain ⟨first, later⟩ := Store.hasAll_cons.1 has
    refine (inside.evaluate .single renamed first exist).bind ?_
    intro value s₁ t₁ renamed₁ grown₁ hasValue
    refine .get ?_
    simp only [renamed₁.isTruthy, List.map_eq_nil_iff]
    split
    · split
      · exact .pure renamed₁ hasValue
      · exact ih renamed₁ (Nat.lt_of_lt_of_le exist grown₁) (later.mono grown₁)
    · exact Primitive.tracks_boolean renamed₁ false

theorem tracks_disj (has : s.HasAll args) :
    TracksRef f s.size (engine.disj env args s)
      (engine.disj (f env) (args.map (Ref.rename f)) t) := by
  induction args generalizing s t with
  | nil => exact Primitive.tracks_boolean renamed false
  | cons expr exprs ih =>
    obtain ⟨first, later⟩ := Store.hasAll_cons.1 has
    refine (inside.evaluate .single renamed first exist).bind ?_
    intro value s₁ t₁ renamed₁ grown₁ hasValue
    refine .get ?_
    simp only [renamed₁.isTruthy, List.map_eq_nil_iff]
    split
    · split
      · exact .pure renamed₁ hasValue
      · exact Primitive.tracks_boolean renamed₁ true
    · exact ih renamed₁ (Nat.lt_of_lt_of_le exist grown₁) (later.mono grown₁)

/-- Forms do the same in both stores. -/
theorem tracks_form (form : Form) (operands : Ref) :
    TracksRef f s.size (engine.form form operands env s)
      (engine.form form (operands.rename f) (f env) t) := by
  refine (tracks_listItems renamed (operandCategory form) operands).bind ?_
  intro args s₁ t₁ renamed₁ grown₁ has
  have exist₁ := Nat.lt_of_lt_of_le exist grown₁
  cases form with
  | quote => exact tracks_quote renamed₁ has
  | branch => exact tracks_branch inside renamed₁ exist₁ has
  | define => exact tracks_define inside renamed₁ exist₁ has
  | lambda => exact tracks_lambda renamed₁ has exist₁
  | assign => exact tracks_assign inside renamed₁ exist₁ has
  | setCar => exact tracks_setField inside renamed₁ exist₁ .first has
  | setCdr => exact tracks_setField inside renamed₁ exist₁ .second has
  | conj => exact tracks_conj inside renamed₁ exist₁ has
  | disj => exact tracks_disj inside renamed₁ exist₁ has

omit inside exist in
theorem parameterBindings_rename (params values : List Ref) :
    parameterBindings t (params.map (Ref.rename f)) (values.map (Ref.rename f)) =
      (parameterBindings s params values).map fun binding => (binding.1, binding.2.rename f) := by
  rw [parameterBindings, parameterBindings, List.zip_map, List.filterMap_map, List.map_filterMap]
  refine List.filterMap_congr fun both _ => ?_
  simp [renamed.symbolName?, Function.comp_def]

omit exist in
theorem tracks_copyAll {rs : List Ref} (has : s.HasAll rs) :
    TracksRefs f s.size (copyEach engine.copy rs s)
      (copyEach engine.copy (rs.map (Ref.rename f)) t) := by
  have keep {s₁ t₁ s₂ t₂ : Store} (holds : s₁.Renamed f t₁ ∧ s.size ≤ s₁.size)
      (renamed₂ : s₂.Renamed f t₂) (extended : s₁.Extended s₂) :
      s₂.Renamed f t₂ ∧ s.size ≤ s₂.size :=
    ⟨renamed₂, holds.2.trans extended.size_le⟩
  have copied := tracks_copyEach keep
    (fun holds r member => inside.copy holds.1 ((has r member).mono holds.2)) renamed
    ⟨renamed, Nat.le_refl _⟩
  exact copied.imp (Nat.le_refl _) fun _ _ _ => And.left

omit exist in
theorem tracks_enterCall {params values : List Ref} {captured : Option Loc}
    (hasValues : s.HasAll values) (hasCaptured : s.HasAll (captured.toList.map .cell)) :
    TracksLoc f s.size (engine.enterCall params values captured s)
      (engine.enterCall (params.map (Ref.rename f)) (values.map (Ref.rename f)) (captured.map f)
        t) := by
  refine (tracks_copyAll inside renamed hasValues).bind ?_
  intro copies s₁ t₁ renamed₁ grown₁ hasCopies
  have around : ∀ env ∈ captured, env < s₁.size := by
    intro env member
    exact Store.has_cell.1 ((hasCaptured.mono grown₁) (.cell env) (by simpa using member))
  have allocated {node : Node} (held : s₁.HasAll node.children) :
      TracksLoc f s₁.size (allocate node s₁) (allocate (node.rename f) t₁) := by
    refine (tracks_allocate node renamed₁ held).imp (Nat.le_refl _) ?_
    rintro _ _ - ⟨rfl, rfl⟩
    simp
  refine .get ?_
  simp only [namelessParameter?, List.find?_map, Function.comp_def, renamed₁.symbolName?,
    parameterBindings_rename renamed₁]
  cases params.find? fun r => (s₁.symbolName? r).isNone with
  | some r =>
    simp only [Option.map_some, renamed₁.kindName]
    refine (allocated (tidiness.hereditary.outerFrame around)).discard.bind ?_
    intro _ s₂ t₂ renamed₂ _ _
    exact .throw _ renamed₂
  | none =>
    have entered := allocated (tidiness.hereditary.enterFrame params around hasCopies)
    rw [Node.rename, ← Frame.defineAll_rename] at entered
    exact entered

theorem tracks_applyClosure {params body : List Ref} {captured : Option Loc}
    (has : s.HasAll (Node.closure params body captured).children) (operands : Ref) :
    TracksRef f s.size (engine.applyClosure params body captured operands env s)
      (engine.applyClosure (params.map (Ref.rename f)) (body.map (Ref.rename f)) (captured.map f)
        (operands.rename f) (f env) t) := by
  obtain ⟨code, hasCaptured⟩ := Store.hasAll_append.1 has
  obtain ⟨-, hasBody⟩ := Store.hasAll_append.1 code
  refine (tracks_listItems renamed .runtime operands).bind ?_
  intro exprs s₁ t₁ renamed₁ grown₁ hasExprs
  simp only [List.length_map]
  split
  · refine (tracks_evaluateAll inside renamed₁ (Nat.lt_of_lt_of_le exist grown₁) hasExprs).bind ?_
    intro values s₂ t₂ renamed₂ grown₂ hasValues
    have grown₂ := grown₁.trans grown₂
    refine (tracks_enterCall inside renamed₂ hasValues (hasCaptured.mono grown₂)).bind ?_
    intro inner s₃ t₃ renamed₃ grown₃ exist₃
    have hasBody₃ := hasBody.mono (grown₂.trans grown₃)
    refine (tracks_copyAll inside renamed₃ hasBody₃).bind ?_
    intro forms s₄ t₄ renamed₄ grown₄ hasForms
    exact tracks_sequence inside renamed₄ (Nat.lt_of_lt_of_le exist₃ grown₄) hasForms s₄.has_nil
  · exact .fail renamed₁

theorem tracks_apply (head operands : Ref) :
    TracksRef f s.size (engine.apply head operands env s)
      (engine.apply (head.rename f) (operands.rename f) (f env) t) := by
  refine .get ?_
  rw [renamed.node?, renamed.objection]
  cases found : s.node? head with
  | none => exact .throw _ renamed
  | some node =>
    cases node with
    | builtin op =>
      cases op with
      | form form => exact tracks_form inside renamed exist form operands
      | primitive p =>
        refine (tracks_listItems renamed .runtime operands).bind ?_
        intro exprs s₁ t₁ renamed₁ grown₁ hasExprs
        refine (tracks_evaluateAll inside renamed₁ (Nat.lt_of_lt_of_le exist grown₁)
          hasExprs).bind ?_
        intro values s₂ t₂ renamed₂ _ hasValues
        exact p.tracks_call renamed₂ hasValues
    | closure params body captured =>
      exact tracks_applyClosure inside renamed exist (renamed.tidy.children found) operands
    | integer value | boolean value | symbol name => exact .throw _ renamed
    | pair first second => exact .throw _ renamed
    | environment frame => exact .throw _ renamed

theorem tracks_step {expr : Ref} (has : s.Has expr) :
    TracksRef f s.size (engine.step expr env s) (engine.step (expr.rename f) (f env) t) := by
  refine .get ?_
  rw [renamed.node?, renamed.objection]
  cases found : s.node? expr with
  | none => exact .throw _ renamed
  | some node =>
    cases node with
    | integer value | boolean value => exact .pure renamed has
    | symbol name => exact tracks_resolve renamed exist name
    | pair head operands =>
      obtain ⟨hasHead, -⟩ := Store.hasAll_cons.1 (renamed.tidy.children found)
      refine (inside.evaluate .head renamed hasHead exist).bind ?_
      intro procedure s₁ t₁ renamed₁ grown₁ hasProcedure
      have applied : TracksRef f s₁.size
          ((engine.copy procedure >>= fun copy => engine.apply copy operands env) s₁)
          ((engine.copy (procedure.rename f) >>= fun copy =>
            engine.apply copy (operands.rename f) (f env)) t₁) :=
        (inside.copy renamed₁ hasProcedure).bind fun copy _ _ renamed₂ grown₂ _ =>
          tracks_apply inside renamed₂ (Nat.lt_of_lt_of_le exist (grown₁.trans grown₂)) copy
            operands
      refine .look renamed₁ ?_
      cases s₁.node? procedure with
      | none => exact .fail renamed₁
      | some node =>
        cases node with
        | builtin op => exact applied
        | closure params body captured => exact applied
        | integer value | boolean value | symbol name => exact .fail renamed₁
        | pair first second => exact .fail renamed₁
        | environment frame => exact .fail renamed₁
    | environment frame => exact .throw _ renamed
    | builtin op => exact .throw _ renamed
    | closure params body captured => exact .throw _ renamed

end Engine

/-- Evaluation does the same in both stores. -/
theorem tracks_evaluate (budget : Nat) {expr : Ref} {env : Loc} (renamed : s.Renamed f t)
    (has : s.Has expr) (exist : env < s.size) :
    TracksRef f s.size (evaluate budget expr env s)
      (evaluate budget (expr.rename f) (f env) t) := by
  induction budget using Nat.strongRecOn generalizing expr env s t with
  | ind budget ih =>
    by_cases enough : Place.row.cost ≤ budget
    · rw [evaluate_eq_step enough]
      refine Engine.tracks_step ⟨?_, fun renamed has => tracks_duplicate renamed _ has⟩ renamed
        exist has
      intro s t expr env place renamed has exist
      have positive : 0 < place.cost := by cases place <;> decide
      have : 0 < Place.row.cost := by decide
      exact ih _ (by omega) renamed has exist
    · rw [evaluate_of_lt (by omega)]
      exact .throw _ renamed

/-! ## Reading and printing -/

theorem tracks_build (d : Datum) (renamed : s.Renamed f t) :
    TracksRef f s.size (build d s) (build d t) := by
  induction d generalizing s t with
  | nil => exact .pure renamed s.has_nil
  | leaf a =>
    have made := tracks_make (a.node) renamed
      (by cases a <;> simp [Atom.node, Node.children, Store.HasAll])
    cases a <;> exact made
  | pair first second ihFirst ihSecond =>
    refine (ihFirst renamed).bind ?_
    intro r s₁ t₁ renamed₁ _ has
    refine (ihSecond renamed₁).bind ?_
    intro r' s₂ t₂ renamed₂ grown₂ has'
    refine tracks_make (.pair r r') renamed₂ ?_
    simpa [Node.children, Store.HasAll] using ⟨has.mono grown₂, has'⟩

theorem tracks_readValue (limit : Nat) (source : String) (renamed : s.Renamed f t) :
    TracksRef f s.size (readValue limit source s) (readValue limit source t) := by
  have all (ds : List Datum) {s t : Store} (renamed : s.Renamed f t) :
      TracksRefs f s.size (buildAll ds s) (buildAll ds t) := by
    induction ds generalizing s t with
    | nil => exact .pure renamed (by simp [Store.HasAll])
    | cons d ds ih =>
      refine (tracks_build d renamed).bind ?_
      intro r s₁ t₁ renamed₁ _ has
      refine (ih renamed₁).bind ?_
      intro rs s₂ t₂ renamed₂ grown₂ hasAll
      exact .pure renamed₂ (Store.hasAll_cons.2 ⟨has.mono grown₂, hasAll⟩)
  rw [readValue]
  cases Datum.read limit source with
  | ok d => exact tracks_build d renamed
  | error failure =>
    exact (all failure.2 renamed).discard.bind fun _ _ _ renamed₁ _ _ => .throw _ renamed₁

theorem tracks_valueText (budget depth : Nat) {globals : Loc} {expr : Ref} (renamed : s.Renamed f t)
    (has : s.Has expr) (exist : globals < s.size) :
    TracksSame f s.size (Session.valueText budget depth globals expr s)
      (Session.valueText budget depth (f globals) (expr.rename f) t) := by
  refine (tracks_evaluate budget renamed has exist).bind ?_
  intro value s₁ t₁ renamed₁ _ _
  refine .get ?_
  rw [renamed₁.render depth value]
  cases s₁.render depth value with
  | ok text => exact .pure renamed₁ trivial
  | error fault => exact .throw _ renamed₁

end LittleScheme
