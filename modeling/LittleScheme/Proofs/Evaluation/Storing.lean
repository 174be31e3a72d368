import LittleScheme.Proofs.Evaluation.Containment

/-!
# Forms that store a value

`define`, `set!`, `set-car!` and `set-cdr!` proceed in stages, the `Course` of the form.  They look
at their operands as these stand, and refuse what is malformed and what is not bound; then they
evaluate operands, one after the other; and only then they perform their `Deed`.  This is a single
write, which comes last: the new value is copied into new cells before, or it is a procedure made of
new cells.  So if a form fails, at whatever stage, nothing is changed that was there when the last
evaluation that it has started was over.

The course is laid down by the store in which the form begins.  It does not depend on the engine,
which is asked for the value of each operand and, in the end, for a copy.
-/

namespace LittleScheme

/-! ## Courses -/

/-- The forms that store a value, in a binding or in a field of a pair. -/
inductive Storing
  | define
  | assign
  | set (field : Field)
deriving DecidableEq

/-- The form as an operator. -/
def Storing.form : Storing → Form
  | .define => .define
  | .assign => .assign
  | .set field => field.form

/-- What a form does in the end, when its operands have been evaluated. -/
inductive Deed
  /-- Bind a name to a copy of the value. -/
  | bind (target : Ref) (name : String) (value : Ref)
  /-- Bind a name to a new procedure. -/
  | procedure (target : Ref) (name : String) (params body : List Ref)
  /-- Bind a name anew to a copy of the value. -/
  | rebind (name : String) (value : Ref)
  /-- Store a copy of the value in a field of a pair. -/
  | store (field : Field) (pair value : Ref)

/-- An engine that copies, but evaluates nothing. -/
def Engine.idle (copy : Ref → StoreM Ref) : Engine where
  evaluate _ _ _ := throw .tooDeep
  copy := copy

/-- Do it, in a scope. -/
def Deed.perform (copy : Ref → StoreM Ref) (env : Loc) : Deed → StoreM Ref
  | .bind target name value => do
    let value ← copy value
    define env name value
    return target
  | .procedure target name params body => do
    let closure ← makeClosure params body (some env)
    define env name closure
    return target
  | .rebind name value => do
    let value ← copy value
    assign env name value
  | .store field pair value => (Engine.idle copy).storeField field pair value

/-- The stages of a form: it refuses its operands, or evaluates one and goes on with the value, or
it is ready to act. -/
inductive Course
  | refuse (fault : Fault)
  | evaluate (place : Place) (expr : Ref) (next : Ref → Course)
  | act (deed : Deed)

namespace Course

/-- Go through the stages. -/
def run (engine : Engine) (env : Loc) : Course → StoreM Ref
  | .refuse fault => throw fault
  | .evaluate place expr next => do
    let value ← engine.evaluate place expr env
    (next value).run engine env
  | .act deed => deed.perform engine.copy env

/-- Where the evaluations of a course lead to. -/
inductive Stage
  /-- The operands are refused. -/
  | refused (fault : Fault)
  /-- An evaluation has failed. -/
  | interrupted (fault : Fault)
  /-- All evaluations have ended well. -/
  | ready (deed : Deed)

/-- How far the evaluations lead, and the store when the last of them that was started is over; this
is the store to begin with if none is started. -/
def evaluated (engine : Engine) (env : Loc) : Course → Store → Stage × Store
  | .refuse fault, s => (.refused fault, s)
  | .evaluate place expr next, s =>
    match engine.evaluate place expr env s with
    | .ok value t => (next value).evaluated engine env t
    | .error fault t => (.interrupted fault, t)
  | .act deed, s => (.ready deed, s)

/-- Every way through the course ends in a deed of this kind. -/
def Ends (P : Deed → Prop) : Course → Prop
  | .refuse _ => False
  | .evaluate _ _ next => ∀ value, (next value).Ends P
  | .act deed => P deed

variable {engine : Engine} {env : Loc} {P : Deed → Prop}

/-- A course is its evaluations and what comes after them. -/
theorem run_eq (course : Course) (s : Store) :
    course.run engine env s =
      match course.evaluated engine env s with
      | (.refused fault, t) => .error fault t
      | (.interrupted fault, t) => .error fault t
      | (.ready deed, t) => deed.perform engine.copy env t := by
  induction course generalizing s with
  | refuse fault => rfl
  | act deed => rfl
  | evaluate place expr next ih =>
    rw [run, evaluated]
    cases ended : engine.evaluate place expr env s with
    | ok value t => rw [StoreM.bind_ok ended, ih]
    | error fault t => rw [StoreM.bind_error ended]

/-- The evaluations lead to a deed of the kind, unless one of them fails; `inv` is what each of them
keeps to. -/
theorem Ends.evaluated {course : Course} (ends : course.Ends P) {inv : Store → Prop}
    (keeps : ∀ place expr t, inv t → inv (StoreM.storeAfter (engine.evaluate place expr env) t))
    {s : Store} (holds : inv s) {stage : Stage} {t : Store}
    (led : course.evaluated engine env s = (stage, t)) :
    inv t ∧ ((∃ fault, stage = .interrupted fault) ∨ ∃ deed, stage = .ready deed ∧ P deed) := by
  induction course generalizing s with
  | refuse fault => exact ends.elim
  | act deed =>
    cases led
    exact ⟨holds, .inr ⟨deed, rfl, ends⟩⟩
  | evaluate place expr next ih =>
    have kept := keeps place expr s holds
    rw [Course.evaluated] at led
    rw [StoreM.storeAfter] at kept
    cases ended : engine.evaluate place expr env s with
    | ok value t' =>
      rw [ended] at led kept
      exact ih value (ends value) kept led
    | error fault t' =>
      rw [ended] at led kept
      cases led
      exact ⟨kept, .inl ⟨fault, rfl⟩⟩

end Course

/-! ## The courses of the forms -/

namespace Store

/-- The course of a definition. -/
def defineCourse (s : Store) : List Ref → Course
  | target :: expr :: more =>
    match s.node? target with
    | some (.symbol name) =>
      if more = [] then .evaluate .single expr fun value => .act (.bind target name value)
      else .refuse (.error (.wrongCount (.op (.form .define)) 2 (more.length + 2)))
    | some (.pair _ _) =>
      match s.toList? target with
      | some (name :: params) =>
        match s.symbolName? name with
        | some text =>
          if params.all fun r => (s.symbolName? r).isSome then
            .act (.procedure name text params (expr :: more))
          else .refuse (.error .parameterExpected)
        | none => .refuse (.error .procedureNameExpected)
      | _ => .refuse (.error .defineShape)
    | _ => .refuse (.error .defineShape)
  | args => .refuse (.error (.tooFew (.op (.form .define)) 2 args.length))

/-- The course of an assignment. -/
def assignCourse (s : Store) (env : Loc) : List Ref → Course
  | [target, expr] =>
    match s.symbolName? target with
    | none => .refuse (.error .assignTarget)
    | some name =>
      match s.lookup? env name with
      | none => .refuse (s.unresolved env name)
      | some _ => .evaluate .single expr fun value => .act (.rebind name value)
  | args => .refuse (.error (.wrongCount (.op (.form .assign)) 2 args.length))

end Store

/-- The course of a form that stores into a field. -/
def Field.course (field : Field) : List Ref → Course
  | [target, expr] =>
    .evaluate .row target fun pair =>
      .evaluate .row expr fun value => .act (.store field pair value)
  | args => .refuse (.error (.wrongCount (.op (.form field.form)) 2 args.length))

/-- The course that a form takes from a store, in a scope. -/
def Storing.course (f : Storing) (s : Store) (env : Loc) (operands : Ref) : Course :=
  match s.toList? operands with
  | none => .refuse (.error (.improperList .grammar))
  | some args =>
    match f with
    | .define => s.defineCourse args
    | .assign => s.assignCourse env args
    | .set field => field.course args

theorem listItems_eq (category : Category) (r : Ref) (s : Store) :
    listItems category r s =
      match s.toList? r with
      | some items => .ok items s
      | none => .error (.error (.improperList category)) s := by
  change (match s.toList? r with
    | some items => (pure items : StoreM (List Ref))
    | none => fail (.improperList category)) s = _
  cases s.toList? r <;> rfl

theorem resolve_eq (env : Loc) (name : String) (s : Store) :
    resolve env name s =
      match s.lookup? env name with
      | some value => .ok value s
      | none => .error (s.unresolved env name) s := by
  change (match s.lookup? env name with
    | some value => (pure value : StoreM Ref)
    | none => throw (s.unresolved env name)) s = _
  cases s.lookup? env name <;> rfl

/-- The value of a symbol takes no more than one step. -/
theorem evaluate_symbol {budget : Nat} (enough : Place.row.cost ≤ budget) {s : Store} {target : Ref}
    {name : String} (named : s.symbolName? target = some name) (env : Loc) :
    evaluate budget target env s = resolve env name s := by
  have looked : (get : StoreM Store) s = .ok s s := rfl
  rw [evaluate_eq_step enough, Engine.step, StoreM.bind_ok looked,
    Store.symbolName?_eq_some.1 named]

section Forms

variable (engine : Engine) (env : Loc) (s : Store)

theorem makeClosure_eq (params body : List Ref) (outer : Option Loc) :
    makeClosure params body outer s =
      if params.all fun r => (s.symbolName? r).isSome then
        (do
          let captured ← allocate (.environment { outer })
          make (.closure params body (some captured)) : StoreM Ref) s
      else .error (.error .parameterExpected) s := by
  have looked : (get : StoreM Store) s = .ok s s := rfl
  rw [makeClosure, StoreM.bind_ok looked]
  split <;> rfl

theorem define_eq_run (args : List Ref) :
    engine.define env args s = (s.defineCourse args).run engine env s := by
  match args with
  | [] => rfl
  | [target] => rfl
  | target :: expr :: more =>
    have looked : (get : StoreM Store) s = .ok s s := rfl
    rw [Engine.define, StoreM.bind_ok looked, Store.defineCourse]
    cases found : s.node? target with
    | none => rfl
    | some node =>
      cases node with
      | symbol name => by_cases single : more = [] <;> simp only [single, if_true, if_false] <;> rfl
      | pair first second =>
        cases listed : s.toList? target with
        | none => rfl
        | some items =>
          cases items with
          | nil => rfl
          | cons name params =>
            cases named : s.symbolName? name with
            | none => simp only [named]; rfl
            | some text =>
              simp only [named]
              split
              · rfl
              · rename_i other
                rw [StoreM.bind_error (by rw [makeClosure_eq, if_neg other])]
                rfl
      | integer | boolean | environment | builtin | closure => rfl

theorem assign_eq_run (args : List Ref) :
    engine.assign env args s = (s.assignCourse env args).run engine env s := by
  match args with
  | [] => rfl
  | [target] => rfl
  | [target, expr] =>
    have looked : (get : StoreM Store) s = .ok s s := rfl
    rw [Engine.assign, StoreM.bind_ok looked, Store.assignCourse]
    cases named : s.symbolName? target with
    | none => rfl
    | some name =>
      simp only
      rw [StoreM.discard_eq, bind_assoc]
      have resolved := resolve_eq env name s
      cases bound : s.lookup? env name with
      | none =>
        rw [bound] at resolved
        rw [StoreM.bind_error resolved]
        rfl
      | some previous =>
        rw [bound] at resolved
        rw [StoreM.bind_ok resolved]
        rfl
  | target :: expr :: other :: more => rfl

theorem setField_eq_run (field : Field) (args : List Ref) :
    engine.setField field env args s = (field.course args).run engine env s := by
  match args with
  | [] => rfl
  | [target] => rfl
  | [target, expr] => rfl
  | target :: expr :: other :: more => rfl

end Forms

/-- A form takes its course, whatever the engine. -/
theorem Storing.form_eq_run (f : Storing) (engine : Engine) (operands : Ref) (env : Loc)
    (s : Store) :
    engine.form f.form operands env s = (f.course s env operands).run engine env s := by
  have listed := listItems_eq (Engine.operandCategory f.form) operands s
  rw [Engine.form, Storing.course]
  cases items : s.toList? operands with
  | none =>
    rw [items] at listed
    rw [StoreM.bind_error listed]
    rcases f with _ | _ | _ | _ <;> rfl
  | some args =>
    rw [items] at listed
    rw [StoreM.bind_ok listed]
    rcases f with _ | _ | _ | _
    · exact define_eq_run engine env s args
    · exact assign_eq_run engine env s args
    · exact setField_eq_run engine env s .first args
    · exact setField_eq_run engine env s .second args

/-! ## Where courses end -/

/-- What a form of this kind has made sure of, in the store in which it began, when it is ready. -/
def Deed.Fits (s : Store) (env : Loc) (f : Storing) : Deed → Prop
  | .bind _ _ _ => f = .define
  | .procedure _ _ params _ => f = .define ∧ ∀ r ∈ params, (s.symbolName? r).isSome
  | .rebind name _ => f = .assign ∧ ∃ previous, s.lookup? env name = some previous
  | .store field _ _ => f = .set field

/-- The shape that a form asks of its operands: a definition takes a name and an expression, or a
heading, which is a list of names, and a body; an assignment takes a name and an expression; the
others take any two operands. -/
def Storing.Takes (s : Store) (args : List Ref) : Storing → Prop
  | .define =>
    (∃ target expr, args = [target, expr] ∧ (s.symbolName? target).isSome) ∨
    ∃ heading expr more name params, args = heading :: expr :: more ∧
      s.toList? heading = some (name :: params) ∧ ∀ r ∈ name :: params, (s.symbolName? r).isSome
  | .assign => ∃ target expr, args = [target, expr] ∧ (s.symbolName? target).isSome
  | .set _ => ∃ target expr, args = [target, expr]

/-- The operands are a list in the shape that the form asks for. -/
def Storing.Shaped (f : Storing) (s : Store) (operands : Ref) : Prop :=
  ∃ args, s.toList? operands = some args ∧ f.Takes s args

theorem Store.unresolved_cases (s : Store) (env : Loc) (name : String) :
    (∃ e, s.unresolved env name = .error e) ∨ s.unresolved env name = .endless := by
  rw [unresolved]
  cases s.isEndless env with
  | true => exact .inr rfl
  | false => exact .inl ⟨_, rfl⟩

/-- A form finds fault with the shape of its operands at once, or with a name to assign to that is
not bound; else it ends in a deed. -/
theorem Storing.course_cases (f : Storing) (s : Store) (env : Loc) (operands : Ref) :
    (∃ e, f.course s env operands = .refuse (.error e) ∧ e.category = .grammar) ∨
    f.Shaped s operands ∧
      ((f = .assign ∧ ∃ name, s.lookup? env name = none ∧
          f.course s env operands = .refuse (s.unresolved env name)) ∨
        (f.course s env operands).Ends (Deed.Fits s env f)) := by
  rw [Storing.course]
  cases listed : s.toList? operands with
  | none => exact .inl ⟨_, rfl, rfl⟩
  | some args =>
    have shaped (takes : f.Takes s args) : f.Shaped s operands := ⟨args, listed, takes⟩
    cases f with
    | define =>
      dsimp only
      fun_cases Store.defineCourse s args with
      | case1 target expr name found =>
        have named := Option.isSome_of_eq_some (Store.symbolName?_eq_some.2 found)
        exact .inr ⟨shaped (.inl ⟨target, expr, rfl, named⟩), .inr fun _ => rfl⟩
      | case3 target expr more first second found name params heading text named symbols =>
        have symbols := List.all_eq_true.1 symbols
        refine .inr ⟨shaped (.inr ⟨target, expr, more, name, params, rfl, heading, ?_⟩),
          .inr ⟨rfl, symbols⟩⟩
        exact List.forall_mem_cons.2 ⟨Option.isSome_of_eq_some named, symbols⟩
      | _ => exact .inl ⟨_, rfl, rfl⟩
    | assign =>
      dsimp only
      fun_cases Store.assignCourse s env args with
      | case2 target expr name named unbound =>
        exact .inr ⟨shaped ⟨target, expr, rfl, Option.isSome_of_eq_some named⟩,
          .inl ⟨rfl, name, unbound, rfl⟩⟩
      | case3 target expr name named previous bound =>
        exact .inr ⟨shaped ⟨target, expr, rfl, Option.isSome_of_eq_some named⟩,
          .inr fun _ => ⟨rfl, previous, bound⟩⟩
      | _ => exact .inl ⟨_, rfl, rfl⟩
    | set field =>
      dsimp only
      fun_cases Field.course field args with
      | case1 target expr => exact .inr ⟨shaped ⟨target, expr, rfl⟩, .inr fun _ _ => rfl⟩
      | case2 => exact .inl ⟨_, rfl, by cases field <;> rfl⟩

/-! ## Deeds -/

/-- If a computation fails, then because it goes too deep. -/
def StoreM.OnlyTooDeep {α : Type} (action : StoreM α) : Prop :=
  ∀ s fault s', action s = .error fault s' → fault = .tooDeep

namespace StoreM.OnlyTooDeep

variable {α β : Type}

/-- What ends well in every store does not fail. -/
theorem of_ok {action : StoreM α} (ends : ∀ s, ∃ a s', action s = .ok a s') :
    OnlyTooDeep action := by
  intro s fault s' ended
  obtain ⟨a, s'', ended'⟩ := ends s
  rw [ended'] at ended
  cases ended

theorem pure (a : α) : OnlyTooDeep (Pure.pure a : StoreM α) := of_ok fun s => ⟨a, s, rfl⟩

theorem throw : OnlyTooDeep (MonadExcept.throw Fault.tooDeep : StoreM α) := by
  intro s fault s' ended
  cases ended
  rfl

theorem bind {action : StoreM α} {next : α → StoreM β} (first : OnlyTooDeep action)
    (second : ∀ a, OnlyTooDeep (next a)) : OnlyTooDeep (action >>= next) := by
  intro s fault s' ended
  cases h : action s with
  | ok a s₁ => exact second a _ _ _ ((StoreM.bind_ok h next).symm.trans ended)
  | error fault' s₁ =>
    rw [StoreM.bind_error h] at ended
    cases ended
    exact first _ _ _ h

theorem allocate (node : Node) : OnlyTooDeep (LittleScheme.allocate node) :=
  of_ok fun _ => ⟨_, _, rfl⟩

theorem overwrite (loc : Loc) (node : Node) : OnlyTooDeep (LittleScheme.overwrite loc node) :=
  of_ok fun _ => ⟨_, _, rfl⟩

theorem copyEach {copy : Ref → StoreM Ref} (one : ∀ r, OnlyTooDeep (copy r)) (rs : List Ref) :
    OnlyTooDeep (LittleScheme.copyEach copy rs) := by
  induction rs with
  | nil => exact .pure _
  | cons r rs ih => exact (one r).bind fun _ => ih.bind fun _ => .pure _

theorem copyBindings {copy : Ref → StoreM Ref} (one : ∀ r, OnlyTooDeep (copy r))
    (bindings : List (String × Ref)) : OnlyTooDeep (LittleScheme.copyBindings copy bindings) := by
  induction bindings with
  | nil => exact .pure _
  | cons binding rest ih => exact (one binding.2).bind fun _ => ih.bind fun _ => .pure _

theorem copyCaptured {copy : Ref → StoreM Ref} (one : ∀ r, OnlyTooDeep (copy r))
    (captured : Option Loc) : OnlyTooDeep (LittleScheme.copyCaptured copy captured) := by
  cases captured with
  | none => exact .pure _
  | some env => exact (one _).bind fun _ => .pure _

theorem copyFrom (fuel depth : Nat) (active : Active) (r : Ref) :
    OnlyTooDeep (LittleScheme.copyFrom fuel depth active r) := by
  induction fuel generalizing depth active r with
  | zero =>
    cases r with
    | nil => exact .pure _
    | cell loc => exact .throw
  | succ fuel ih =>
    cases r with
    | nil => exact .pure _
    | cell loc =>
      cases depth with
      | zero => exact .throw
      | succ depth =>
        rw [LittleScheme.copyFrom]
        split
        · exact .pure _
        · refine .bind (of_ok fun _ => ⟨_, _, rfl⟩) fun looked => ?_
          split
          · exact .pure _
          · exact (allocate _).bind fun _ => (ih _ _ _).bind fun _ => (ih _ _ _).bind fun _ =>
              (overwrite _ _).bind fun _ => .pure _
          · exact (allocate _).bind fun _ => (copyBindings (ih _ _) _).bind fun _ =>
              (overwrite _ _).bind fun _ => .pure _
          · exact (allocate _).bind fun _ => (copyEach (ih _ _) _).bind fun _ =>
              (copyEach (ih _ _) _).bind fun _ => (copyCaptured (ih _ _) _).bind fun _ =>
              (overwrite _ _).bind fun _ => .pure _
          · exact (allocate _).bind fun _ => .pure _

theorem duplicate (depth : Nat) (r : Ref) : OnlyTooDeep (LittleScheme.duplicate depth r) :=
  .bind (of_ok fun _ => ⟨_, _, rfl⟩) fun _ => copyFrom _ depth ∅ r

end StoreM.OnlyTooDeep

/-- Copy first and then do what does not fail any more: where that fails, it is the copying that
does. -/
theorem duplicate_bind_error {α : Type} {depth : Nat} {r : Ref} {next : Ref → StoreM α}
    {t s' : Store} {fault : Fault} (ended : (duplicate depth r >>= next) t = .error fault s')
    (written : ∀ {c t'}, t.Extended t' → ∃ a t'', next c t' = .ok a t'') :
    t.Extended s' ∧ fault = .tooDeep := by
  have extended := duplicate_extended depth r t
  rw [StoreM.storeAfter] at extended
  cases copied : duplicate depth r t with
  | ok c t' =>
    rw [copied] at extended
    obtain ⟨a, t'', ended'⟩ := written (c := c) extended
    rw [StoreM.bind_ok copied, ended'] at ended
    cases ended
  | error fault' t' =>
    rw [copied] at extended
    rw [StoreM.bind_error copied] at ended
    cases ended
    exact ⟨extended, StoreM.OnlyTooDeep.duplicate depth r _ _ _ copied⟩

/-- A symbol stays one. -/
theorem Store.Contained.symbolName? {s t : Store} {env : Loc} (contained : s.Contained env t)
    {r : Ref} {name : String} (named : s.symbolName? r = some name) :
    t.symbolName? r = some name := by
  rw [symbolName?_eq_some] at named ⊢
  cases r with
  | nil => cases named
  | cell loc =>
    obtain ⟨node, found, evolved⟩ := contained.evolves named
    cases node <;> simp_all [Node.Evolves]

/-- **A deed that fails** leaves all cells as they are: the copying goes too deep, or there is no
pair to store into.  It does not find fault with what its form has made sure of in the beginning. -/
theorem Deed.perform_error {s t s' : Store} {env : Loc} {f : Storing} {deed : Deed} {depth : Nat}
    {fault : Fault} (fits : deed.Fits s env f) (contained : s.Contained env t)
    (ended : deed.perform (duplicate depth) env t = .error fault s') :
    t.Extended s' ∧
      (fault = .tooDeep ∨ fault = .error (.pairExpected (.form f.form)) ∧ s' = t) := by
  cases deed with
  | bind target name value =>
    obtain ⟨extended, rfl⟩ := duplicate_bind_error ended fun _ => ⟨_, _, rfl⟩
    exact ⟨extended, .inl rfl⟩
  | procedure target name params body =>
    -- the parameters were looked at when the form began, and the procedure is made without copying
    obtain ⟨-, symbols⟩ := fits
    have symbols' : (params.all fun r => (t.symbolName? r).isSome) = true := by
      refine List.all_eq_true.2 fun r member => ?_
      obtain ⟨text, named⟩ := Option.isSome_iff_exists.1 (symbols r member)
      exact Option.isSome_iff_exists.2 ⟨text, contained.symbolName? named⟩
    have made : ∃ closure t', makeClosure params body (some env) t = .ok closure t' := by
      rw [makeClosure_eq, if_pos symbols']
      exact ⟨_, _, rfl⟩
    obtain ⟨closure, t', made⟩ := made
    rw [Deed.perform, StoreM.bind_ok made] at ended
    cases ended
  | rebind name value =>
    -- the name was bound when the form began, and no evaluation removes a binding
    obtain ⟨-, previous, bound⟩ := fits
    obtain ⟨extended, rfl⟩ := duplicate_bind_error ended fun {c t'} extended => by
      obtain ⟨previous', bound'⟩ := (contained.extended extended).lookup? bound
      exact ⟨_, _, assign_of_bound bound' c⟩
    exact ⟨extended, .inl rfl⟩
  | store field pair value =>
    cases fits
    have looked : (get : StoreM Store) t = .ok t t := rfl
    rw [Deed.perform, Engine.storeField, StoreM.bind_ok looked] at ended
    cases pair with
    | nil =>
      cases ended
      exact ⟨.refl t, .inr ⟨rfl, rfl⟩⟩
    | cell loc =>
      cases found : t.pair? (.cell loc) with
      | none =>
        rw [found] at ended
        cases ended
        exact ⟨.refl t, .inr ⟨rfl, rfl⟩⟩
      | some fields =>
        rw [found] at ended
        simp only at ended
        split at ended
        · cases ended
        · obtain ⟨extended, rfl⟩ := duplicate_bind_error ended fun _ => ⟨_, _, rfl⟩
          exact ⟨extended, .inl rfl⟩

/-! ## Forms -/

/-- The evaluations inside of a form are contained in its scope. -/
theorem Engine.within_contained {s t : Store} {env : Loc} (budget : Nat) (place : Place)
    (expr : Ref) (contained : s.Contained env t) :
    s.Contained env (StoreM.storeAfter ((Engine.within budget).evaluate place expr env) t) :=
  ((lawful_containment s env).evaluate (budget - place.cost) contained trivial
    (.inl rfl)).sound_storeAfter

/-- **Forms that store a value do so entirely or not at all.**

A form takes its course, whatever the engine.  Operands that are not in shape are refused, and so is
a name to assign to that is not bound, and this without asking the engine for anything.

If the form fails, within any budget, let `t` be the store when the last evaluation that it has
started was over, or else the store it began in.  All cells of `t` have in the end the contents they
had then.  Either the operands have been refused, or it is an evaluation that has failed, or the
copying of the value goes too deep, or there is no pair to store into. -/
theorem storing_all_or_nothing (f : Storing) (operands : Ref) (env : Loc) (s : Store) :
    (∀ engine : Engine,
      engine.form f.form operands env s = (f.course s env operands).run engine env s) ∧
    (¬ f.Shaped s operands → ∃ e, e.category = .grammar ∧
      ∀ engine : Engine, engine.form f.form operands env s = .error (.error e) s) ∧
    (∀ target expr name, f = .assign → s.toList? operands = some [target, expr] →
      s.symbolName? target = some name → s.lookup? env name = none →
      ∀ engine : Engine, engine.form f.form operands env s =
        .error (if s.isEndless env then .endless else .error (.unbound name)) s) ∧
    ∀ budget fault s', (Engine.within budget).form f.form operands env s = .error fault s' →
      ∃ stage t, (f.course s env operands).evaluated (Engine.within budget) env s = (stage, t) ∧
        t.Extended s' ∧
        match stage with
        | .refused fault' =>
          f.course s env operands = .refuse fault' ∧ fault = fault' ∧
            ((∃ e, fault = .error e) ∨ fault = .endless) ∧ t = s ∧ s' = s
        | .interrupted fault' => fault = fault' ∧ s' = t
        | .ready _ =>
          fault = .tooDeep ∨ fault = .error (.pairExpected (.form f.form)) ∧ s' = t := by
  have runs (engine : Engine) := f.form_eq_run engine operands env s
  refine ⟨runs, ?_, ?_, ?_⟩
  · intro misshapen
    rcases f.course_cases s env operands with ⟨e, refused, grammar⟩ | ⟨shaped, -⟩
    · refine ⟨e, grammar, fun engine => ?_⟩
      rw [runs, refused]
      rfl
    · exact absurd shaped misshapen
  · rintro target expr name rfl listed named unbound engine
    rw [runs, Storing.course, listed]
    simp only [Store.assignCourse, named, unbound]
    rfl
  · intro budget fault s' ended
    obtain ⟨fault', refused, kind⟩ | ends :
        (∃ fault', f.course s env operands = .refuse fault' ∧
          ((∃ e, fault' = .error e) ∨ fault' = .endless)) ∨
        (f.course s env operands).Ends (Deed.Fits s env f) := by
      rcases f.course_cases s env operands with
        ⟨e, refused, -⟩ | ⟨-, ⟨-, name, -, refused⟩ | ends⟩
      exacts [.inl ⟨_, refused, .inl ⟨e, rfl⟩⟩, .inl ⟨_, refused, s.unresolved_cases env name⟩,
        .inr ends]
    · rw [runs, refused] at ended
      cases ended
      exact ⟨.refused fault, s, by rw [refused]; rfl, .refl s, refused, rfl, kind, rfl, rfl⟩
    · obtain ⟨⟨stage, t⟩, led⟩ : ∃ led, (f.course s env operands).evaluated
        (Engine.within budget) env s = led := ⟨_, rfl⟩
      rw [runs, Course.run_eq, led] at ended
      obtain ⟨contained, ⟨fault', rfl⟩ | ⟨deed, rfl, fits⟩⟩ :=
        ends.evaluated (fun _ _ _ => Engine.within_contained budget _ _)
          (Store.Contained.refl env s) led
      · cases ended
        exact ⟨_, _, led, .refl s', rfl, rfl⟩
      · obtain ⟨extended, why⟩ := Deed.perform_error fits contained ended
        exact ⟨_, _, led, extended, why⟩

/-- An assignment refuses a single operand, and a name that is not bound, whatever the engine.  What
is bound to an integer is evaluated for `set-car!`, and so is the other operand, before it turns out
to be no pair. -/
theorem storing_all_or_nothing_unbound :
    let s : Store :=
      { cells := #[{ node := .environment { bindings := [("x", .cell 1)] } },
          { node := .integer 5 }, { node := .symbol "x" }, { node := .symbol "y" },
          { node := .pair (.cell 2) .nil }, { node := .pair (.cell 3) (.cell 4) },
          { node := .pair (.cell 2) (.cell 4) }]
        registry := [6, 5, 4, 3, 2, 1, 0], allocations := 7 }
    (∃ e, e.category = .grammar ∧
        ∀ engine : Engine, engine.form .assign (.cell 4) 0 s = .error (.error e) s) ∧
      (∀ engine : Engine,
        engine.form .assign (.cell 5) 0 s = .error (.error (.unbound "y")) s) ∧
      ∃ fault s', (Engine.within 10).form .setCar (.cell 6) 0 s = .error fault s' ∧
        ∃ deed, (Storing.course (.set .first) s 0 (.cell 6)).evaluated (Engine.within 10) 0 s =
          (.ready deed, s) ∧ s.Extended s' := by
  intro s
  obtain ⟨-, misshapen, -, -⟩ := storing_all_or_nothing .assign (.cell 4) 0 s
  obtain ⟨-, -, unbound, -⟩ := storing_all_or_nothing .assign (.cell 5) 0 s
  obtain ⟨runs, -, -, whole⟩ := storing_all_or_nothing (.set .first) (.cell 6) 0 s
  have value : (Engine.within 10).evaluate .row (.cell 2) 0 s = .ok (.cell 1) s := by
    change evaluate 5 (.cell 2) 0 s = _
    have bound : s.lookup? 0 "x" = some (.cell 1) := by decide
    rw [evaluate_symbol (by decide) (rfl : s.symbolName? (.cell 2) = some "x"), resolve_eq, bound]
  have listed : s.toList? (.cell 6) = some [.cell 2, .cell 2] := by decide
  have led : (Storing.course (.set .first) s 0 (.cell 6)).evaluated (Engine.within 10) 0 s =
      (.ready (.store .first (.cell 1) (.cell 1)), s) := by
    simp only [Storing.course, listed, Field.course, Course.evaluated, value]
  have ended : (Engine.within 10).form .setCar (.cell 6) 0 s =
      .error (.error (.pairExpected (.form .setCar))) s := by
    refine (runs _).trans ?_
    rw [Course.run_eq, led]
    rfl
  refine ⟨misshapen ?_, unbound (.cell 3) (.cell 2) "y" rfl (by decide) (by decide) (by decide),
    ?_⟩
  · rintro ⟨args, listed, target, expr, rfl, -⟩
    have single : s.toList? (.cell 4) = some [.cell 2] := by decide
    rw [single] at listed
    cases listed
  · obtain ⟨stage, t, led', extended, -⟩ := whole 10 _ _ ended
    rw [led] at led'
    cases led'
    exact ⟨_, _, ended, _, led, extended⟩

end LittleScheme
