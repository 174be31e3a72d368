import LittleScheme.Proofs.Evaluation.Heredity
import LittleScheme.Proofs.Store.Collection
import LittleScheme.Proofs.Store.Extension
import LittleScheme.Store.Build

/-!
# Evaluation without the operators that change values

Four forms change values that are there: `define`, `set!`, `set-car!` and `set-cdr!`.  Operators may
stand in data, in bindings and in the code of procedures, but nothing makes an operator except by
copying one.  So if none of the four can be reached from the expression and the scope, none is ever
called, and none can be reached from the result.  Then evaluation adds to the store and leaves alone
what is there (`evaluate_benign`): calls bind their parameters in frames of their own, and copies
are filled in before anyone sees them.
-/

namespace LittleScheme

/-- The operator changes values that are there. -/
def Op.mutates : Op → Bool
  | .form .define | .form .assign | .form .setCar | .form .setCdr => true
  | _ => false

/-! ## Benign references -/

namespace Store

/-- No operator that changes values can be reached. -/
def Benign (s : Store) (r : Ref) : Prop :=
  ∀ q op, s.Reaches r q → s.node? q = some (.builtin op) → op.mutates = false

variable {s : Store} {r : Ref}

/-- It is enough that what is reached has a property that goes along with references. -/
theorem Benign.of_closed {P : Ref → Prop} (start : P r)
    (closed : ∀ q node, P q → s.node? q = some node →
      node.Fits (·.mutates = false) ∧ ∀ c ∈ node.children, P c) : s.Benign r := by
  intro q op path found
  have reached : P q := by
    clear found
    induction path with
    | refl => exact start
    | step _ found child ih => exact (closed _ _ ih found).2 _ child
  exact (closed q _ reached found).1 op rfl

theorem Benign.fits {node : Node} (benign : s.Benign r) (found : s.node? r = some node) :
    node.Fits (·.mutates = false) := by
  rintro op rfl
  exact benign r op .refl found

theorem Benign.child {node : Node} (benign : s.Benign r) (found : s.node? r = some node) {c : Ref}
    (child : c ∈ node.children) : s.Benign c :=
  fun q op path => benign q op (Reaches.trans (.step .refl found child) path)

theorem benign_of_none (none : s.node? r = none) : s.Benign r := by
  refine .of_closed (P := (· = r)) rfl ?_
  rintro q node rfl found
  simp [none] at found

theorem Benign.register {node : Node} (benign : s.Benign r) (fits : node.Fits (·.mutates = false))
    (parts : ∀ c ∈ node.children, s.Benign c) : (s.register node).Benign r := by
  refine .of_closed benign ?_
  intro q node' benign found
  rw [node?_register] at found
  split at found
  · cases found
    exact ⟨fits, parts⟩
  · exact ⟨benign.fits found, fun _ => benign.child found⟩

theorem Benign.write {node : Node} (benign : s.Benign r) (loc : Loc)
    (fits : node.Fits (·.mutates = false)) (parts : ∀ c ∈ node.children, s.Benign c) :
    (s.write loc node).Benign r := by
  refine .of_closed benign ?_
  intro q node' benign found
  by_cases here : q = .cell loc
  · subst here
    have exist : loc < s.size := by simpa using lt_size found
    rw [s.node?_write exist, if_pos rfl] at found
    cases found
    exact ⟨fits, parts⟩
  · rw [s.node?_write_of_ne node here] at found
    exact ⟨benign.fits found, fun _ => benign.child found⟩

end Store

/-- The discipline of benign values, in any store. -/
def benignity : Discipline where
  Sound _ := True
  Value := Store.Benign
  Scope s env := s.Benign (.cell env)
  Captured s env := s.Benign (.cell env)

theorem benignity.keeps {s s' : Store} (kept : ∀ {r}, s.Benign r → s'.Benign r) :
    benignity.Keeps s s' :=
  ⟨trivial, kept, kept, kept⟩

/-- What is made of benign parts is benign. -/
theorem benignity.hereditary : benignity.Hereditary (·.mutates = false) where
  nil := Store.benign_of_none rfl
  scope := .rfl
  captured := .rfl
  fits _ benign found := benign.fits found
  parts _ benign found _ child := benign.child found child
  register {s node} _ fits parts := by
    have new : s.Benign (.cell s.size) := Store.benign_of_none (s.node?_eq_none (Nat.le_refl _))
    exact ⟨keeps fun benign => benign.register fits parts, new.register fits parts⟩
  write loc _ fits parts := keeps fun benign => benign.write loc fits parts

/-! ## The regime -/

/-- The regime under which only benign references are in hand, and the store is added to. -/
def purity : Regime where
  Admits _ := True
  Holds s hand := benignity.Has s hand
  Since := Store.Extended
  Fails _ := True
  Performs f := (Op.form f).mutates = false
  weaken within has := ⟨fun r member => has.exprs r (within.exprs.subset member),
    fun r member => has.values r (within.values member),
    fun call member => has.calls call (within.calls member),
    fun env member => has.scopes env (within.scopes member)⟩
  refl := Store.Extended.refl
  trans := Store.Extended.trans

namespace purity

variable {s : Store} {hand : Hand} {α : Type}

/-- What adds to the store and keeps benign references so keeps to the regime. -/
theorem does {action : StoreM α} {post post' : α → Store → Prop}
    (runs : benignity.Runs action s post) (grows : (extension s).Runs action s post')
    (has : purity.Holds s hand) :
    purity.Does action s fun a s' => purity.Holds s' hand ∧ post a s' := by
  refine ⟨fun ended => ?_, fun ended => ?_, .inl rfl⟩
  · obtain ⟨kept, asked⟩ := runs.ok ended
    exact ⟨(grows.ok ended).1.sound, has.keep kept, asked⟩
  · exact ⟨(grows.error ended).sound, Regime.empty (R := purity) (has.keep (runs.error ended)),
      trivial⟩

theorem yields {action : StoreM Ref} {post' : Ref → Store → Prop}
    (runs : benignity.Runs action s benignity.Result) (grows : (extension s).Runs action s post')
    (has : purity.Holds s hand) : purity.Does action s (purity.Yields hand) :=
  (does runs grows has).imp fun _ _ ⟨has', value⟩ =>
    has'.gain fun r' member => by rwa [List.mem_singleton.1 member]

/-- A new procedure adds to the store. -/
theorem extension_makeClosure (params body : List Ref) (env : Option Loc) :
    (extension s).Runs (makeClosure params body env) s fun _ _ => True := by
  refine .get ?_
  split
  · exact (extension.allocate (.refl s) _).bind fun _ _ kept _ =>
      (extension.make kept.sound _).imp fun _ _ _ => trivial
  · exact .fail (.refl s)

theorem copy {early late : Watch} (depth : Nat) (ordered : purity.Ordered early late)
    (has : purity.Holds s hand) {r : Ref} (benign : s.Benign r) :
    purity.Runs (duplicateUntil early depth r) (duplicateUntil late depth r) s
      (purity.Yields hand) := by
  have grows : (extension s).Runs (duplicate depth r) s fun _ _ => True :=
    .get (extension.copyFrom _ depth ∅ r (.refl s))
  have copied := yields (benignity.hereditary.duplicate depth trivial benign) grows has
  exact .duplicateUntil ordered trivial copied fun _ _ => Regime.of_gain

theorem copyEach {early late : Watch} (depth : Nat) (ordered : purity.Ordered early late)
    {rs : List Ref} (has : purity.Holds s hand) (benign : benignity.Results rs s) :
    purity.Runs (LittleScheme.copyEach (duplicateUntil early depth) rs)
      (LittleScheme.copyEach (duplicateUntil late depth) rs) s
      fun cs s' => purity.Holds s' (hand.gain cs) := by
  induction rs generalizing s hand with
  | nil => exact .pure has
  | cons r rs ih =>
    have all : purity.Holds s (hand.gain (r :: rs)) := has.gain benign
    refine (copy depth ordered all (benign r (by simp))).bind fun c s₁ has₁ => ?_
    have later : benignity.Results rs s₁ := fun q member => has₁.values q (by simp [member])
    have one : purity.Holds s₁ (hand.gain [c]) := by
      rw [Regime.Yields, Hand.gain_gain] at has₁
      exact Regime.gain_subset (by simp) has₁
    refine (ih one later).bind fun cs s₂ has₂ => .pure ?_
    rw [Hand.gain_gain] at has₂
    exact Regime.gain_subset (by simp) has₂

end purity

/-- The elementary steps of evaluation keep to the regime: those that change what is there are not
taken. -/
theorem lawful_purity : purity.Lawful where
  ordinary _ := trivial
  unbound _ _ := trivial
  endless _ _ _ := trivial
  stuck _ _ := trivial
  settle has := has.of_expect.1.gain has.of_expect.2
  split has found := by
    obtain ⟨has, values⟩ := has.of_expect
    obtain ⟨first, second⟩ := benignity.hereditary.fields trivial (values _ (by simp)) found
    exact has.expect (by simpa [Discipline.Results] using ⟨first, second⟩)
  nil has := has.gain (by simpa [Discipline.Results] using benignity.hereditary.nil)
  lookup has scope found := by
    have value := benignity.hereditary.lookup? trivial (has.scopes _ scope) found
    exact has.gain (by simpa [Discipline.Results] using value)
  fields has member found := by
    obtain ⟨first, second⟩ := benignity.hereditary.fields trivial (has.values _ member) found
    exact has.gain (by simpa [Discipline.Results] using ⟨first, second⟩)
  code has member found := by
    have code := benignity.hereditary.code trivial (has.values _ member) found
    exact { has with
      calls := fun call member => (List.mem_cons.1 member).elim (fun same => same ▸ code)
        (has.calls call) }
  perform has member found := has.values _ member _ _ .refl found
  atom a _ has :=
    purity.yields (benignity.hereditary.atom a trivial) (extension.make (.refl _) _) has
  pair has first second := purity.yields (benignity.hereditary.pair trivial (has.values _ first)
    (has.values _ second)) (extension.make (.refl _) _) has
  procedure has _ scope := by
    obtain ⟨has, code⟩ := has.of_expect
    obtain ⟨params, body⟩ := List.forall_mem_append.1 code
    exact purity.yields (benignity.hereditary.makeClosure trivial params body (has.scopes _ scope))
      (purity.extension_makeClosure _ _ _) has
  copy depth ordered has member := purity.copy depth ordered has (has.values _ member)
  define _ _ mutates := by cases mutates
  defineProcedure _ mutates := by cases mutates
  assign _ _ mutates := by cases mutates
  replace _ field mutates := by cases field <;> cases mutates
  tie field mutates := by cases field <;> cases mutates
  enter {_ _ _ _ call _ _ _} depth ordered copies copies' has called values := by
    rw [Engine.enterCall, Engine.enterCall, copies, copies']
    have results : benignity.Results _ _ := fun r member => has.values r (values member)
    refine (purity.copyEach depth ordered has results).bind fun cs s₁ has₁ => ?_
    obtain ⟨-, -, captured⟩ := has₁.calls _ called
    have copies : benignity.Results cs s₁ := fun r member => has₁.values r (by simp [member])
    refine .get ?_
    split
    · have outer := benignity.hereditary.outerFrame captured
      have made := benignity.hereditary.allocate trivial (by simp [Node.Fits]) outer
      refine (purity.does made (extension.allocate (.refl _) _) has₁).discard.bind ?_
      rintro _ s₂ ⟨_, has₂, -⟩
      exact .throw has₂ trivial
    · have inside := benignity.hereditary.enterFrame call.params captured copies
      have made := benignity.hereditary.allocate trivial (by simp [Node.Fits]) inside
      refine (purity.does made (extension.allocate (.refl _) _) has₁).imp ?_
      rintro inner s₂ ⟨has₂, scope⟩
      have has₂ : purity.Holds s₂ _ := Regime.of_gain has₂
      exact { has₂ with
        scopes := fun env member => (List.mem_cons.1 member).elim (fun same => same ▸ scope)
          (has₂.scopes env) }
  unfold depth ordered has called := by
    obtain ⟨-, body, -⟩ := has.calls _ called
    refine (purity.copyEach depth ordered has body).imp fun forms s' has' => ?_
    have benign : benignity.Results forms s' := fun r member => has'.values r (by simp [member])
    have has' : purity.Holds s' _ := Regime.of_gain has'
    exact has'.expect benign

/-- **Only four operators change what is there.**  If none of `define`, `set!`, `set-car!` and
`set-cdr!` can be reached from an expression nor from the scope in which it is evaluated, then the
evaluation, however it ends, leaves all cells as they are, with their contents and marks; and if it
ends with a value, none of the four operators can be reached from the value either. -/
theorem evaluate_benign (budget : Nat) {s : Store} {expr : Ref} {env : Loc}
    (code : s.Benign expr) (scope : s.Benign (.cell env)) :
    s.Extended (StoreM.storeAfter (evaluate budget expr env) s) ∧
      ∀ r s', evaluate budget expr env s = .ok r s' → s'.Benign r := by
  have has : purity.Holds s (Hand.expect { scopes := [env] } [expr]) :=
    ⟨List.forall_mem_singleton.2 code, by simp [Discipline.Results, Hand.expect],
      by simp [Hand.expect], List.forall_mem_singleton.2 scope⟩
  have runs := lawful_purity.evaluate trivial budget has (List.mem_singleton_self _)
  refine ⟨runs.since, fun r s' ended => ?_⟩
  have has' := (runs.ok ended).2
  exact has'.values r (by simp)

/-- A procedure is called that makes a pair, in a store that holds `define` as well, bound in a
frame that neither the expression nor the scope leads to. -/
theorem evaluate_benign_application :
    let s := StoreM.storeAfter
      (do
        let env ← allocate (.environment {})
        let hidden ← allocate (.environment { outer := some env })
        define hidden "define" (← make (.builtin (.form .define)))
        define env "lambda" (← make (.builtin (.form .lambda)))
        define env "cons" (← make (.builtin (.primitive .cons)))
        readValue 1000 "((lambda (x) (cons x x)) 5)") {}
    s.Benign (.cell 19) ∧ s.Benign (.cell 0) ∧ ¬s.Benign (.cell 1) ∧
      s.Extended (StoreM.storeAfter (evaluate 1000 (.cell 19) 0) s) ∧
      ∃ r s', evaluate 1000 (.cell 19) 0 s = .ok r s' ∧ s'.Benign r := by
  intro s
  -- only the hidden frame leads to `define`, and nothing leads to the hidden frame
  have apart : ∀ loc < s.size, loc ≠ 1 → loc ≠ 2 → (s.node? (.cell loc)).all (fun node =>
      node ≠ .builtin (.form .define) && node ≠ .builtin (.form .assign) &&
        node ≠ .builtin (.form .setCar) && node ≠ .builtin (.form .setCdr) &&
        node.children.all fun c => c ≠ .cell 1 && c ≠ .cell 2) = true := by
    decide +kernel
  have benign {r : Ref} (outside : r ≠ .cell 1 ∧ r ≠ .cell 2) : s.Benign r := by
    refine .of_closed (P := fun q => q ≠ .cell 1 ∧ q ≠ .cell 2) outside ?_
    rintro (_ | loc) node ⟨first, second⟩ found
    · cases found
    · have here := apart loc (Store.lt_size found) (by simpa using first) (by simpa using second)
      simp only [found, Option.all_some, Bool.and_eq_true, decide_eq_true_eq,
        List.all_eq_true] at here
      obtain ⟨⟨⟨⟨define, assign⟩, setCar⟩, setCdr⟩, children⟩ := here
      refine ⟨?_, children⟩
      rintro (f | p) rfl
      · cases f <;> simp_all [Op.mutates]
      · rfl
  have frame : s.node? (.cell 1) =
      some (.environment { outer := some 0, bindings := [("define", .cell 2)] }) := by
    decide +kernel
  have operator : s.node? (.cell 2) = some (.builtin (.form .define)) := by decide +kernel
  have succeeds : (match evaluate 1000 (.cell 19) 0 s with
      | .ok _ _ => true
      | .error _ _ => false) = true := by
    decide +kernel
  obtain ⟨extended, results⟩ := evaluate_benign 1000 (benign (r := .cell 19) (by decide))
    (benign (r := .cell 0) (by decide))
  refine ⟨benign (by decide), benign (by decide), ?_, extended, ?_⟩
  · intro benign
    have reached : s.Reaches (.cell 1) (.cell 2) := .step .refl frame (by simp [Node.children])
    cases benign _ _ reached operator
  · cases ended : evaluate 1000 (.cell 19) 0 s with
    | ok r s' => exact ⟨r, s', rfl, results r s' ended⟩
    | error fault s' => simp [ended] at succeeds

end LittleScheme
