import LittleScheme.Proofs.Store.ZonedCopy

/-!
# Custody of code and data

Evaluation keeps the zones of `LittleScheme.Proofs.Store.Zones` apart.  An expression in hand
belongs to no zone, and no cell of it is used twice: when it is quoted its cells become data, and
when it is the body of a `lambda` they become code, without harm to other expressions.  The body of
a procedure is copied before it is evaluated, and the copy belongs to no zone again.  So whatever is
written to is a pair of data or a frame that is worked in, and code and captured frames stay as they
are.

Faults that would tell of a value of the wrong kind do not occur: operators and procedures are where
they are expected, and expressions are made of atoms and pairs only.  The empty list is the one
expression that has no value.  `lawful_custody` puts all this together as a regime.
-/

namespace LittleScheme

/-- Procedures are as they were, and so are the values that make up their code and the frames that
they have captured. -/
structure Store.Preserves (s s' : Store) : Prop where
  node? : ∀ {q params body env}, s.node? (.cell q) = some (.closure params body (some env)) →
    s'.node? (.cell q) = some (.closure params body (some env))
  laid : ∀ {q params body env ds cells},
    s.node? (.cell q) = some (.closure params body (some env)) →
    s.LaidAll (params ++ body) ds cells → s'.LaidAll (params ++ body) ds cells
  frame? : ∀ {q params body env frame},
    s.node? (.cell q) = some (.closure params body (some env)) →
    s.frame? env = some frame → s'.frame? env = some frame

theorem Store.Preserves.refl (s : Store) : s.Preserves s := ⟨id, fun _ => id, fun _ => id⟩

theorem Store.Preserves.trans {s s' s'' : Store} (first : s.Preserves s')
    (second : s'.Preserves s'') : s.Preserves s'' :=
  ⟨fun found => second.node? (first.node? found),
    fun found laid => second.laid (first.node? found) (first.laid found laid),
    fun found frame => second.frame? (first.node? found) (first.frame? found frame)⟩

/-- Adding to a store changes no procedure. -/
theorem Store.Extended.preserves {s s' : Store} (extended : s.Extended s') : s.Preserves s' :=
  ⟨extended.node?, fun _ laid => laid.extend extended,
    fun _ frame => frame?_eq_some.2 (extended.node? (frame?_eq_some.1 frame))⟩

namespace Zones

/-- What the zones are for the things in hand: expressions belong to no zone, and no cell of theirs
is used twice. -/
structure Has (z : Zones) (s : Store) (hand : Hand) : Prop where
  exprs : ∃ ds cells, s.LaidAll hand.exprs ds cells ∧ cells.Nodup ∧
    ∀ c ∈ cells, c ∉ z.data ∧ c ∉ z.code
  values : ∀ r ∈ hand.values, z.Value r
  calls : ∀ call ∈ hand.calls, ∃ q ∈ z.data,
    s.node? (.cell q) = some (.closure call.params call.body call.captured)
  scopes : ∀ env ∈ hand.scopes, env ∈ z.frames

/-- The zones are right for the store, and for what is in hand; the root is a frame, and the only
one that has no frame around it. -/
structure Guards (z : Zones) (root : Loc) (s : Store) (hand : Hand) : Prop where
  fits : z.Fits s
  whole : z.Whole s
  outermost : z.root = root
  root : root ∈ z.frames
  has : z.Has s hand

end Zones

/-- The regime of stores whose zones are right. -/
def custody (root : Loc) : Regime where
  Admits _ := True
  Holds s hand := ∃ z : Zones, z.Guards root s hand
  Since s s' := s.Preserves s'
  Fails fault := fault.isInternal = false ∨ fault = .error (.cannotEvaluate "()")
  weaken := by
    rintro s small large within
      ⟨z, fits, whole, outermost, root, ⟨ds, cells, laid, distinct, off⟩, values, calls, scopes⟩
    obtain ⟨ds', cells', laid', l, perm, sublist⟩ := laid.subperm within.exprs
    exact ⟨z, fits, whole, outermost, root,
      ⟨ds', cells', laid', perm.nodup_iff.1 (distinct.sublist sublist),
        fun c member => off c (sublist.subset (perm.mem_iff.2 member))⟩,
      fun r member => values r (within.values member),
      fun call member => calls call (within.calls member),
      fun env member => scopes env (within.scopes member)⟩
  refl := Store.Preserves.refl
  trans := Store.Preserves.trans

namespace Zones

variable {z z' : Zones} {root : Loc} {s s' : Store} {hand : Hand} {r : Ref} {q : Loc} {node : Node}

/-! ## Steps -/

/-- What is added to a store is no part of what is in hand. -/
theorem Guards.grow (guards : z.Guards root s hand) (grows : z.Grows s z' s')
    (whole : z'.Whole s') : z'.Guards root s' hand := by
  obtain ⟨ds, cells, laid, distinct, off⟩ := guards.has.exprs
  refine ⟨grows.fits, whole, grows.root.trans guards.outermost, grows.frames ▸ guards.root,
    ⟨ds, cells, laid.extend grows.extended, distinct,
      fun c member => ⟨fun inside => ?_, fun inside => ?_⟩⟩, ?_, ?_, ?_⟩
  · rcases grows.newData c inside with old | new
    · exact (off c member).1 old
    · exact absurd (laid.lt_size member) (Nat.not_lt.2 new)
  · rcases grows.newCode c inside with old | new
    · exact (off c member).2 old
    · exact absurd (laid.lt_size member) (Nat.not_lt.2 new)
  · exact fun r member => grows.value (guards.has.values r member)
  · intro call member
    obtain ⟨q, data, found⟩ := guards.has.calls call member
    exact ⟨q, grows.data data, grows.extended.node? found⟩
  · exact fun env member => grows.frames ▸ guards.has.scopes env member

/-- A computation that only adds to a store keeps the zones apart. -/
theorem Guards.does {α : Type} {action : StoreM α} {post : α → Zones → Store → Prop}
    {post' : α → Store → Prop} (guards : z.Guards root s hand) (adds : z.Adds s action post)
    (next : ∀ a z' s', z.Grows s z' s' → z'.Guards root s' hand → post a z' s' → post' a s') :
    (custody root).Does action s post' := by
  refine ⟨fun ended => ?_, fun ended => ?_, .inl rfl⟩
  · obtain ⟨z', grows, -, whole, asked⟩ := (adds.whole guards.fits guards.whole).ok ended
    exact ⟨grows.extended.preserves, next _ z' _ grows (guards.grow grows whole) asked⟩
  · obtain ⟨rfl, z', grows, whole⟩ := adds.abandon guards.fits guards.whole ended
    exact ⟨grows.extended.preserves, Regime.empty (R := custody root) ⟨z', guards.grow grows whole⟩,
      .inl rfl⟩

theorem Guards.gain (guards : z.Guards root s hand) {rs : List Ref} (values : ∀ r ∈ rs, z.Value r) :
    z.Guards root s (hand.gain rs) :=
  have all (r : Ref) (member : r ∈ (hand.gain rs).values) : z.Value r :=
    (List.mem_append.1 member).elim (values r) (guards.has.values r)
  { guards with has := { guards.has with values := all } }

/-- Whatever is written to a pair of data or to a frame, no procedure is changed, and nothing that
is in hand. -/
theorem Guards.write (guards : z.Guards root s hand) (target : q ∈ z.data ∨ q ∈ z.frames)
    (open? : ∀ params body captured, s.node? (.cell q) ≠ some (.closure params body captured))
    (accepts : z.Accepts s q node)
    (plain : ∀ params body captured, node ≠ .closure params body captured) :
    z.Guards root (s.write q node) hand ∧ s.Preserves (s.write q node) := by
  have fits := guards.fits
  have exist : q < s.size := target.elim fits.lt_of_data fits.lt_of_frame
  have free : q ∉ z.code := target.elim fits.apart fun frame => fits.not_code (.inl frame)
  have same {p : Loc} (other : p ≠ q) :
      (s.write q node).node? (.cell p) = s.node? (.cell p) :=
    s.node?_write_of_ne node (by simpa using other)
  obtain ⟨ds, cells, laid, distinct, off⟩ := guards.has.exprs
  -- Expressions belong to no zone, so only a frame could be among their cells; but frames are not
  -- what an expression is made of.
  have elsewhere (c : Loc) (member : c ∈ cells) : c ≠ q := by
    rintro rfl
    rcases target with data | frame
    · exact (off c member).1 data
    · obtain ⟨contents, found, -⟩ := fits.frame frame
      obtain ⟨node', found', isCode⟩ := laid.isCode member
      rw [Store.frame?_eq_some, found', Option.some.injEq] at found
      subst found
      cases isCode
  have closure {p : Loc} {params body : List Ref} {captured : Option Loc}
      (found : s.node? (.cell p) = some (.closure params body captured)) : p ≠ q := by
    rintro rfl
    exact open? _ _ _ found
  refine ⟨⟨fits.write exist free accepts, ?_, guards.outermost, guards.root,
    ⟨ds, cells, laid.congr fun c member => same (elsewhere c member), distinct, off⟩,
    guards.has.values, ?_, guards.has.scopes⟩, fun found => (same (closure found)).trans found, ?_,
    ?_⟩
  · intro p member params body found
    rw [s.node?_write exist] at found
    split at found
    · exact plain _ _ _ (Option.some.inj found)
    · exact guards.whole p member params body found
  · intro call member
    obtain ⟨p, data, found⟩ := guards.has.calls call member
    exact ⟨p, data, (same (closure found)).trans found⟩
  · -- The cells by which the code stands for its data are the ones that are known to be code.
    intro p params body env ds cells found laid
    obtain ⟨-, -, ds', code, laid', -, inside⟩ := (fits.procedure found).coded
    refine laid.congr fun c member => same ?_
    rintro rfl
    exact free (inside c ((laid.unique laid').2 ▸ member))
  · intro p params body env frame found here
    have captured := (fits.procedure found).captured
    have other : env ≠ q := by
      rintro rfl
      rcases target with data | inside
      · exact fits.not_frame data (.inr captured)
      · exact fits.own captured inside
    rw [Store.frame?_eq_some, same other]
    exact Store.frame?_eq_some.1 here

/-- A new frame is there to work in. -/
theorem Guards.enter {frame : Frame} (guards : z.Guards root s hand)
    (scopes : z.Scopes s.size frame) :
    Guards { z with frames := insert s.size z.frames } root (s.register (.environment frame))
      (hand.enter s.size) := by
  have extended := s.extended_register (.environment frame)
  obtain ⟨ds, cells, laid, distinct, off⟩ := guards.has.exprs
  refine ⟨guards.fits.registerFrame frame scopes, ?_, guards.outermost, .inr guards.root,
    ⟨ds, cells, laid.extend extended, distinct, off⟩, guards.has.values, ?_, ?_⟩
  · intro q member params body found
    rw [extended.node?_eq (guards.fits.lt_of_data member)] at found
    exact guards.whole q member params body found
  · intro call member
    obtain ⟨q, data, found⟩ := guards.has.calls call member
    exact ⟨q, data, extended.node? found⟩
  · exact List.forall_mem_cons.2 ⟨.inl rfl, fun env member => .inr (guards.has.scopes env member)⟩

/-! ## Expressions -/

theorem value_of_laid {d : Datum} {cells : List Loc} (laid : s.Laid r d cells)
    (inside : ∀ c ∈ cells, c ∈ z.data) : z.Value r := by
  rintro q rfl
  exact inside q laid.mem

/-- The cells of a value that stands for a datum may all become data. -/
theorem admits_of_laid {d : Datum} {cells : List Loc} (laid : s.Laid r d cells)
    (inside : ∀ c ∈ cells, c ∈ z.data) {c : Loc} (member : c ∈ cells) :
    ∃ node, s.node? (.cell c) = some node ∧ z.Admits node := by
  induction laid with
  | nil => simp at member
  | @leaf loc a found =>
    obtain rfl := List.mem_singleton.1 member
    exact ⟨_, found, by cases a <;> trivial⟩
  | pair found left right ihLeft ihRight =>
    have insideLeft c member := inside c (List.mem_append_left _ (List.mem_append_left _ member))
    have insideRight c member := inside c (List.mem_append_left _ (List.mem_append_right _ member))
    rcases List.mem_append.1 member with below | here
    · rcases List.mem_append.1 below with below | below
      · exact ihLeft insideLeft below
      · exact ihRight insideRight below
    · obtain rfl := List.mem_singleton.1 here
      exact ⟨_, found, value_of_laid left insideLeft, value_of_laid right insideRight⟩

/-- Expressions in hand, apart from the others. -/
theorem Has.apart {exprs : List Ref} (has : z.Has s (hand.expect exprs)) :
    ∃ ds cells ds' cells', s.LaidAll exprs ds cells ∧ s.LaidAll hand.exprs ds' cells' ∧
      (cells ++ cells').Nodup ∧ (∀ c ∈ cells, c ∉ z.data ∧ c ∉ z.code) ∧
        ∀ c ∈ cells', c ∉ z.data ∧ c ∉ z.code := by
  obtain ⟨ds, cells, laid, distinct, off⟩ := has.exprs
  obtain ⟨ds₁, ds₂, cells₁, cells₂, laid₁, laid₂, -, rfl⟩ := laid.of_append
  exact ⟨ds₁, cells₁, ds₂, cells₂, laid₁, laid₂, distinct, fun c member => off c (by simp [member]),
    fun c member => off c (by simp [member])⟩

/-- Expressions made of new cells come to hand. -/
theorem Guards.expect {exprs : List Ref} {ds : List Datum} {cells : List Loc}
    (guards : z.Guards root s hand) (guards' : z.Guards root s' hand) (extended : s.Extended s')
    (laid : s'.LaidAll exprs ds cells) (distinct : cells.Nodup) (new : ∀ c ∈ cells, s.size ≤ c) :
    z.Guards root s' (hand.expect exprs) := by
  obtain ⟨ds', old, laid', distinct', off⟩ := guards.has.exprs
  refine { guards' with has := { guards'.has with exprs := ?_ } }
  refine ⟨_, cells ++ old, laid.append (laid'.extend extended), ?_, fun c member => ?_⟩
  · exact (List.perm_append_comm.nodup_iff).1
      (nodup_append_new distinct' (fun c => laid'.lt_size) distinct new)
  · rcases List.mem_append.1 member with here | there
    · have outside := guards.fits.size_not_mem (new c here)
      exact ⟨outside.1, outside.2.1⟩
    · exact off c there

/-- An expression in hand becomes data. -/
theorem Guards.settle (guards : z.Guards root s (hand.expect [r])) :
    ∃ z' : Zones, z'.Guards root s (hand.gain [r]) := by
  obtain ⟨ds, cells, ds', cells', laid, laid', distinct, off, off'⟩ := guards.has.apart
  obtain ⟨d, own, first, sublist⟩ := laid.exists_laid (List.mem_singleton_self r)
  have inside (c : Loc) (member : c ∈ own) : c ∈ cells := sublist.subset member
  -- All cells of the expression become data at once, since a pair of data leads to data.
  let z' : Zones := { z with data := z.data ∪ {c | c ∈ own} }
  have settled (c : Loc) (member : c ∈ own) : c ∈ z'.data := .inr member
  have fits : z'.Fits s := guards.fits.addData (fun c member => admits_of_laid first settled member)
    fun c member => (off c (inside c member)).2
  have whole : z'.Whole s := by
    rintro q (old | new) params body found
    · exact guards.whole q old params body found
    · obtain ⟨node, found', isCode⟩ := first.isCode new
      rw [found, Option.some.injEq] at found'
      subst found'
      cases isCode
  have others (c : Loc) (member : c ∈ cells') : c ∉ z'.data ∧ c ∉ z'.code := by
    refine ⟨?_, (off' c member).2⟩
    rintro (old | new)
    · exact (off' c member).1 old
    · exact (List.nodup_append.1 distinct).2.2 c (inside c new) c member rfl
  have has : z'.Has s hand :=
    ⟨⟨ds', cells', laid', (List.nodup_append.1 distinct).2.1, others⟩,
      fun r member => (guards.has.values r member).mono Set.subset_union_left,
      fun call member => (guards.has.calls call member).imp fun q h => ⟨.inl h.1, h.2⟩,
      guards.has.scopes⟩
  refine ⟨z', Guards.gain ⟨fits, whole, guards.outermost, guards.root, has⟩ fun r' member => ?_⟩
  obtain rfl := List.mem_singleton.1 member
  exact value_of_laid first settled

/-- Expressions in hand become the code of a procedure. -/
theorem Guards.enact {exprs : List Ref} (guards : z.Guards root s (hand.expect exprs)) :
    ∃ (z' : Zones) (ds : List Datum) (cells : List Loc), z'.Guards root s hand ∧
      s.LaidAll exprs ds cells ∧ cells.Nodup ∧ ∀ c ∈ cells, c ∈ z'.code := by
  obtain ⟨ds, cells, ds', cells', laid, laid', distinct, off, off'⟩ := guards.has.apart
  let z' : Zones := { z with code := z.code ∪ {c | c ∈ cells} }
  have fits : z'.Fits s :=
    guards.fits.addCode (fun c => laid.isCode) fun c member => (off c member).1
  refine ⟨z', ds, cells, ⟨fits, guards.whole, guards.outermost, guards.root, ?_⟩, laid,
    (List.nodup_append.1 distinct).1, fun c member => .inr member⟩
  refine ⟨⟨ds', cells', laid', (List.nodup_append.1 distinct).2.1, fun c member => ?_⟩,
    guards.has.values, guards.has.calls, guards.has.scopes⟩
  refine ⟨(off' c member).1, ?_⟩
  rintro (old | new)
  · exact (off' c member).2 old
  · exact (List.nodup_append.1 distinct).2.2 c new c member rfl

/-- An expression in hand is taken apart. -/
theorem Guards.split {fields : Ref × Ref} (guards : z.Guards root s (hand.expect [r]))
    (found : s.pair? r = some fields) : z.Guards root s (hand.expect [fields.1, fields.2]) := by
  refine { guards with has := { guards.has with exprs := ?_ } }
  obtain ⟨ds, cells, laid, distinct, off⟩ := guards.has.exprs
  rw [Store.pair?_eq_some] at found
  cases laid with
  | @cons _ _ _ _ _ others first rest =>
    cases first with
    | nil => cases found
    | leaf found' =>
      rw [found, Option.some.injEq] at found'
      exact absurd found'.symm (Atom.node_ne_pair _ _ _)
    | @pair loc _ _ _ _ cells₁ cells₂ found' left right =>
      rw [found, Option.some.injEq, Node.pair.injEq] at found'
      obtain ⟨rfl, rfl⟩ := found'
      have fewer :
          (cells₁ ++ (cells₂ ++ others)).Sublist (cells₁ ++ cells₂ ++ [loc] ++ others) := by
        simp
      exact ⟨_, _, .cons left (.cons right rest), distinct.sublist fewer,
        fun c member => off c (fewer.subset member)⟩

/-! ## Names -/

/-- The way outwards leads to frames. -/
theorem Fits.scopeFrom (fits : z.Fits s) (fuel : Nat) {env loc : Loc}
    (scope : env ∈ z.frames ∨ env ∈ z.captured) (member : loc ∈ s.scopeFrom fuel env) :
    loc ∈ z.frames ∨ loc ∈ z.captured := by
  induction fuel generalizing env with
  | zero => simp [Store.scopeFrom] at member
  | succ fuel ih =>
    obtain ⟨frame, found⟩ := fits.isFrame scope
    rw [Store.scopeFrom, found] at member
    cases h : frame.outer with
    | none =>
      simp only [h, List.mem_singleton] at member
      exact member ▸ scope
    | some outer =>
      simp only [h, List.mem_cons] at member
      rcases member with rfl | later
      · exact scope
      · exact ih (fits.outer scope found h).2 later

/-- Names are bound in frames that are worked in. -/
theorem Fits.find? (fits : z.Fits s) {env loc : Loc} {name : String} (scope : env ∈ z.frames)
    (found : s.find? env name = some loc) : loc ∈ z.frames := by
  rcases fits.scopeFrom _ (.inl scope) (List.mem_of_find?_eq_some found) with frame | captured
  · exact frame
  · obtain ⟨_, here, env', -, -, rfl⟩ := fits.captured captured
    have binds : s.bindsAt name loc = true := List.find?_some found
    simp [Store.bindsAt, here, Frame.binds, Frame.get?] at binds

theorem Fits.lookup? (fits : z.Fits s) {env : Loc} {name : String} (scope : env ∈ z.frames)
    (found : s.lookup? env name = some r) : z.Value r := by
  obtain ⟨loc, bound, here⟩ := Option.bind_eq_some_iff.1 found
  obtain ⟨frame, found, scopes⟩ := fits.frame (fits.find? scope bound)
  rw [Store.valueAt?, found] at here
  exact scopes.values _ (Frame.mem_of_get? here)

/-- A value in hand is bound in a frame. -/
theorem Guards.define (guards : z.Guards root s hand) {env : Loc} (scope : env ∈ z.frames)
    (name : String) (value : z.Value r) :
    z.Guards root (s.define env name r) hand ∧ s.Preserves (s.define env name r) := by
  obtain ⟨frame, found, scopes⟩ := guards.fits.frame scope
  rw [Store.define, found]
  refine guards.write (.inr scope) ?_
    (.of_frame guards.fits scope ⟨?_, scopes.outer, scopes.outermost⟩) (by simp)
  · rw [Store.frame?_eq_some.1 found]
    simp
  · intro binding member
    rcases Frame.mem_insert member with new | old
    · exact new ▸ value
    · exact scopes.values binding old

/-- A field of a pair of data is changed. -/
theorem Guards.setField (guards : z.Guards root s hand) {fields : Ref × Ref} (field : Field)
    (member : q ∈ z.data) (found : s.pair? (.cell q) = some fields) (value : z.Value r) :
    z.Guards root (s.write q (field.set r fields)) hand ∧
      s.Preserves (s.write q (field.set r fields)) := by
  rw [Store.pair?_eq_some] at found
  obtain ⟨node, found', admits⟩ := guards.fits.node member
  rw [found, Option.some.injEq] at found'
  subst found'
  refine guards.write (.inl member) ?_ (.of_data guards.fits member ?_ ?_) ?_
  · rw [found]
    simp
  · cases field with
    | first => exact ⟨value, admits.2⟩
    | second => exact ⟨admits.1, value⟩
  · cases field <;> simp [Field.set]
  · cases field <;> simp [Field.set]

end Zones

/-! ## The laws -/

namespace custody

variable {root : Loc} {s : Store} {hand : Hand} {r : Ref} {env : Loc}

open Zones

/-- Evaluation is only ever stuck at the empty list. -/
theorem stuck (holds : (custody root).Holds s (hand.expect [r]))
    (stuck : ∀ node, s.node? r = some node → node.isCode = false) :
    (custody root).Fails (s.objection .cannotEvaluate r) := by
  obtain ⟨z, guards⟩ := holds
  obtain ⟨ds, cells, -, -, laid, -⟩ := guards.has.apart
  obtain ⟨d, own, first, -⟩ := laid.exists_laid (List.mem_singleton_self r)
  cases r with
  | nil => exact .inr rfl
  | cell loc =>
    obtain ⟨node, found, isCode⟩ := first.isCode first.mem
    rw [stuck node found] at isCode
    cases isCode

theorem atom (a : Atom) (holds : (custody root).Holds s hand) :
    (custody root).Does (make a.node) s ((custody root).Yields hand) := by
  obtain ⟨z, guards⟩ := holds
  have adds := Adds.makeData a.node guards.fits (by cases a <;> trivial)
    (by cases a <;> simp [Atom.node]) (by cases a <;> simp [Atom.node])
  refine guards.does adds fun c z' s' _ guards' value => ⟨z', guards'.gain ?_⟩
  simpa using value

theorem pair {a b : Ref} (holds : (custody root).Holds s hand) (first : a ∈ hand.values)
    (second : b ∈ hand.values) :
    (custody root).Does (make (.pair a b)) s ((custody root).Yields hand) := by
  obtain ⟨z, guards⟩ := holds
  have adds := Adds.makeData (.pair a b) guards.fits
    ⟨guards.has.values a first, guards.has.values b second⟩ (by simp) (by simp)
  refine guards.does adds fun c z' s' _ guards' value => ⟨z', guards'.gain ?_⟩
  simpa using value

theorem copy {early late : Watch} (depth : Nat) (ordered : (custody root).Ordered early late)
    (holds : (custody root).Holds s hand) (value : r ∈ hand.values) :
    (custody root).Runs (duplicateUntil early depth r) (duplicateUntil late depth r) s
      ((custody root).Yields hand) := by
  obtain ⟨z, guards⟩ := holds
  have adds := Zones.duplicate guards.fits guards.whole depth (guards.has.values r value)
  have does : (custody root).Does (duplicate depth r) s ((custody root).Yields hand) :=
    guards.does adds fun c z' s' _ guards' asked => ⟨z', guards'.gain (by simpa using asked.2)⟩
  exact .duplicateUntil ordered (.inl rfl) does fun _ _ => Regime.empty

theorem procedure {params body : List Ref}
    (holds : (custody root).Holds s (hand.expect (params ++ body))) (nonempty : body ≠ [])
    (scope : env ∈ hand.scopes) :
    (custody root).Does (makeClosure params body (some env)) s ((custody root).Yields hand) := by
  obtain ⟨z, guards⟩ := holds
  obtain ⟨z₁, ds, cells, guards₁, laid, distinct, code⟩ := guards.enact
  refine .get ?_
  split
  · rename_i names
    have coded : s.Coded z₁.code params body :=
      ⟨fun r member => List.all_eq_true.1 names r member, nonempty, ds, cells, laid, distinct, code⟩
    have frame : env ∈ z₁.frames := guards₁.has.scopes env scope
    have encloses : z₁.Encloses s.size { outer := some env } :=
      ⟨env, frame, guards₁.fits.lt_of_frame frame, rfl⟩
    have adds : z₁.Adds s (do
        let captured ← allocate (.environment { outer := some env })
        make (.closure params body (some captured))) fun c z' _ => z'.Value c := by
      refine (Adds.makeCaptured guards₁.fits encloses).bind ?_
      intro captured z₂ s₂ grows₂ member
      refine Adds.makeData _ grows₂.fits trivial ?_ (by simp)
      rintro _ _ _ ⟨⟩
      exact ⟨coded.congr grows₂.code fun c member =>
        grows₂.extended.node?_eq (guards₁.fits.lt_of_code member), member⟩
    refine guards₁.does adds fun c z' s' _ guards' value => ⟨z', guards'.gain ?_⟩
    simpa using value
  · exact .throw ⟨z₁, guards₁⟩ (.inl rfl)

theorem define (name : String) (holds : (custody root).Holds s hand) (value : r ∈ hand.values)
    (scope : env ∈ hand.scopes) :
    (custody root).Does (LittleScheme.define env name r) s
      fun _ s' => (custody root).Holds s' hand := by
  obtain ⟨z, guards⟩ := holds
  obtain ⟨guards', kept⟩ := guards.define (guards.has.scopes env scope) name
    (guards.has.values r value)
  exact .of_ok rfl kept ⟨z, guards'⟩

theorem assign (name : String) (holds : (custody root).Holds s hand) (value : r ∈ hand.values)
    (scope : env ∈ hand.scopes) :
    (custody root).Does (LittleScheme.assign env name r) s ((custody root).Yields hand) := by
  obtain ⟨z, guards⟩ := holds
  have frame := guards.has.scopes env scope
  cases bound : s.lookup? env name with
  | none =>
    obtain ⟨chain, outward, -⟩ := guards.fits.outward (.inl frame)
    have missing := assign_of_unbound bound r
    rw [outward.unresolved_eq] at missing
    exact .of_error missing (Store.Preserves.refl s) ⟨z, guards⟩ (.inl rfl)
  | some previous =>
    have known : z.Value previous := guards.fits.lookup? frame bound
    obtain ⟨loc, found, -⟩ := Option.bind_eq_some_iff.1 bound
    have unfolded : s.assign env name r = s.define loc name r := by rw [Store.assign, found]
    obtain ⟨guards', kept⟩ := guards.define (guards.fits.find? frame found) name
      (guards.has.values r value)
    rw [← unfolded] at guards' kept
    refine .of_ok (assign_of_bound bound r) kept ⟨z, guards'.gain ?_⟩
    simpa using known

theorem setField {loc : Loc} {fields : Ref × Ref} (field : Field)
    (holds : (custody root).Holds s hand) (pair : .cell loc ∈ hand.values)
    (found : s.pair? (.cell loc) = some fields) (value : r ∈ hand.values) :
    (custody root).Does (overwrite loc (field.set r fields)) s
      fun _ s' => (custody root).Holds s' hand := by
  obtain ⟨z, guards⟩ := holds
  obtain ⟨guards', kept⟩ := guards.setField field (guards.has.values _ pair loc rfl) found
    (guards.has.values r value)
  exact .of_ok rfl kept ⟨z, guards'⟩

/-- A procedure that is being called has code, and captures a frame. -/
theorem called {z : Zones} {call : Call} (guards : z.Guards root s hand)
    (member : call ∈ hand.calls) :
    s.Coded z.code call.params call.body ∧ ∃ env ∈ z.captured, call.captured = some env := by
  obtain ⟨q, data, found⟩ := guards.has.calls call member
  refine guards.fits.complete guards.whole ?_ found
  rintro _ ⟨⟩
  exact data

/-- Values are copied one after the other. -/
theorem copyEach {early late : Watch} {values : List Ref} (depth : Nat)
    (ordered : (custody root).Ordered early late) (holds : (custody root).Holds s hand)
    (known : values ⊆ hand.values) :
    (custody root).Runs (LittleScheme.copyEach (duplicateUntil early depth) values)
      (LittleScheme.copyEach (duplicateUntil late depth) values) s
      fun copies s' => (custody root).Holds s' (hand.gain copies) := by
  induction values generalizing s hand with
  | nil => exact .pure holds
  | cons r rs ih =>
    refine (copy depth ordered holds (known (by simp))).bind fun c s₁ holds₁ => ?_
    refine (ih holds₁ fun r member => by simp [known (List.mem_cons_of_mem _ member)]).bind ?_
    intro cs s₂ holds₂
    rw [Hand.gain_gain] at holds₂
    exact .pure (Regime.gain_subset (by simp) holds₂)

/-- A call makes a frame in which the parameters, which are symbols, are bound to copies of the
values. -/
theorem enter {early late : Watch} {call : Call} {values : List Ref} {watched full : Engine}
    (depth : Nat) (ordered : (custody root).Ordered early late)
    (copies : watched.copy = duplicateUntil early depth)
    (copies' : full.copy = duplicateUntil late depth) (holds : (custody root).Holds s hand)
    (member : call ∈ hand.calls) (known : values ⊆ hand.values) :
    (custody root).Runs (watched.enterCall call.params values call.captured)
      (full.enterCall call.params values call.captured) s
      fun inner s' => (custody root).Holds s' (hand.enter inner) := by
  rw [Engine.enterCall, Engine.enterCall, copies, copies']
  refine (copyEach depth ordered holds known).bind ?_
  rintro copies s₁ ⟨z, guards⟩
  obtain ⟨coded, env, enclosing, captured⟩ := called guards member
  have named : Engine.namelessParameter? s₁ call.params = none := by
    rw [Engine.namelessParameter?, Option.map_eq_none_iff, List.find?_eq_none]
    intro r member
    simpa [← Option.isSome_iff_ne_none] using coded.names r member
  refine .get ?_
  rw [named]
  have scopes : z.Scopes s₁.size (Frame.defineAll { outer := call.captured }
      (Engine.parameterBindings s₁ call.params copies)) := by
    refine ⟨fun binding bound => ?_, fun outer h => ?_, fun h => ?_⟩
    · rcases Frame.mem_defineAll bound with new | old
      · have copied := (parameterBindings_sublist s₁ call.params copies).subset new
        exact guards.has.values _ (by simp [copied])
      · simp at old
    · obtain rfl : env = outer := by simpa [captured] using h
      exact ⟨enclosing, guards.fits.lt_of_captured enclosing⟩
    · simp [captured] at h
  have entered : (custody root).Holds _ ((hand.enter s₁.size).gain copies) :=
    ⟨_, guards.enter scopes⟩
  exact .of_ok rfl (s₁.extended_register _).preserves (Regime.of_gain entered)

/-- A form of the body of a procedure is copied, and the copy is in hand. -/
theorem unfoldForm {early late : Watch} {call : Call} (depth : Nat)
    (ordered : (custody root).Ordered early late) (holds : (custody root).Holds s hand)
    (member : call ∈ hand.calls) (form : r ∈ call.body) :
    (custody root).Runs (duplicateUntil early depth r) (duplicateUntil late depth r) s
      fun c s' => (custody root).Holds s' (hand.expect [c]) := by
  obtain ⟨z, guards⟩ := holds
  obtain ⟨⟨-, -, ds, cells, laid, distinct, code⟩, -⟩ := called guards member
  obtain ⟨d, own, laid', sublist⟩ := laid.exists_laid (List.mem_append_right _ form)
  have adds := copying_duplicate z.code depth guards.fits laid' (distinct.sublist sublist)
    fun c member => code c (sublist.subset member)
  have does : (custody root).Does (duplicate depth r) s
      fun c s' => (custody root).Holds s' (hand.expect [c]) := by
    refine guards.does adds ?_
    rintro c _ s' grows guards' ⟨rfl, new, fresh, distinct', beyond⟩
    exact ⟨_, guards.expect guards' grows.extended fresh.singleton distinct' beyond⟩
  exact .duplicateUntil ordered (.inl rfl) does fun _ _ => Regime.empty

/-- The body of a procedure is copied, and the copy is in hand. -/
theorem unfold {early late : Watch} {call : Call} (depth : Nat)
    (ordered : (custody root).Ordered early late) (holds : (custody root).Holds s hand)
    (member : call ∈ hand.calls) :
    (custody root).Runs (LittleScheme.copyEach (duplicateUntil early depth) call.body)
      (LittleScheme.copyEach (duplicateUntil late depth) call.body) s
      fun forms s' => (custody root).Holds s' (hand.expect forms) := by
  have each (body : List Ref) (inside : body ⊆ call.body) {s : Store} {hand : Hand}
      (holds : (custody root).Holds s hand) (member : call ∈ hand.calls) :
      (custody root).Runs (LittleScheme.copyEach (duplicateUntil early depth) body)
        (LittleScheme.copyEach (duplicateUntil late depth) body) s
        fun forms s' => (custody root).Holds s' (hand.expect forms) := by
    induction body generalizing s hand with
    | nil => exact .pure holds
    | cons r rs ih =>
      refine (unfoldForm depth ordered holds member (inside (by simp))).bind fun c s₁ holds₁ => ?_
      have rest : rs ⊆ call.body := fun r' later => inside (by simp [later])
      refine (ih rest holds₁ member).bind fun cs s₂ holds₂ => ?_
      rw [Hand.expect_expect] at holds₂
      -- In hand, the copy that was made first comes last.
      exact .pure (Regime.expect_subperm (List.perm_append_singleton _ _).symm.subperm holds₂)
  exact each call.body (List.Subset.refl _) holds member

end custody

/-- The elementary steps of evaluation keep the zones apart. -/
theorem lawful_custody (root : Loc) : (custody root).Lawful where
  ordinary generic := .inl (Fault.isInternal_of_isGeneric generic)
  unbound _ _ := .inl rfl
  endless := by
    rintro s hand env ⟨z, guards⟩ scope round
    obtain ⟨chain, outward, -⟩ := guards.fits.outward (.inl (guards.has.scopes env scope))
    rw [outward.isEndless_eq_false] at round
    cases round
  stuck := custody.stuck
  settle := fun ⟨_, guards⟩ => guards.settle
  split := fun ⟨z, guards⟩ found => ⟨z, guards.split found⟩
  nil := fun ⟨z, guards⟩ => ⟨z, guards.gain (by simp [Zones.value_nil])⟩
  lookup := fun ⟨z, guards⟩ scope found =>
    ⟨z, guards.gain (by simpa using guards.fits.lookup? (guards.has.scopes _ scope) found)⟩
  fields := by
    rintro s hand r fields ⟨z, guards⟩ value found
    rw [Store.pair?_eq_some] at found
    have admits := guards.fits.admits (guards.has.values r value) found
    exact ⟨z, guards.gain (by simpa using ⟨admits.1, admits.2⟩)⟩
  code := by
    rintro s hand r params body captured ⟨z, guards⟩ value found
    refine ⟨z, { guards with has := { guards.has with calls := List.forall_mem_cons.2 ?_ } }⟩
    cases r with
    | nil => cases found
    | cell q => exact ⟨⟨q, guards.has.values _ value q rfl, found⟩, guards.has.calls⟩
  perform _ _ _ := trivial
  atom a _ := custody.atom a
  pair := custody.pair
  procedure := custody.procedure
  copy := custody.copy
  define depth name _ ordered holds value scope :=
    (custody.copy depth ordered holds value).bind fun c s₁ holds₁ =>
      (custody.define name holds₁ (by simp) scope).imp fun _ s₂ => Regime.of_gain
  defineProcedure name _ holds nonempty scope :=
    (custody.procedure holds nonempty scope).bind fun c s₁ holds₁ =>
      (custody.define name holds₁ (by simp) scope).imp fun _ s₂ => Regime.of_gain
  assign depth name _ ordered holds _ value scope :=
    (custody.copy depth ordered holds value).bind fun c s₁ holds₁ =>
      (custody.assign name holds₁ (by simp) scope).imp fun r s₂ holds₂ => by
        rw [Regime.Yields, Hand.gain_gain] at holds₂
        exact Regime.gain_subset (by simp) holds₂
  replace := by
    intro early late s hand loc fields r depth field _ ordered holds pair found value _
    have kept {c : Ref} {s' : Store} (ended : duplicateUntil late depth r s = .ok c s') :
        s'.pair? (.cell loc) = some fields := by
      have extended := duplicate_extended depth r s
      rw [StoreM.storeAfter, duplicate_of_until ended] at extended
      exact Store.pair?_eq_some.2 (extended.node? (Store.pair?_eq_some.1 found))
    refine ((custody.copy depth ordered holds value).and kept).bind ?_
    rintro c s₁ ⟨holds₁, found₁⟩
    exact (custody.setField field holds₁ (by simp [pair]) found₁ (by simp)).imp
      fun _ _ => Regime.of_gain
  tie field _ holds pair found := custody.setField field holds pair found pair
  enter := custody.enter
  unfold := custody.unfold

end LittleScheme
