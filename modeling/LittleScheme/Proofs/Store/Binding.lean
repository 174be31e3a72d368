import LittleScheme.Proofs.Evaluation.Containment
import LittleScheme.Proofs.Store.Sharing

/-!
# Bindings in a forest of frames

Frames are shared: many scopes may lead through one of them, so whoever binds a name anew or hides
it does so for others too.  `define` is seen from those frames from which no other frame that binds
the name is met first, and `assign` from those from which the name is found in the same frame.
Nobody else sees a difference, under this name or another.  This holds of any frames, however they
came about, that lie inside of each other as in a `Store.Forest`.
-/

namespace LittleScheme

namespace Store

/-- What lies around a frame is a frame, and no frame lies inside of itself. -/
structure Forest (s : Store) : Prop where
  linked : ∀ {env outer}, s.Inside env outer → ∃ frame, s.frame? outer = some frame
  acyclic : ∀ env, ¬Relation.TransGen s.Inside env env

variable {s : Store} {env loc e : Loc} {chain : List Loc} {frame : Frame} {name n : String}
  {value : Ref}

/-! ## The ways outwards -/

/-- From each frame of a forest, the way outwards comes to an end. -/
theorem Forest.exists_outward (forest : s.Forest) (found : s.frame? env = some frame) :
    ∃ chain, s.Outward env chain := by
  have distinct : (s.scopeFrom (s.size + 1) env).Nodup :=
    nodup_scopeFrom_of_acyclic (fun q _ => forest.acyclic q) _
  have short : (s.scopeFrom (s.size + 1) env).length < s.size + 1 :=
    Nat.lt_succ_of_le (length_scopeFrom_le_size distinct)
  exact ⟨_, outward_scopeFrom forest.linked found short⟩

/-- Frames that lie inside of earlier ones form a forest. -/
theorem forest_of_lt
    (earlier : ∀ env < s.size, ∀ frame ∈ s.frame? env, ∀ outer ∈ frame.outer,
      outer < env ∧ (s.frame? outer).isSome) : s.Forest := by
  have inside {env outer : Loc} (inside : s.Inside env outer) :
      outer < env ∧ (s.frame? outer).isSome := by
    obtain ⟨frame, found, around⟩ := inside
    exact earlier env (Store.lt_size (frame?_eq_some.1 found)) frame found outer around
  refine ⟨fun link => Option.isSome_iff_exists.1 (inside link).2, fun env around => ?_⟩
  have less {env outer : Loc} (way : Relation.TransGen s.Inside env outer) : outer < env := by
    induction way with
    | single link => exact (inside link).1
    | tail _ link ih => exact Nat.lt_trans (inside link).1 ih
  exact Nat.lt_irrefl env (less around)

/-- The frames that are met on the way outwards. -/
theorem Outward.mem_iff (outward : s.Outward env chain) :
    loc ∈ chain ↔ Relation.ReflTransGen s.Inside env loc := by
  induction outward with
  | @last env frame found outermost =>
    rw [List.mem_singleton, Relation.ReflTransGen.cases_head_iff]
    constructor
    · rintro rfl
      exact .inl rfl
    · rintro (rfl | ⟨outer, ⟨frame', found', around⟩, -⟩)
      · rfl
      · simp_all
  | @step env outer frame chain found around rest ih =>
    rw [List.mem_cons, Relation.ReflTransGen.cases_head_iff, ih, eq_comm]
    refine or_congr_right ⟨fun way => ⟨outer, ⟨frame, found, around⟩, way⟩, ?_⟩
    rintro ⟨outer', ⟨frame', found', around'⟩, way⟩
    rw [found, Option.some.injEq] at found'
    subst found'
    rw [around, Option.some.injEq] at around'
    exact around' ▸ way

/-! ## Looking up -/

theorem bindsAt_eq (s : Store) (name : String) (loc : Loc) :
    s.bindsAt name loc = (s.valueAt? name loc).isSome := by
  cases here : s.frame? loc <;> simp [bindsAt, valueAt?, here, Frame.binds]

/-- The first frame that binds the name decides. -/
theorem Outward.lookup?_eq (outward : s.Outward env chain) (n : String) :
    s.lookup? env n = chain.findSome? (s.valueAt? n) := by
  have first (locs : List Loc) :
      (locs.find? (s.bindsAt n)).bind (s.valueAt? n) = locs.findSome? (s.valueAt? n) := by
    induction locs with
    | nil => rfl
    | cons q locs ih =>
      rw [List.find?_cons, List.findSome?_cons, bindsAt_eq]
      cases here : s.valueAt? n q with
      | none => exact ih
      | some r => simp [here]
  rw [lookup?, find?, outward.scope_eq, first]

/-- Where there is no frame, no name is found. -/
theorem find?_of_none (absent : s.frame? env = none) (n : String) : s.find? env n = none := by
  have empty : s.scope env = [] := by
    rw [scope]
    cases s.size <;> simp [scopeFrom, absent]
  rw [find?, empty]
  rfl

theorem lookup?_of_none (absent : s.frame? env = none) (n : String) : s.lookup? env n = none := by
  rw [lookup?, find?_of_none absent]
  rfl

/-- A name has no value if no frame on the way outwards binds it. -/
theorem Outward.lookup?_eq_none_iff (outward : s.Outward env chain) (name : String) :
    s.lookup? env name = none ↔
      ∀ q, Relation.ReflTransGen s.Inside env q → s.bindsAt name q = false := by
  rw [outward.lookup?_eq, List.findSome?_eq_none_iff]
  simp only [← outward.mem_iff, bindsAt_eq, Option.isSome_eq_false_iff, Option.isNone_iff_eq_none]

/-! ## Definitions -/

theorem valueAt?_define (found : s.frame? loc = some frame) (name : String) (value : Ref)
    (n : String) (q : Loc) : (s.define loc name value).valueAt? n q =
      if q = loc ∧ n = name then some value else s.valueAt? n q := by
  rw [valueAt?, valueAt?, frame?_define found]
  by_cases here : q = loc
  · subst here
    simp [found, Frame.get?_define]
  · simp [here]

/-- What is seen from a frame is bound there, or the frame lets it through. -/
theorem sees_iff (here : s.frame? e = some frame) :
    s.Sees name loc e ↔ e = loc ∨
      s.valueAt? name e = none ∧ ∃ outer, frame.outer = some outer ∧ s.Sees name loc outer := by
  have passes : s.valueAt? name e = none ↔ frame.binds name = false := by
    simp [valueAt?, here, Frame.binds]
  rw [passes]
  constructor
  · intro sees
    cases sees with
    | here => exact .inl rfl
    | through here' around free rest =>
      rw [here, Option.some.injEq] at here'
      exact .inr (here' ▸ ⟨free, _, around, rest⟩)
  · rintro (rfl | ⟨free, outer, around, rest⟩)
    · exact .here
    · exact .through here around free rest

theorem not_sees_of_none (absent : s.frame? e = none) (found : s.frame? loc = some frame) :
    ¬s.Sees name loc e := by
  intro sees
  cases sees with
  | here => simp [found] at absent
  | through here => simp [here] at absent

/-- A definition is seen from where no other frame that binds the name is met before. -/
theorem Sees.lookup?_define (sees : s.Sees name loc e) (found : s.frame? loc = some frame)
    (outward : s.Outward e chain) (value : Ref) :
    (s.define loc name value).lookup? e name = some value := by
  rw [(outward.define found name value).lookup?_eq]
  induction outward with
  | last here outermost =>
    rcases (sees_iff here).1 sees with rfl | ⟨-, outer, around, -⟩
    · simp [valueAt?_define found]
    · simp [outermost] at around
  | @step e outer frame' chain here around _ ih =>
    by_cases same : e = loc
    · simp [valueAt?_define found, same]
    · obtain ⟨passed, outer', around', rest⟩ := ((sees_iff here).1 sees).resolve_left same
      rw [around, Option.some.injEq] at around'
      simp [valueAt?_define found, same, passed, ih (around' ▸ rest)]

/-- Nobody else sees it, and no other name is concerned. -/
theorem lookup?_define_of_not (outward : s.Outward e chain) (found : s.frame? loc = some frame)
    (other : ¬(n = name ∧ s.Sees name loc e)) (value : Ref) :
    (s.define loc name value).lookup? e n = s.lookup? e n := by
  rw [(outward.define found name value).lookup?_eq, outward.lookup?_eq]
  have apart {q : Loc} (unseen : ¬(n = name ∧ s.Sees name loc q)) : ¬(q = loc ∧ n = name) := by
    rintro ⟨rfl, rfl⟩
    exact unseen ⟨rfl, .here⟩
  induction outward with
  | last here outermost => simp [valueAt?_define found, apart other]
  | @step e outer frame' chain here around _ ih =>
    rw [List.findSome?_cons, List.findSome?_cons, valueAt?_define found, if_neg (apart other)]
    cases decided : s.valueAt? n e with
    | some r => rfl
    | none =>
      refine ih ?_
      rintro ⟨rfl, sees⟩
      exact other ⟨rfl, (sees_iff here).2 (.inr ⟨decided, outer, around, sees⟩)⟩

/-! ## Assignments -/

/-- A name is found in a frame that binds it from where no other such frame is met before. -/
theorem Outward.find?_eq_some_iff_sees (outward : s.Outward e chain)
    (binds : s.bindsAt name loc = true) : s.find? e name = some loc ↔ s.Sees name loc e := by
  rw [find?, outward.scope_eq]
  induction outward with
  | @last e frame' here outermost =>
    rw [sees_iff here]
    by_cases same : e = loc
    · simp [same, binds]
    · rw [List.find?_cons]
      cases s.bindsAt name e <;> simp [same, outermost]
  | @step e outer frame' chain here around rest ih =>
    rw [sees_iff here, List.find?_cons]
    by_cases same : e = loc
    · simp [same, binds]
    · cases decided : s.valueAt? name e with
      | some r => simp [bindsAt_eq, decided, same]
      | none => simp [bindsAt_eq, decided, same, around, ← ih]

/-! ## All scopes at once -/

/-- Who sees a definition, and who does not. -/
theorem Forest.lookup?_define (forest : s.Forest) (found : s.frame? loc = some frame)
    (name : String) (value : Ref) (e : Loc) (n : String) :
    (n = name ∧ s.Sees name loc e → (s.define loc name value).lookup? e n = some value) ∧
      (¬(n = name ∧ s.Sees name loc e) →
        (s.define loc name value).lookup? e n = s.lookup? e n) := by
  cases here : s.frame? e with
  | none =>
    have other : e ≠ loc := by
      rintro rfl
      simp [found] at here
    have absent : (s.define loc name value).frame? e = none := by
      rw [frame?_define found, if_neg other, here]
    exact ⟨fun seen => absurd seen.2 (not_sees_of_none here found),
      fun _ => by rw [lookup?_of_none absent, lookup?_of_none here]⟩
  | some frame' =>
    obtain ⟨chain, outward⟩ := forest.exists_outward here
    refine ⟨?_, fun other => lookup?_define_of_not outward found other value⟩
    rintro ⟨rfl, sees⟩
    exact sees.lookup?_define found outward value

theorem Forest.find?_eq_some_iff_sees (forest : s.Forest) (binds : s.bindsAt name loc = true)
    (e : Loc) : s.find? e name = some loc ↔ s.Sees name loc e := by
  cases here : s.frame? e with
  | none =>
    obtain ⟨frame, found, -⟩ := (Option.any_eq_true _ _).1 binds
    rw [find?_of_none here]
    exact iff_of_false nofun (not_sees_of_none here found)
  | some frame =>
    obtain ⟨chain, outward⟩ := forest.exists_outward here
    exact outward.find?_eq_some_iff_sees binds

/-- A definition in a frame that binds the name changes no names. -/
theorem names_define_of_binds (found : s.frame? loc = some frame)
    (binds : frame.binds name = true) (value : Ref) (q : Loc) :
    ((s.define loc name value).frame? q).map Frame.names = (s.frame? q).map Frame.names := by
  rw [frame?_define found]
  by_cases here : q = loc
  · have bound : name ∈ frame.names := frame.binds_iff name |>.1 binds
    simp [here, found, Frame.names_define_of_mem bound]
  · rw [if_neg here]

end Store

open Relation (ReflTransGen) in
/-- **Assignments and definitions.**  The frames form a forest, and names are resolved from the
inside outwards.

`assign` from a frame fails, without any change, exactly if no frame from there outwards binds the
name.  Otherwise the result is the value that the name had, all frames have the names they had, in
the same order, and the name has the new value from all frames from which it was found in the same
frame as here.

`define` always succeeds.  No other frame changes; the names of this one stay where they are, and a
new one is added behind them.  The name has the new value from all frames from which no other frame
that binds it is met before this one.

No other name has another value than before from anywhere, and neither has the name from anywhere
else. -/
theorem binding_laws {s : Store} (forest : s.Forest) {env : Loc} {frame : Frame}
    (found : s.frame? env = some frame) (name : String) (value : Ref) :
    (assign env name value s = .error (.error (.unbound name)) s ↔
      ∀ q, ReflTransGen s.Inside env q → s.bindsAt name q = false) ∧
    ((∃ q, ReflTransGen s.Inside env q ∧ s.bindsAt name q = true) →
      ∃ previous s', assign env name value s = .ok previous s' ∧
        s.lookup? env name = some previous ∧
        (∀ q, (s'.frame? q).map Frame.names = (s.frame? q).map Frame.names) ∧
        ∀ e n,
          (n = name ∧ s.find? e name = s.find? env name → s'.lookup? e n = some value) ∧
          (¬(n = name ∧ s.find? e name = s.find? env name) →
            s'.lookup? e n = s.lookup? e n)) ∧
    ∃ s', define env name value s = .ok () s' ∧
      (∀ q, q ≠ env → s'.frame? q = s.frame? q) ∧
      (∃ frame', s'.frame? env = some frame' ∧ frame'.outer = frame.outer ∧
        frame'.names = if name ∈ frame.names then frame.names else frame.names ++ [name]) ∧
      ∀ e n,
        (n = name ∧ s.Sees name env e → s'.lookup? e n = some value) ∧
        (¬(n = name ∧ s.Sees name env e) → s'.lookup? e n = s.lookup? e n) := by
  obtain ⟨chain, outward⟩ := forest.exists_outward found
  have free := outward.lookup?_eq_none_iff name
  refine ⟨?_, ?_, ?_⟩
  · rw [← free]
    cases bound : s.lookup? env name with
    | none =>
      refine iff_of_true ?_ rfl
      rw [assign_of_unbound bound, outward.unresolved_eq]
    | some previous =>
      rw [assign_of_bound bound]
      exact iff_of_false nofun nofun
  · rintro ⟨q, way, binds⟩
    cases bound : s.lookup? env name with
    | none => simp [free.1 bound q way] at binds
    | some previous =>
      obtain ⟨loc, decides, -⟩ := Option.bind_eq_some_iff.1 bound
      obtain ⟨frame', here, binds'⟩ := Store.exists_frame_of_find? decides
      have assigned : s.assign env name value = s.define loc name value := by
        rw [Store.assign, decides]
      refine ⟨previous, s.assign env name value, assign_of_bound bound value, rfl, ?_, ?_⟩
      · rw [assigned]
        exact Store.names_define_of_binds here binds' value
      · intro e n
        rw [assigned, decides, forest.find?_eq_some_iff_sees (List.find?_some decides)]
        exact forest.lookup?_define here name value e n
  · refine ⟨s.define env name value, rfl, fun q other => ?_, ?_,
      forest.lookup?_define found name value⟩
    · rw [Store.frame?_define found, if_neg other]
    · refine ⟨frame.define name value, ?_, rfl, frame.names_define name value⟩
      rw [Store.frame?_define found, if_pos rfl]

/-- Frames in frames: the outermost one binds `x` and `y`, and so does the one inside of it for `x`.
The innermost one assigns `x`, which is seen from the middle and not from the outermost nor from
another one inside of it; then `y` is defined in the middle. -/
theorem binding_laws_branches :
    let s : Store :=
      { cells := #[{ node := .environment { bindings := [("x", .cell 4), ("y", .cell 5)] } },
          { node := .environment { bindings := [("x", .cell 5)], outer := some 0 } },
          { node := .environment { outer := some 1 } },
          { node := .environment { outer := some 0 } },
          { node := .integer 1 }, { node := .integer 2 }, { node := .integer 3 }]
        registry := [6, 5, 4, 3, 2, 1, 0], allocations := 7 }
    s.Forest ∧
      (∃ t, assign 2 "x" (.cell 6) s = .ok (.cell 5) t ∧ t.lookup? 1 "x" = some (.cell 6) ∧
        t.lookup? 0 "x" = some (.cell 4) ∧ t.lookup? 3 "x" = some (.cell 4)) ∧
      (∃ t, define 1 "y" (.cell 6) s = .ok () t ∧ t.lookup? 2 "y" = some (.cell 6) ∧
        t.lookup? 3 "y" = some (.cell 5)) ∧
      assign 2 "z" (.cell 6) s = .error (.error (.unbound "z")) s := by
  intro s
  have forest : s.Forest := Store.forest_of_lt (by decide)
  have outward : s.Outward 2 [2, 1, 0] := .step rfl rfl (.step rfl rfl (.last rfl rfl))
  obtain ⟨-, assigned, -⟩ := @binding_laws s forest 2 _ rfl "x" (.cell 6)
  obtain ⟨-, -, t', defined, -, -, seen'⟩ := @binding_laws s forest 1 _ rfl "y" (.cell 6)
  obtain ⟨unbound, -⟩ := @binding_laws s forest 2 _ rfl "z" (.cell 6)
  refine ⟨forest, ?_, ⟨t', defined, ?_, ?_⟩, ?_⟩
  · obtain ⟨previous, t, ended, before, -, seen⟩ := assigned ⟨1, outward.mem_iff.1 (by simp), rfl⟩
    have value : s.lookup? 2 "x" = some (.cell 5) := by decide
    rw [value, Option.some.injEq] at before
    subst before
    exact ⟨t, ended, (seen 1 "x").1 (by decide), (seen 0 "x").2 (by decide),
      (seen 3 "x").2 (by decide)⟩
  · exact (seen' 2 "y").1 ⟨rfl, .through rfl rfl rfl .here⟩
  · refine (seen' 3 "y").2 ?_
    rintro ⟨-, sees⟩
    cases sees with
    | through found around _ rest =>
      cases found
      cases around
      cases rest with
      | through found around => cases found; cases around
  · refine unbound.2 fun q way => ?_
    have member := outward.mem_iff.2 way
    simp only [List.mem_cons, List.not_mem_nil, or_false] at member
    rcases member with rfl | rfl | rfl <;> rfl

end LittleScheme
