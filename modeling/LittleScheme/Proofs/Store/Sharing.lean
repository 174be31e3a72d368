import LittleScheme.Proofs.Store.Mirror
import LittleScheme.Proofs.Store.Outward

/-!
# Frames that share a scope

Where a frame does not bind a name, the name is seen as in the frame around it.  So all frames from
which it is seen as in one scope share its binding (`Store.Shares`): an assignment from any of them
is an assignment in the scope, and all of them see it.

A procedure captures a frame that has no bindings, inside of the scope that it is made in.  The
frame is copied along with the procedure, but the scope around it is not; so a procedure and its
copies see all names as that scope does, and so do calls of theirs, parameters apart.
-/

namespace LittleScheme

namespace Store

variable {s s' : Store} {env env' scope loc : Loc} {chain : List Loc} {name : String} {r : Ref}

/-! ## Assignments -/

/-- A definition changes one frame. -/
theorem frame?_define {frame : Frame} (found : s.frame? loc = some frame) (name : String)
    (value : Ref) (q : Loc) : (s.define loc name value).frame? q =
      if q = loc then some (frame.define name value) else s.frame? q := by
  have exist : loc < s.size := lt_size (frame?_eq_some.1 found)
  rw [define, found]
  by_cases here : q = loc
  · subst here
    rw [if_pos rfl, frame?_eq_some, s.node?_write exist, if_pos rfl]
  · rw [if_neg here]
    simp only [frame?, s.node?_write_of_ne _ (show Ref.cell q ≠ .cell loc by simpa using here)]

/-- Definitions do not change the way outwards. -/
theorem Outward.define {frame : Frame} (outward : s.Outward env chain)
    (found : s.frame? loc = some frame) (name : String) (value : Ref) :
    (s.define loc name value).Outward env chain := by
  have kept {q : Loc} {frame' : Frame} (here : s.frame? q = some frame') :
      ∃ frame'', (s.define loc name value).frame? q = some frame'' ∧
        frame''.outer = frame'.outer := by
    rw [frame?_define found]
    split
    · rename_i same
      rw [same, found, Option.some.injEq] at here
      exact ⟨_, rfl, by simp [here]⟩
    · exact ⟨frame', here, rfl⟩
  induction outward with
  | last here outermost =>
    obtain ⟨frame', here', outer⟩ := kept here
    exact .last here' (outer.trans outermost)
  | step here around _ ih =>
    obtain ⟨frame', here', outer⟩ := kept here
    exact .step here' (outer.trans around) ih

/-- The frame in which a name is found binds it. -/
theorem exists_frame_of_find? (found : s.find? env name = some loc) :
    ∃ frame, s.frame? loc = some frame ∧ frame.binds name = true := by
  have binds : s.bindsAt name loc = true := List.find?_some found
  exact (Option.any_eq_true _ _).1 binds

/-- Where a name is bound already, a definition does not change in which frame it is found. -/
theorem Outward.find?_define {frame : Frame} (outward : s.Outward env chain)
    (found : s.frame? loc = some frame) (binds : frame.binds name = true) (value : Ref) :
    (s.define loc name value).find? env name = s.find? env name := by
  have same : (s.define loc name value).bindsAt name = s.bindsAt name := by
    funext q
    rw [bindsAt, bindsAt, frame?_define found]
    split
    · rename_i here
      have defined : (frame.define name value).binds name = true := by
        simp [Frame.binds, Frame.get?_define]
      simp [here, found, binds, defined]
    · rfl
  rw [find?, find?, outward.scope_eq, (outward.define found name value).scope_eq, same]

/-- A name that is found has the value that it is assigned. -/
theorem Outward.lookup?_assign (outward : s.Outward env chain)
    (found : s.find? env name = some loc) (value : Ref) :
    (s.assign env name value).lookup? env name = some value := by
  obtain ⟨frame, here, binds⟩ := exists_frame_of_find? found
  have assigned : s.assign env name value = s.define loc name value := by rw [assign, found]
  have still : (s.define loc name value).find? env name = some loc :=
    (outward.find?_define here binds value).trans found
  rw [assigned, lookup?, still, Option.bind_some, valueAt?, frame?_define here, if_pos rfl]
  simp [Frame.get?_define]

/-! ## Sharing -/

/-- From the frame at a location, the name is seen as in the scope: no frame on the way there binds
it. -/
inductive Sees (s : Store) (name : String) (scope : Loc) : Loc → Prop
  | here : s.Sees name scope scope
  | through {env outer : Loc} {frame : Frame} (found : s.frame? env = some frame)
    (around : frame.outer = some outer) (free : frame.binds name = false)
    (rest : s.Sees name scope outer) : s.Sees name scope env

/-- From all frames that see a name as in the scope, it is found in the same frame.  Assigning it
from one of them is the same as doing so from another, and what has been assigned is seen from
there. -/
structure Shares (s : Store) (scope : Loc) : Prop where
  find? : ∀ {name env env'}, s.Sees name scope env → s.Sees name scope env' →
    s.find? env' name = s.find? env name
  assign : ∀ {name env env'} (value : Ref), s.Sees name scope env → s.Sees name scope env' →
    LittleScheme.assign env' name value s = LittleScheme.assign env name value s
  lookup? : ∀ {name env env' value previous s'}, s.Sees name scope env → s.Sees name scope env' →
    LittleScheme.assign env name value s = .ok previous s' → s'.lookup? env' name = some value

/-- What is seen as in the scope is found as from the scope. -/
theorem Sees.find?_eq (sees : s.Sees name scope env) (outward : s.Outward scope chain) :
    s.find? env name = s.find? scope name ∧ ∃ chain', s.Outward env chain' := by
  induction sees with
  | here => exact ⟨rfl, chain, outward⟩
  | through found around free _ ih =>
    obtain ⟨same, chain', rest⟩ := ih
    exact ⟨(rest.find?_outer found around free).trans same, _, .step found around rest⟩

/-- Assigning a name depends on the frame in which it is found, and without one on what becomes of
the search. -/
theorem assign_congr (same : s.find? env' name = s.find? env name)
    (missing : s.unresolved env' name = s.unresolved env name) (value : Ref) :
    LittleScheme.assign env' name value s = LittleScheme.assign env name value s := by
  have read : s.lookup? env' name = s.lookup? env name := by rw [lookup?, lookup?, same]
  have written : s.assign env' name value = s.assign env name value := by rw [assign, assign, same]
  cases bound : s.lookup? env name with
  | none => rw [assign_of_unbound bound, assign_of_unbound (read.trans bound), missing]
  | some previous => rw [assign_of_bound bound, assign_of_bound (read.trans bound), written]

/-- What has been assigned is there. -/
theorem Outward.lookup?_of_assign {value previous : Ref} (outward : s.Outward env chain)
    (assigned : LittleScheme.assign env name value s = .ok previous s') :
    s'.lookup? env name = some value := by
  cases bound : s.lookup? env name with
  | none =>
    rw [assign_of_unbound bound] at assigned
    cases assigned
  | some previous =>
    rw [assign_of_bound bound] at assigned
    cases assigned
    obtain ⟨loc, found, -⟩ := Option.bind_eq_some_iff.1 bound
    exact outward.lookup?_assign found value

/-- Scopes are shared. -/
theorem Outward.shares (outward : s.Outward scope chain) : s.Shares scope := by
  have same {name : String} {env env' : Loc} (sees : s.Sees name scope env)
      (sees' : s.Sees name scope env') : s.find? env' name = s.find? env name :=
    (sees'.find?_eq outward).1.trans (sees.find?_eq outward).1.symm
  have missing {name : String} {env env' : Loc} (sees : s.Sees name scope env)
      (sees' : s.Sees name scope env') : s.unresolved env' name = s.unresolved env name := by
    obtain ⟨_, way⟩ := (sees.find?_eq outward).2
    obtain ⟨_, way'⟩ := (sees'.find?_eq outward).2
    rw [way.unresolved_eq, way'.unresolved_eq]
  refine ⟨same, fun value sees sees' => assign_congr (same sees sees') (missing sees sees') value,
    ?_⟩
  intro name env env' value previous s' sees sees' assigned
  obtain ⟨chain', outward'⟩ := (sees'.find?_eq outward).2
  rw [← assign_congr (same sees sees') (missing sees sees')] at assigned
  exact outward'.lookup?_of_assign assigned

/-! ## Procedures -/

/-- The procedure has captured the frame at `env`, which has no bindings and lies inside of the one
at `scope`. -/
structure MadeIn (s : Store) (r : Ref) (env scope : Loc) : Prop where
  node? : ∃ params body, s.node? r = some (.closure params body (some env))
  frame? : s.frame? env = some { outer := some scope }

/-- From the frame of a procedure, all names are seen as in the scope. -/
theorem MadeIn.sees (made : s.MadeIn r env scope) (name : String) : s.Sees name scope env :=
  .through made.frame? rfl rfl .here

theorem MadeIn.extend (made : s.MadeIn r env scope) (extended : s.Extended s') :
    s'.MadeIn r env scope := by
  obtain ⟨params, body, found⟩ := made.node?
  exact ⟨⟨params, body, extended.node? found⟩,
    frame?_eq_some.2 (extended.node? (frame?_eq_some.1 made.frame?))⟩

/-- A copy of a procedure is made in the same scope. -/
theorem MadeIn.duplicate {q : Loc} {depth : Nat} {c : Ref} (made : s.MadeIn (.cell q) env scope)
    (whole : s.Whole (.cell q)) (copied : LittleScheme.duplicate depth (.cell q) s = .ok c s') :
    s'.MadeIn (.cell q) env scope ∧ ∃ env', s'.MadeIn c env' scope := by
  obtain ⟨extended, mirrors⟩ := (duplicate_completes whole depth).ok copied
  refine ⟨made.extend extended, ?_⟩
  obtain ⟨params, body, found⟩ := made.node?
  have frame := frame?_eq_some.1 made.frame?
  cases mirrors with
  | back under => simp at under
  | @cell _ _ _ copy node node' apart new here here' alike parts =>
    rw [found, Option.some.injEq] at here
    subst here
    obtain ⟨params', body', env', rfl, sameParams, sameBody⟩ := alike.exists_closure
    have lengths : (params ++ body).length = (params' ++ body').length := by
      simp [sameParams, sameBody]
    have member : (.cell env, .cell env') ∈ (Node.closure params body (some env)).parts.zip
        (Node.closure params' body' (some env')).parts := by
      rw [Node.parts, Node.parts, List.zip_append lengths]
      simp
    have captured := parts member
    refine ⟨env', ⟨params', body', here'⟩, ?_⟩
    cases captured with
    | back under =>
      -- Only the procedure is under way, and it is no frame.
      rw [Std.TreeMap.getElem?_insert] at under
      split at under
      · rename_i same
        obtain rfl : q = env := by simpa using same
        rw [found] at frame
        cases frame
      · simp at under
    | cell _ _ here₂ here₂' alike₂ _ =>
      rw [frame, Option.some.injEq] at here₂
      subst here₂
      obtain ⟨⟨bindings, outer⟩, rfl, names, around⟩ := alike₂.exists_frame
      obtain rfl : bindings = [] := by simpa [Frame.names] using names
      obtain rfl : outer = some scope := around
      exact frame?_eq_some.2 here₂'

end Store

end LittleScheme
