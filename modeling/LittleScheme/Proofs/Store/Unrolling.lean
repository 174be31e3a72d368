import LittleScheme.Proofs.Store.Collection
import LittleScheme.Proofs.Store.ZonedCopy
import Mathlib.Data.List.Forall2

/-!
# Copies are unrolled in order

A copy is taken along the paths from a value.  Whatever is met on a path for the first time gets a
new cell, and whatever is met again on the same path is the copy that is under way already.  So a
copy follows its original step by step, although cells that are shared in the original are copied
once for each way to them.

The cells of a copy are made one after the other, each of them before those of its parts.  So the
copy of a part fills a stretch of the store, right behind that of the part before it, and
`Store.Unrolls` is said of stretches.
-/

namespace LittleScheme

namespace Node

/-- The references that are followed when a node is copied: all but the frame around a frame. -/
def parts : Node → List Ref
  | .pair first second => [first, second]
  | .environment frame => frame.bindings.map (·.2)
  | .closure params body env => params ++ body ++ env.toList.map .cell
  | .integer _ | .boolean _ | .symbol _ | .builtin _ => []

theorem parts_subset_children (node : Node) : node.parts ⊆ node.children := by
  cases node <;> simp [parts, children]

/-- The nodes differ in their parts only. -/
inductive Resembles : Node → Node → Prop
  | refl (node : Node) : Resembles node node
  | pair (first second first' second' : Ref) : Resembles (.pair first second) (.pair first' second')
  | environment {frame frame' : Frame} (names : frame'.names = frame.names)
    (around : frame'.outer = frame.outer) : Resembles (.environment frame) (.environment frame')
  | closure {params body params' body' : List Ref} {env env' : Option Loc}
    (sameParams : params'.length = params.length) (sameBody : body'.length = body.length)
    (sameEnv : env'.isSome = env.isSome) :
    Resembles (.closure params body env) (.closure params' body' env')

theorem Resembles.exists_pair {first second : Ref} {node : Node}
    (alike : (Node.pair first second).Resembles node) :
    ∃ first' second', node = .pair first' second' := by
  cases alike <;> exact ⟨_, _, rfl⟩

theorem Resembles.exists_frame {frame : Frame} {node : Node}
    (alike : (Node.environment frame).Resembles node) :
    ∃ frame' : Frame, node = .environment frame' ∧ frame'.names = frame.names ∧
      frame'.outer = frame.outer := by
  cases alike with
  | refl => exact ⟨frame, rfl, rfl, rfl⟩
  | environment names around => exact ⟨_, rfl, names, around⟩

theorem Resembles.exists_closure {params body : List Ref} {env : Loc} {node : Node}
    (alike : (Node.closure params body (some env)).Resembles node) :
    ∃ params' body' env', node = .closure params' body' (some env') ∧
      params'.length = params.length ∧ body'.length = body.length := by
  cases alike with
  | refl => exact ⟨params, body, env, rfl, rfl, rfl⟩
  | @closure _ _ params' body' _ env' sameParams sameBody sameEnv =>
    cases env' with
    | none => cases sameEnv
    | some env' => exact ⟨params', body', env', rfl, sameParams, sameBody⟩

end Node

namespace Store

/-- There is a cell for everything that can be reached. -/
def Whole (s : Store) (r : Ref) : Prop := ∀ loc, s.Reaches r (.cell loc) → loc < s.size

/-- In `s'`, the cells from `lo` up to `hi` are copies of what the references lead to in `s`, in
order, and the second list leads to them.  Values of `active` have their copies elsewhere. -/
inductive Unrolls (s s' : Store) : Active → List Ref → List Ref → Nat → Nat → Prop
  | done {active : Active} {n : Nat} : s.Unrolls s' active [] [] n n
  | nil {active : Active} {rs cs : List Ref} {lo hi : Nat}
    (rest : s.Unrolls s' active rs cs lo hi) :
    s.Unrolls s' active (.nil :: rs) (.nil :: cs) lo hi
  | back {active : Active} {loc copy : Loc} {rs cs : List Ref} {lo hi : Nat}
    (under : active[loc]? = some copy) (rest : s.Unrolls s' active rs cs lo hi) :
    s.Unrolls s' active (.cell loc :: rs) (.cell copy :: cs) lo hi
  | cell {active : Active} {loc : Loc} {node node' : Node} {rs cs : List Ref} {lo mid hi : Nat}
    (apart : active[loc]? = none) (found : s.node? (.cell loc) = some node)
    (found' : s'.node? (.cell lo) = some node') (alike : node.Resembles node')
    (parts : s.Unrolls s' (active.insert loc lo) node.parts node'.parts (lo + 1) mid)
    (rest : s.Unrolls s' active rs cs mid hi) :
    s.Unrolls s' active (.cell loc :: rs) (.cell lo :: cs) lo hi

variable {s s' t t' : Store} {active : Active} {r c : Ref} {rs cs rs' cs' : List Ref}
  {lo mid hi : Nat}

theorem Whole.lt_size {loc : Loc} (whole : s.Whole (.cell loc)) : loc < s.size := whole loc .refl

theorem Whole.part {node : Node} (whole : s.Whole r) (found : s.node? r = some node) {r' : Ref}
    (member : r' ∈ node.parts) : s.Whole r' := by
  intro loc path
  exact whole loc (.trans (.step .refl found (node.parts_subset_children member)) path)

/-- It suffices that no cell of the store refers to something missing. -/
theorem whole_cell {root : Loc} (exist : root < s.size)
    (inside : ∀ cell ∈ s.cells, ∀ c ∈ cell.node.children, ∀ loc ∈ c.loc?, loc < s.size) :
    s.Whole (.cell root) := by
  intro loc path
  generalize target : Ref.cell loc = c at path
  induction path with
  | refl =>
    cases target
    exact exist
  | @step r' c node path found child ih =>
    subst target
    obtain ⟨cell, here, rfl⟩ : ∃ cell ∈ s.cells, cell.node = node := by
      cases r' with
      | nil => simp at found
      | cell q =>
        obtain ⟨cell, here, same⟩ := Option.map_eq_some_iff.1 found
        exact ⟨cell, Array.mem_of_getElem? here, same⟩
    exact inside cell here _ child loc rfl

namespace Unrolls

theorem le (unrolls : s.Unrolls t active rs cs lo hi) : lo ≤ hi := by
  induction unrolls <;> omega

theorem length_eq (unrolls : s.Unrolls t active rs cs lo hi) : cs.length = rs.length := by
  induction unrolls <;> simp_all

/-- The cells below are no matter. -/
theorem mono (unrolls : s.Unrolls t active rs cs lo hi)
    (kept : ∀ {q node}, lo ≤ q → t.node? (.cell q) = some node → t'.node? (.cell q) = some node) :
    s.Unrolls t' active rs cs lo hi := by
  induction unrolls with
  | done => exact .done
  | nil _ ih => exact .nil (ih kept)
  | back under _ ih => exact .back under (ih kept)
  | cell apart found found' alike parts _ ihParts ihRest =>
    have := parts.le
    refine .cell apart found (kept (Nat.le_refl _) found') alike (ihParts ?_) (ihRest ?_)
    · intro q node later
      exact kept (by omega)
    · intro q node later
      exact kept (by omega)

theorem extend (unrolls : s.Unrolls t active rs cs lo hi) (extended : t.Extended t') :
    s.Unrolls t' active rs cs lo hi :=
  unrolls.mono fun _ => extended.node?

theorem append (first : s.Unrolls t active rs cs lo mid)
    (second : s.Unrolls t active rs' cs' mid hi) :
    s.Unrolls t active (rs ++ rs') (cs ++ cs') lo hi := by
  induction first with
  | done => exact second
  | nil _ ih => exact .nil (ih second)
  | back under _ ih => exact .back under (ih second)
  | cell apart found found' alike parts _ _ ih =>
    exact .cell apart found found' alike parts (ih second)

/-- Something is copied to something. -/
theorem exists_cell {loc : Loc} (unrolls : s.Unrolls t active (.cell loc :: rs) (c :: cs) lo hi) :
    ∃ copy, c = .cell copy := by
  cases unrolls <;> exact ⟨_, rfl⟩

end Unrolls

end Store

/-! ## Computations that add to a store -/

/-- A computation adds to the store and gives what is asked; with what is `enough` for it, it ends
well, and it stops for nothing but the depth. -/
structure Completes (enough : Prop) {α : Type} (action : StoreM α) (t : Store)
    (post : α → Store → Prop) : Prop where
  ok : ∀ {a t'}, action t = .ok a t' → t.Extended t' ∧ post a t'
  ends : enough → ∃ a t', action t = .ok a t'
  stops : ∀ {fault t'}, action t = .error fault t' → fault = .tooDeep

namespace Completes

variable {enough : Prop} {α β : Type} {action : StoreM α} {t : Store} {post : α → Store → Prop}

theorem of_ok {a : α} {t' : Store} (ended : action t = .ok a t') (extended : t.Extended t')
    (h : post a t') : Completes enough action t post := by
  constructor
  · intro b u ended'
    rw [ended] at ended'
    cases ended'
    exact ⟨extended, h⟩
  · intro _
    exact ⟨a, t', ended⟩
  · intro fault u stopped
    rw [ended] at stopped
    cases stopped

theorem pure {a : α} (h : post a t) : Completes enough (Pure.pure a : StoreM α) t post :=
  .of_ok rfl (.refl t) h

theorem throw (short : ¬enough) :
    Completes enough (MonadExcept.throw .tooDeep : StoreM α) t post := by
  constructor
  · intro a t' ended
    cases ended
  · intro given
    exact absurd given short
  · intro fault t' stopped
    cases stopped
    rfl

theorem bind {next : α → StoreM β} {post' : β → Store → Prop}
    (first : Completes enough action t post)
    (second : ∀ a t', t.Extended t' → post a t' → Completes enough (next a) t' post') :
    Completes enough (action >>= next) t post' := by
  constructor
  · intro b u ended
    obtain ⟨a, t', ended₁, ended₂⟩ := StoreM.exists_of_bind ended
    obtain ⟨extended, asked⟩ := first.ok ended₁
    obtain ⟨extended', asked'⟩ := (second a t' extended asked).ok ended₂
    exact ⟨extended.trans extended', asked'⟩
  · intro given
    obtain ⟨a, t', ended₁⟩ := first.ends given
    obtain ⟨extended, asked⟩ := first.ok ended₁
    obtain ⟨b, u, ended₂⟩ := (second a t' extended asked).ends given
    exact ⟨b, u, (StoreM.bind_ok ended₁ next).trans ended₂⟩
  · intro fault u stopped
    cases ended₁ : action t with
    | error fault' t' =>
      rw [StoreM.bind_error ended₁] at stopped
      cases stopped
      exact first.stops ended₁
    | ok a t' =>
      rw [StoreM.bind_ok ended₁] at stopped
      obtain ⟨extended, asked⟩ := first.ok ended₁
      exact (second a t' extended asked).stops stopped

theorem look {r : Ref} {next : Option Node → StoreM α}
    (h : Completes enough (next (t.node? r)) t post) :
    Completes enough (LittleScheme.look r >>= next) t post :=
  ⟨h.ok, h.ends, h.stops⟩

theorem imp {enough' : Prop} {post' : α → Store → Prop} (h : Completes enough action t post)
    (need : enough' → enough)
    (imp : ∀ {a t'}, t.Extended t' → post a t' → post' a t') :
    Completes enough' action t post' := by
  constructor
  · intro a t' ended
    obtain ⟨extended, asked⟩ := h.ok ended
    exact ⟨extended, imp extended asked⟩
  · intro given
    exact h.ends (need given)
  · exact h.stops

/-- The cell of a copy is written to in the end. -/
theorem construct {blank : Node} {below : Loc → StoreM Node} {post : Node → Store → Prop}
    (inner : Completes enough (below t.size) (t.register blank) post) :
    Completes enough (construct blank below) t fun c t' => c = .cell t.size ∧ ∃ node u,
      (t.register blank).Extended u ∧ post node u ∧ t' = u.write t.size node := by
  constructor
  · intro c t' ended
    obtain ⟨node, u, made, rfl, rfl⟩ := construct_ok ended
    obtain ⟨extended, asked⟩ := inner.ok made
    exact ⟨((t.extended_register blank).trans extended).write (Nat.le_refl _) node, rfl, node, u,
      extended, asked, rfl⟩
  · intro given
    obtain ⟨node, u, made⟩ := inner.ends given
    have ended := StoreM.bind_ok (s := t.register blank) made fun node =>
      overwrite t.size node >>= fun _ => Pure.pure (Ref.cell t.size)
    exact ⟨_, _, ended⟩
  · intro fault t' stopped
    exact inner.stops (construct_error stopped)

end Completes

/-! ## What is copied -/

variable {s t u : Store} {active : Active} {enough : Prop}

/-- `copy` unrolls the value, in every store from `t` on. -/
def CopiesInto (s : Store) (enough : Prop) (active : Active) (t : Store) (copy : Ref → StoreM Ref)
    (r : Ref) : Prop :=
  ∀ t', t.Extended t' →
    Completes enough (copy r) t' fun c u => s.Unrolls u active [r] [c] t'.size u.size

theorem CopiesInto.extend {copy : Ref → StoreM Ref} {r : Ref}
    (copies : CopiesInto s enough active t copy r) {t' : Store} (extended : t.Extended t') :
    CopiesInto s enough active t' copy r :=
  fun u extended' => copies u (extended.trans extended')

theorem copyEach_unrolls {copy : Ref → StoreM Ref} {rs : List Ref}
    (copies : ∀ r ∈ rs, CopiesInto s enough active t copy r) :
    Completes enough (copyEach copy rs) t fun cs u =>
      s.Unrolls u active rs cs t.size u.size := by
  induction rs generalizing t with
  | nil => exact .pure .done
  | cons r rs ih =>
    refine (copies r (by simp) t (.refl t)).bind ?_
    intro c t₁ extended first
    refine (ih fun r' member => (copies r' (by simp [member])).extend extended).bind ?_
    intro cs t₂ extended' rest
    exact .pure ((first.extend extended').append rest)

theorem copyBindings_unrolls {copy : Ref → StoreM Ref} {bindings : List (String × Ref)}
    (copies : ∀ r ∈ bindings.map (·.2), CopiesInto s enough active t copy r) :
    Completes enough (copyBindings copy bindings) t fun bindings' u =>
      bindings'.map (·.1) = bindings.map (·.1) ∧
        s.Unrolls u active (bindings.map (·.2)) (bindings'.map (·.2)) t.size u.size := by
  induction bindings generalizing t with
  | nil => exact .pure ⟨rfl, .done⟩
  | cons binding rest ih =>
    obtain ⟨name, r⟩ := binding
    refine (copies r (by simp) t (.refl t)).bind ?_
    intro c t₁ extended first
    refine (ih fun r' member => (copies r' (by simp_all)).extend extended).bind ?_
    rintro bindings' t₂ extended' ⟨names, values⟩
    exact .pure ⟨by simp [names], (first.extend extended').append values⟩

theorem copyCaptured_unrolls {copy : Ref → StoreM Ref} {env : Option Loc}
    (copies : ∀ r ∈ env.toList.map Ref.cell, CopiesInto s enough active t copy r) :
    Completes enough (copyCaptured copy env) t fun env' u => env'.isSome = env.isSome ∧
      s.Unrolls u active (env.toList.map .cell) (env'.toList.map .cell) t.size u.size := by
  cases env with
  | none => exact .pure ⟨rfl, .done⟩
  | some env =>
    refine (copies (.cell env) (by simp) t (.refl t)).bind ?_
    intro c t₁ extended unrolls
    obtain ⟨copy, rfl⟩ := unrolls.exists_cell
    exact .pure ⟨rfl, unrolls⟩

/-- The copy of a cell comes before the copies of its parts. -/
theorem construct_unrolls {loc : Loc} {node blank : Node} {below : Loc → StoreM Node}
    (apart : active[loc]? = none) (found : s.node? (.cell loc) = some node)
    (inner : Completes enough (below t.size) (t.register blank) fun node' u =>
      node.Resembles node' ∧ s.Unrolls u (active.insert loc t.size) node.parts node'.parts
        (t.register blank).size u.size) :
    Completes enough (construct blank below) t fun c u =>
      s.Unrolls u active [.cell loc] [c] t.size u.size := by
  refine (Completes.construct inner).imp id ?_
  rintro c t' - ⟨rfl, node', u, extended, ⟨alike, parts⟩, rfl⟩
  rw [Store.size_register] at parts
  have exist : t.size < u.size := parts.le
  have written := u.node?_write exist node' (.cell t.size)
  rw [if_pos rfl] at written
  refine .cell apart found written alike (parts.mono ?_) (by simpa using .done)
  intro q node'' later found''
  have other : Ref.cell q ≠ .cell t.size := by
    intro same
    cases same
    omega
  rwa [u.node?_write_of_ne node' other]

/-! ## The copy of a cell -/

section

variable {loc : Loc} {below : Loc → Ref → StoreM Ref}

theorem copyPair_unrolls {below' : Loc → Ref → StoreM Ref} {first second : Ref}
    (apart : active[loc]? = none) (found : s.node? (.cell loc) = some (.pair first second))
    (copies : ∀ {blank}, CopiesInto s enough (active.insert loc t.size) (t.register blank)
      (below t.size) first)
    (copies' : ∀ {blank}, CopiesInto s enough (active.insert loc t.size) (t.register blank)
      (below' t.size) second) :
    Completes enough (copyPair below below' first second) t fun c u =>
      s.Unrolls u active [.cell loc] [c] t.size u.size := by
  rw [copyPair_eq]
  refine construct_unrolls apart found ?_
  refine (copies _ (.refl _)).bind ?_
  intro c t₁ extended₁ unrolls₁
  refine (copies' _ extended₁).bind ?_
  intro c' t₂ extended₂ unrolls₂
  exact .pure ⟨.pair _ _ _ _, (unrolls₁.extend extended₂).append unrolls₂⟩

theorem copyFrame_unrolls {frame : Frame} (apart : active[loc]? = none)
    (found : s.node? (.cell loc) = some (.environment frame))
    (copies : ∀ {blank}, ∀ r ∈ (Node.environment frame).parts,
      CopiesInto s enough (active.insert loc t.size) (t.register blank) (below t.size) r) :
    Completes enough (copyFrame below frame) t fun c u =>
      s.Unrolls u active [.cell loc] [c] t.size u.size := by
  rw [copyFrame_eq]
  refine construct_unrolls apart found ?_
  refine (copyBindings_unrolls copies).bind ?_
  rintro bindings t₁ - ⟨names, values⟩
  exact .pure ⟨.environment names rfl, values⟩

theorem copyClosure_unrolls {params body : List Ref} {env : Option Loc}
    (apart : active[loc]? = none) (found : s.node? (.cell loc) = some (.closure params body env))
    (copies : ∀ {blank}, ∀ r ∈ (Node.closure params body env).parts,
      CopiesInto s enough (active.insert loc t.size) (t.register blank) (below t.size) r) :
    Completes enough (copyClosure below params body env) t fun c u =>
      s.Unrolls u active [.cell loc] [c] t.size u.size := by
  simp only [Node.parts, List.mem_append] at copies
  rw [copyClosure_eq]
  refine construct_unrolls apart found ?_
  simp only [copyParts, bind_assoc, pure_bind]
  refine (copyEach_unrolls fun r member => copies r (.inl (.inl member))).bind ?_
  intro params' t₁ extended₁ unrolls₁
  refine (copyEach_unrolls fun r member =>
    (copies r (.inl (.inr member))).extend extended₁).bind ?_
  intro body' t₂ extended₂ unrolls₂
  refine (copyCaptured_unrolls fun r member =>
    (copies r (.inr member)).extend (extended₁.trans extended₂)).bind ?_
  rintro env' t₃ extended₃ ⟨captured, unrolls₃⟩
  refine .pure ⟨.closure unrolls₁.length_eq unrolls₂.length_eq captured, ?_⟩
  have code := (unrolls₁.extend extended₂).append unrolls₂
  exact (code.extend extended₃).append unrolls₃

/-- What has no parts is made anew. -/
theorem make_unrolls {node : Node} (apart : active[loc]? = none)
    (found : s.node? (.cell loc) = some node) (bare : node.parts = []) :
    Completes enough (make node) t fun c u =>
      s.Unrolls u active [.cell loc] [c] t.size u.size := by
  refine .of_ok rfl (t.extended_register node) ?_
  have made : (t.register node).node? (.cell t.size) = some node := by
    rw [Store.node?_register, if_pos rfl]
  refine .cell apart found made (.refl node) ?_ (by simpa using .done)
  rw [bare]
  exact .done

end

/-! ## Copies of values -/

/-- A path is not longer than there are cells. -/
theorem Active.size_le (known : ∀ loc ∈ active, loc < s.size) : active.size ≤ s.size := by
  have distinct : active.keys.Nodup := by
    apply active.distinct_keys.imp
    intro a b other same
    exact other (by simp [same])
  have within : active.keys ⊆ List.range s.size := by
    intro loc member
    exact List.mem_range.2 (known loc (Std.TreeMap.mem_keys.1 member))
  simpa using (List.subperm_of_subset distinct within).length_le

theorem Active.lt_of_insert (known : ∀ loc ∈ active, loc < s.size) {loc : Loc}
    (exist : loc < s.size) (copy : Loc) : ∀ loc' ∈ active.insert loc copy, loc' < s.size := by
  intro loc' member
  rw [Std.TreeMap.mem_insert, Std.LawfulEqCmp.compare_eq_iff_eq] at member
  rcases member with rfl | before
  · exact exist
  · exact known loc' before

/-- Copies are their originals unrolled.  The values along a path are distinct, so that neither the
fuel nor the depth is used up before the path has gone through all cells. -/
theorem copyFrom_unrolls (fuel depth : Nat) {r : Ref} (extended : s.Extended t) (whole : s.Whole r)
    (known : ∀ loc ∈ active, loc < s.size) :
    Completes (s.size < fuel + active.size ∧ s.size < depth + active.size)
      (copyFrom fuel depth active r) t fun c u =>
        s.Unrolls u active [r] [c] t.size u.size := by
  induction fuel generalizing depth active r t with
  | zero =>
    cases r with
    | nil => exact .pure (.nil .done)
    | cell loc =>
      have := Active.size_le known
      exact .throw (by omega)
  | succ fuel ih =>
    cases r with
    | nil => exact .pure (.nil .done)
    | cell loc =>
      cases depth with
      | zero =>
        have := Active.size_le known
        exact .throw (by omega)
      | succ depth =>
        rw [copyFrom]
        cases apart : active[loc]? with
        | some copy => exact .pure (.back apart .done)
        | none =>
          obtain ⟨node, found⟩ := Store.exists_node? whole.lt_size
          have longer : (active.insert loc t.size).size = active.size + 1 := by
            have : loc ∉ active := by simpa using apart
            simp [Std.TreeMap.size_insert, this]
          have below {depth' : Nat} (le : depth ≤ depth') {blank : Node} :
              ∀ r ∈ node.parts, CopiesInto s
                (s.size < fuel + 1 + active.size ∧ s.size < depth + 1 + active.size)
                (active.insert loc t.size) (t.register blank)
                (copyFrom fuel depth' (active.insert loc t.size)) r := by
            intro r member t' extended'
            refine (ih depth' ((extended.trans (t.extended_register blank)).trans extended')
              (whole.part found member) (Active.lt_of_insert known whole.lt_size _)).imp ?_
              fun _ => id
            rw [longer]
            omega
          refine .look ?_
          rw [extended.node? found]
          cases node with
          | pair first second =>
            exact copyPair_unrolls apart found (below (Nat.le_refl _) first (by simp [Node.parts]))
              (below (Nat.le_succ _) second (by simp [Node.parts]))
          | environment frame => exact copyFrame_unrolls apart found (below (Nat.le_refl _))
          | closure params body env =>
            exact copyClosure_unrolls apart found (below (Nat.le_refl _))
          | integer value => exact make_unrolls apart found rfl
          | boolean value => exact make_unrolls apart found rfl
          | symbol name => exact make_unrolls apart found rfl
          | builtin op => exact make_unrolls apart found rfl

theorem duplicate_unrolls {r : Ref} (whole : s.Whole r) (depth : Nat) :
    Completes (s.size < depth) (duplicate depth r) s fun c s' =>
      s.Unrolls s' ∅ [r] [c] s.size s'.size := by
  have known : ∀ loc ∈ (∅ : Active), loc < s.size := by simp
  have copying := copyFrom_unrolls (s.size + 1) depth (.refl s) whole known
  refine ⟨copying.ok, ?_, copying.stops⟩
  intro enough
  exact copying.ends (by simp [enough])

end LittleScheme
