import LittleScheme.Proofs.Store.Denotation
import LittleScheme.Proofs.Store.Description
import LittleScheme.Proofs.Store.Mirror
import LittleScheme.Proofs.Store.Outward

/-!
# Copies are printed as their originals

Printing and copying cut cycles each in its own way: one keeps the set of the pairs around, and
the other knows the copies that are under way.  Along the pairs, the two cut at the same places.
A copy has a cell of its own for each step into it, so a pair of the copy is around exactly if it
is the copy of a pair that is around in the original.

A scope has no printed form.  The error lists its frames, and a copy has the names of the original
and shares the frames around it, so the lists are the same; if the frames around go round, neither
printing has an end.
-/

namespace LittleScheme

namespace Store

/-- What printing comes to at a scope. -/
def refusal {α : Type} (s : Store) (env : Loc) : Except Fault α :=
  .error (s.objection .cannotPrint (.cell env))

variable {s s' : Store} {n : Nat} {active : Active} {r c : Ref} {path path' : Std.TreeSet Loc}

/-! ## Scopes -/

/-- Nothing is missing around a frame of which nothing is missing. -/
theorem Whole.outer {env outer : Loc} {frame : Frame} (whole : s.Whole (.cell env))
    (found : s.frame? env = some frame) (around : frame.outer = some outer) :
    s.Whole (.cell outer) := by
  intro loc path
  have step : s.Reaches (.cell env) (.cell outer) :=
    .step .refl (frame?_eq_some.1 found) (by simp [Node.children, around])
  exact whole loc (step.trans path)

/-- The way outwards in a larger store was there before. -/
theorem Whole.scopeFrom {env : Loc} (whole : s.Whole (.cell env)) (extended : s.Extended s')
    (n : Nat) : s'.scopeFrom n env = s.scopeFrom n env := by
  induction n generalizing env with
  | zero => rfl
  | succ n ih =>
    have same : s'.frame? env = s.frame? env := by
      rw [frame?, frame?, extended.node?_eq whole.lt_size]
    cases found : s.frame? env with
    | none => rw [scopeFrom_of_none found, scopeFrom_of_none (same.trans found)]
    | some frame =>
      cases around : frame.outer with
      | none => rw [scopeFrom_of_last found around, scopeFrom_of_last (same.trans found) around]
      | some outer =>
        rw [scopeFrom_of_outer found around, scopeFrom_of_outer (same.trans found) around,
          ih (whole.outer found around)]

section Frames

variable {env env' : Loc} {frame frame' : Frame}

/-- Frames with the same frame around them have the same frames around them. -/
theorem Whole.tail_scopeFrom (whole : s.Whole (.cell env)) (extended : s.Extended s')
    (found : s.frame? env = some frame) (found' : s'.frame? env' = some frame')
    (around : frame'.outer = frame.outer) (n : Nat) :
    ∃ chain, s.scopeFrom (n + 1) env = env :: chain ∧ s'.scopeFrom (n + 1) env' = env' :: chain ∧
      ∀ q ∈ chain, s'.frame? q = s.frame? q := by
  cases h : frame.outer with
  | none =>
    exact ⟨[], scopeFrom_of_last found h n, scopeFrom_of_last found' (around.trans h) n, by simp⟩
  | some outer =>
    have whole' := whole.outer found h
    refine ⟨s.scopeFrom n outer, scopeFrom_of_outer found h n, ?_, fun q member => ?_⟩
    · rw [scopeFrom_of_outer found' (around.trans h), whole'.scopeFrom extended]
    · obtain ⟨_, found⟩ := exists_frame_of_mem_scopeFrom member
      exact extended.frame?_eq found

/-- The frames around a copy go round exactly if those around the original do. -/
theorem Whole.isEndless_eq (whole : s.Whole (.cell env)) (extended : s.Extended s')
    (found : s.frame? env = some frame) (found' : s'.frame? env' = some frame')
    (around : frame'.outer = frame.outer) : s'.isEndless env' = s.isEndless env := by
  rw [Bool.eq_iff_iff, isEndless_iff, isEndless_iff]
  refine forall_congr' fun n => ?_
  cases n with
  | zero => simp [Store.scopeFrom]
  | succ n =>
    obtain ⟨chain, same, same', -⟩ := whole.tail_scopeFrom extended found found' around n
    rw [same, same', List.length_cons, List.length_cons]

/-- Frames with the same names and the same frame around them are described alike. -/
theorem Whole.describe_eq (whole : s.Whole (.cell env)) (extended : s.Extended s')
    (found : s.frame? env = some frame) (found' : s'.frame? env' = some frame')
    (names : frame'.names = frame.names) (around : frame'.outer = frame.outer) :
    s'.describe (.cell env') = s.describe (.cell env) := by
  have endless := whole.isEndless_eq extended found found' around
  rw [describe_frame (frame?_eq_some.1 found), describe_frame (frame?_eq_some.1 found'), endless]
  by_cases round : s.isEndless env = true
  · rw [if_pos round, if_pos round]
  · have ends := Bool.eq_false_iff.2 round
    obtain ⟨chain, same, same', frames⟩ :=
      whole.tail_scopeFrom extended found found' around s'.size
    rw [scopeFrom_eq_scope ends (Nat.le_succ_of_le extended.size_le)] at same
    rw [scopeFrom_eq_scope (endless.trans ends) (Nat.le_succ _)] at same'
    have summary : frame'.summary = frame.summary := by
      unfold Frame.summary
      rw [names]
    have summaries : ((s'.scope env').filterMap s'.frame?).map Frame.summary =
        ((s.scope env).filterMap s.frame?).map Frame.summary := by
      rw [same, same', List.filterMap_cons_some found, List.filterMap_cons_some found',
        List.filterMap_congr frames, List.map_cons, List.map_cons, summary]
    rw [if_neg round, if_neg round]
    unfold scopeSummary
    rw [summaries]

/-- A frame is refused as its copy is. -/
theorem Whole.refusal_eq {α : Type} (whole : s.Whole (.cell env)) (extended : s.Extended s')
    (found : s.frame? env = some frame) (found' : s'.frame? env' = some frame')
    (names : frame'.names = frame.names) (around : frame'.outer = frame.outer) :
    (s'.refusal env' : Except Fault α) = s.refusal env := by
  rw [refusal, refusal, objection, objection,
    whole.describe_eq extended found found' names around]

end Frames

/-! ## Pictures -/

/-- The pairs around in the original are those whose copies are under way, and those copies are
around in the copy.  All cells of the copy that are around are older than `n`. -/
structure Around (s s' : Store) (n : Nat) (active : Active) (path path' : Std.TreeSet Loc) :
    Prop where
  path : ∀ loc, loc ∈ path ↔ loc ∈ active
  pair : ∀ {loc copy : Loc}, active[loc]? = some copy →
    ∃ first second, s.node? (.cell loc) = some (.pair first second)
  copy : ∀ {loc copy : Loc}, active[loc]? = some copy →
    copy ∈ path' ∧ ∃ first second, s'.node? (.cell copy) = some (.pair first second)
  older : ∀ q : Nat, q ∈ path' → q < n ∧ q < s'.size

theorem Around.lt_size (around : s.Around s' n active path path') : ∀ loc ∈ path, loc < s.size := by
  intro loc member
  obtain ⟨copy, under⟩ : ∃ copy, active[loc]? = some copy := by
    have := (around.path loc).1 member
    exact ⟨active[loc], Std.TreeMap.getElem?_eq_some_getElem this⟩
  obtain ⟨first, second, found⟩ := around.pair under
  exact Store.lt_size found

theorem Around.lt_size_copy (around : s.Around s' n active path path') :
    ∀ q ∈ path', q < s'.size :=
  fun q member => (around.older q member).2

/-- Below a pair and its copy, the two are around as well. -/
theorem Around.insert (around : s.Around s' n active path path') {loc copy : Loc}
    (new : n ≤ copy) {first second first' second' : Ref}
    (found : s.node? (.cell loc) = some (.pair first second))
    (found' : s'.node? (.cell copy) = some (.pair first' second')) :
    s.Around s' (copy + 1) (active.insert loc copy) (path.insert loc) (path'.insert copy) where
  path q := by
    rw [Std.TreeSet.mem_insert, Std.TreeMap.mem_insert, around.path]
  pair {q copy'} under := by
    rw [Std.TreeMap.getElem?_insert] at under
    split at under
    · rename_i same
      rw [Std.LawfulEqCmp.compare_eq_iff_eq] at same
      exact ⟨first, second, same ▸ found⟩
    · exact around.pair under
  copy {q copy'} under := by
    rw [Std.TreeMap.getElem?_insert] at under
    split at under
    · cases under
      exact ⟨by simp, first', second', found'⟩
    · obtain ⟨member, rest⟩ := around.copy under
      exact ⟨by simp [Std.TreeSet.mem_insert, member], rest⟩
  older q member := by
    rw [Std.TreeSet.mem_insert, Std.LawfulEqCmp.compare_eq_iff_eq] at member
    rcases member with rfl | before
    · exact ⟨Nat.lt_succ_self _, Store.lt_size found'⟩
    · have := around.older q before
      exact ⟨by omega, this.2⟩

-- The induction is on the way in which the copy follows its original.  Along the pairs, nothing
-- but pairs is under way, so a reference back is one to a pair around, on both sides.
theorem Mirrors.pictureFrom (mirrors : s.Mirrors s' n active r c) (extended : s.Extended s')
    (whole : s.Whole r) (around : s.Around s' n active path path') {fuel fuel' : Nat}
    (enough : s.size < fuel + path.size) (enough' : s'.size < fuel' + path'.size) (depth : Nat) :
    s'.pictureFrom fuel' depth path' c = s.pictureFrom fuel depth path r := by
  induction mirrors generalizing path path' fuel fuel' depth with
  | nil => simp [Store.pictureFrom]
  | @back n active loc copy under =>
    obtain ⟨fuel, rfl⟩ := exists_fuel around.lt_size enough
    obtain ⟨fuel', rfl⟩ := exists_fuel around.lt_size_copy enough'
    obtain ⟨first, second, found⟩ := around.pair under
    obtain ⟨member', first', second', found'⟩ := around.copy under
    have member : loc ∈ path := by
      rw [around.path, Std.TreeMap.mem_iff_isSome_getElem?, under]
      rfl
    cases depth with
    | zero => simp [Store.pictureFrom]
    | succ depth => simp [Store.pictureFrom, found, found', member, member']
  | @cell n active loc copy node node' apart new found found' alike parts ih =>
    obtain ⟨fuel, rfl⟩ := exists_fuel around.lt_size enough
    obtain ⟨fuel', rfl⟩ := exists_fuel around.lt_size_copy enough'
    cases depth with
    | zero => simp [Store.pictureFrom]
    | succ depth =>
      cases node with
      | pair first second =>
        obtain ⟨first', second', rfl⟩ := alike.exists_pair
        have fresh : loc ∉ path := by
          rw [around.path]
          simpa using apart
        have fresh' : copy ∉ path' := by
          intro member
          have := (around.older copy member).1
          omega
        have around' := around.insert new found found'
        have longer := size_insert_of_not_mem fresh
        have longer' := size_insert_of_not_mem fresh'
        have below {r c : Ref} (member : (r, c) ∈ (Node.pair first second).parts.zip
            (Node.pair first' second').parts) (depth : Nat) :
            s'.pictureFrom fuel' depth (path'.insert copy) c =
              s.pictureFrom fuel depth (path.insert loc) r := by
          exact ih member (whole.part found (List.of_mem_zip member).1) around' (by omega)
            (by omega) depth
        have left := below (r := first) (c := first') (by simp [Node.parts]) depth
        have right := below (r := second) (c := second') (by simp [Node.parts]) (depth + 1)
        rw [pictureFrom_pair found fresh, pictureFrom_pair found' fresh', left, right]
      | environment frame =>
        obtain ⟨frame', rfl, names, outer⟩ := alike.exists_frame
        have refused : (s'.refusal copy : Except Fault Picture) = s.refusal loc :=
          whole.refusal_eq extended (frame?_eq_some.2 found) (frame?_eq_some.2 found') names outer
        simpa [Store.pictureFrom, refusal, found, found'] using refused
      | closure params body env =>
        cases alike <;> simp [Store.pictureFrom, found, found']
      | integer value | boolean value | symbol name | builtin op =>
        cases alike
        simp [Store.pictureFrom, found, found']

/-- The pairs along a path are distinct, so a path goes down as often as there are cells at most. -/
theorem pictureFrom_ne_tooDeep {fuel depth : Nat} (exist : ∀ loc ∈ path, loc < s.size)
    (enough : s.size < fuel + path.size) (deep : s.size < depth + path.size) (r : Ref) :
    s.pictureFrom fuel depth path r ≠ .error .tooDeep := by
  induction fuel generalizing depth path r with
  | zero =>
    obtain ⟨fuel, h⟩ := exists_fuel exist enough
    cases h
  | succ fuel ih =>
    obtain ⟨depth, rfl⟩ := exists_fuel exist deep
    cases r with
    | nil => simp [pictureFrom]
    | cell loc =>
      cases found : s.node? (.cell loc) with
      | none => simp [pictureFrom, found]
      | some node =>
        cases node with
        | pair first second =>
          by_cases around : loc ∈ path
          · simp [pictureFrom, found, around]
          · have exist' := lt_size_of_insert exist (Store.lt_size found)
            have longer := size_insert_of_not_mem around
            have left := ih exist' (by omega) (by omega : s.size < depth + _) first
            have right := ih exist' (by omega) (by omega : s.size < depth + 1 + _) second
            rw [pictureFrom_pair found around]
            cases h : s.pictureFrom fuel depth (path.insert loc) first with
            | error fault => exact fun stopped => left (h.trans stopped)
            | ok picture =>
              cases h' : s.pictureFrom fuel (depth + 1) (path.insert loc) second with
              | error fault => exact fun stopped => right (h'.trans stopped)
              | ok picture' =>
                intro stopped
                cases stopped
        | environment frame =>
          rw [pictureFrom, found]
          simp only [objection_frame found]
          split <;> simp
        | integer _ | boolean _ | symbol _ | builtin _ | closure _ _ _ =>
          simp [pictureFrom, found]

theorem render_ne_tooDeep {depth : Nat} (deep : s.size < depth) (r : Ref) :
    s.render depth r ≠ .error .tooDeep := by
  have drawn : s.picture depth r ≠ .error .tooDeep :=
    pictureFrom_ne_tooDeep (by simp) (by simp) (by simpa using deep) r
  rw [render]
  cases h : s.picture depth r with
  | ok picture => simp [Except.map]
  | error fault =>
    intro stopped
    cases stopped
    exact drawn h

end Store

/-! ## Printed values -/

/-- `duplicate` makes a copy of a value, whatever cycles it has, and `render` shows the copy as it
shows the value: by the same text, or by the same error if a scope is met, or without end if the
frames around that scope go round. -/
theorem render_duplicate {s : Store} {r : Ref} (whole : s.Whole r) :
    (∀ depth, s.size < depth →
      (∃ c s', duplicate depth r s = .ok c s') ∧ s.render depth r ≠ .error .tooDeep) ∧
    ∀ depth c s', duplicate depth r s = .ok c s' →
      ∀ depth', s'.render depth' c = s.render depth' r := by
  refine ⟨fun depth deep => ⟨?_, Store.render_ne_tooDeep deep r⟩, ?_⟩
  · exact (duplicate_completes whole depth).ends deep
  · intro depth c s' copied depth'
    obtain ⟨extended, mirrors⟩ := (duplicate_completes whole depth).ok copied
    have around : s.Around s' s.size ∅ ∅ ∅ := by
      constructor <;> simp
    have enough (t : Store) : t.size < t.size + 1 + (∅ : Std.TreeSet Loc).size := by simp
    rw [Store.render, Store.picture, Store.render, Store.picture,
      mirrors.pictureFrom extended whole around (enough s) (enough s') depth']

/-- A pair that is its own second field is printed with a mark in its place, and so is the copy. -/
theorem render_duplicate_ring :
    let s : Store := { cells := #[{ node := .integer 1 }, { node := .pair (.cell 0) (.cell 1) }] }
    ∃ c s', duplicate 3 (.cell 1) s = .ok c s' ∧
      s'.render 3 c = .ok "(1 . \x7bselfref\x7d)" := by
  intro s
  have whole : s.Whole (.cell 1) := by
    have closed : ∀ r, s.Reaches (.cell 1) r → r = .cell 0 ∨ r = .cell 1 := by
      intro r path
      induction path with
      | refl => exact .inr rfl
      | step _ found child ih =>
        rcases ih with rfl | rfl
        · cases found
          simp [s, Node.children] at child
        · cases found
          simpa [s, Node.children] using child
    intro loc path
    rcases closed _ path with h | h <;> cases h <;> decide
  have shown : s.render 3 (.cell 1) = .ok "(1 . \x7bselfref\x7d)" := by decide +kernel
  obtain ⟨c, s', copied⟩ := ((render_duplicate whole).1 3 (by decide)).1
  refine ⟨c, s', copied, ?_⟩
  rw [(render_duplicate whole).2 3 c s' copied 3, shown]

end LittleScheme
