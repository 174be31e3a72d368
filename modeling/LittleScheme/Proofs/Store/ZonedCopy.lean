import LittleScheme.Proofs.Store.Zones

/-!
# Copying zone by zone

A copy of data is made of new data, and a copy of code stands for what the code stands for, by new
cells.  This holds of all procedures that are copied on the way.

A copy that fails leaves new cells behind that are no data (`Zones.Adds.abandon`).  Some of them may
be procedures that were complete; their code is code all the same, and their frames are captured.
-/

namespace LittleScheme

/-! ## The copy of a cell -/

/-- Make a cell, find out what it is to hold, and write it there. -/
def construct (blank : Node) (below : Loc → StoreM Node) : StoreM Ref := do
  let copy ← allocate blank
  let node ← below copy
  overwrite copy node
  return .cell copy

theorem construct_ok {blank : Node} {below : Loc → StoreM Node} {s s' : Store} {c : Ref}
    (ended : construct blank below s = .ok c s') :
    ∃ node u, below s.size (s.register blank) = .ok node u ∧ c = .cell s.size ∧
      s' = u.write s.size node := by
  obtain ⟨node, u, made, rest⟩ := StoreM.exists_of_bind (s := s.register blank) ended
  cases rest
  exact ⟨node, u, made, rfl, rfl⟩

theorem construct_error {blank : Node} {below : Loc → StoreM Node} {s s' : Store} {fault : Fault}
    (ended : construct blank below s = .error fault s') :
    below s.size (s.register blank) = .error fault s' := by
  have unfolded : construct blank below s = (below s.size >>= fun node =>
      overwrite s.size node >>= fun _ => pure (.cell s.size)) (s.register blank) := rfl
  rw [unfolded] at ended
  cases made : below s.size (s.register blank) with
  | error fault' u =>
    rw [StoreM.bind_error made] at ended
    cases ended
    rfl
  | ok node u =>
    rw [StoreM.bind_ok made] at ended
    cases ended

theorem copyPair_eq (copyFirst copySecond : Loc → Ref → StoreM Ref) (first second : Ref) :
    copyPair copyFirst copySecond first second = construct (.pair .nil .nil) fun copy => do
      let first ← copyFirst copy first
      let second ← copySecond copy second
      return .pair first second := by
  simp [copyPair, construct, bind_assoc]

theorem copyFrame_eq (copyBelow : Loc → Ref → StoreM Ref) (frame : Frame) :
    copyFrame copyBelow frame =
      construct (.environment { frame with bindings := [] }) fun copy => do
        let bindings ← copyBindings (copyBelow copy) frame.bindings
        return .environment { frame with bindings } := by
  simp [copyFrame, construct]

/-- Copy the parameters and the body of a procedure. -/
def copyParts (copy : Ref → StoreM Ref) (params body : List Ref) :
    StoreM (List Ref × List Ref) := do
  let params ← copyEach copy params
  let body ← copyEach copy body
  return (params, body)

theorem copyClosure_eq (copyBelow : Loc → Ref → StoreM Ref) (params body : List Ref)
    (env : Option Loc) :
    copyClosure copyBelow params body env = construct (.closure [] [] none) fun copy => do
      let code ← copyParts (copyBelow copy) params body
      let env ← copyCaptured (copyBelow copy) env
      return .closure code.1 code.2 env := by
  simp [copyClosure, construct, copyParts, bind_assoc]

/-- From `s` on, no procedure is left without a captured frame. -/
def Store.Settled (s s' : Store) : Prop :=
  ∀ q, s.size ≤ q → ∀ params body, s'.node? (.cell q) ≠ some (.closure params body none)

theorem Store.Settled.trans {s s' s'' : Store} (first : s.Settled s') (second : s'.Settled s'')
    (extended : s'.Extended s'') : s.Settled s'' := by
  intro q new params body found
  by_cases early : q < s'.size
  · exact first q new params body (extended.node?_eq early ▸ found)
  · exact second q (Nat.not_lt.1 early) params body found

theorem Store.settled_refl (s : Store) : s.Settled s := by
  intro q new params body found
  rw [s.node?_eq_none new] at found
  cases found

namespace Zones

/-- From `s`, a computation adds cells, some of them assigned to zones; if it ends well, no
procedure is left incomplete, and its result is as asked. -/
structure Adds (z : Zones) (s : Store) {α : Type} (action : StoreM α)
    (post : α → Zones → Store → Prop) : Prop where
  ok : ∀ {a s'}, action s = .ok a s' → ∃ z', z.Grows s z' s' ∧ s.Settled s' ∧ post a z' s'
  error : ∀ {fault s'}, action s = .error fault s' → fault = .tooDeep ∧ ∃ z', z.Grows s z' s'

variable {z z₁ : Zones} {s : Store} {α β : Type} {post : α → Zones → Store → Prop}

theorem Adds.of_ok {action : StoreM α} {a : α} {s' : Store} (ended : action s = .ok a s')
    (grows : z.Grows s z₁ s') (settled : s.Settled s') (h : post a z₁ s') :
    z.Adds s action post := by
  constructor
  · intro b s'' ended'
    rw [ended] at ended'
    cases ended'
    exact ⟨z₁, grows, settled, h⟩
  · intro fault s'' ended'
    rw [ended] at ended'
    cases ended'

theorem Adds.pure {a : α} (fits : z.Fits s) (h : post a z s) :
    z.Adds s (Pure.pure a : StoreM α) post :=
  .of_ok rfl (.refl fits) s.settled_refl h

theorem Adds.throw (fits : z.Fits s) : z.Adds s (MonadExcept.throw .tooDeep : StoreM α) post := by
  constructor
  · intro b s' ended
    cases ended
  · intro fault s' ended
    cases ended
    exact ⟨rfl, z, .refl fits⟩

theorem Adds.bind {action : StoreM α} {next : α → StoreM β} {post' : β → Zones → Store → Prop}
    (first : z.Adds s action post)
    (second : ∀ a z' s', z.Grows s z' s' → post a z' s' → z'.Adds s' (next a) post') :
    z.Adds s (action >>= next) post' := by
  cases h : action s with
  | error fault s' =>
    have ended := StoreM.bind_error h next
    constructor
    · intro b s'' ended'
      rw [ended] at ended'
      cases ended'
    · intro fault' s'' ended'
      rw [ended] at ended'
      cases ended'
      exact first.error h
  | ok a s' =>
    have ended := StoreM.bind_ok h next
    obtain ⟨z', grows, settled, asked⟩ := first.ok h
    have rest := second a z' s' grows asked
    constructor
    · intro b s'' ended'
      obtain ⟨z'', grows', settled', asked'⟩ := rest.ok (ended.symm.trans ended')
      exact ⟨z'', grows.trans grows', settled.trans settled' grows'.extended, asked'⟩
    · intro fault s'' ended'
      obtain ⟨deep, z'', grows'⟩ := rest.error (ended.symm.trans ended')
      exact ⟨deep, z'', grows.trans grows'⟩

/-- What is new can be assigned to zones when everything is done. -/
theorem Adds.assign {action : StoreM α} {post' : α → Zones → Store → Prop}
    (adds : z.Adds s action post)
    (assigned : ∀ a z' s', z.Grows s z' s' → post a z' s' →
      ∃ z'', z.Grows s z'' s' ∧ post' a z'' s') : z.Adds s action post' := by
  refine ⟨fun ended => ?_, adds.error⟩
  obtain ⟨z', grows, settled, asked⟩ := adds.ok ended
  obtain ⟨z'', grows', asked'⟩ := assigned _ _ _ grows asked
  exact ⟨z'', grows', settled, asked'⟩

theorem Adds.imp {action : StoreM α} {post' : α → Zones → Store → Prop}
    (adds : z.Adds s action post)
    (imp : ∀ a z' s', z.Grows s z' s' → post a z' s' → post' a z' s') : z.Adds s action post' :=
  adds.assign fun a z' s' grows asked => ⟨z', grows, imp a z' s' grows asked⟩

theorem Adds.look {r : Ref} {next : Option Node → StoreM α}
    (h : z.Adds s (next (s.node? r)) post) : z.Adds s (LittleScheme.look r >>= next) post :=
  ⟨h.ok, h.error⟩

/-- The cell of a copy is assigned to a zone at once, or to none, and written to in the end. -/
theorem Adds.construct {blank : Node} {below : Loc → StoreM Node}
    (post : Node → Zones → Store → Prop) (grown : z.Grows s z₁ (s.register blank))
    (free : s.size ∉ z₁.code)
    (inner : z₁.Adds (s.register blank) (below s.size) fun node z' u =>
      (z'.Accepts u s.size node ∧ ∀ params body, node ≠ .closure params body none) ∧
        post node z' u) :
    z.Adds s (construct blank below) fun c z' s' => c = .cell s.size ∧ ∃ node u,
      s' = u.write s.size node ∧ z₁.Grows (s.register blank) z' u ∧ post node z' u := by
  refine ⟨fun ended => ?_, fun ended => ?_⟩
  · obtain ⟨node, u, made, rfl, rfl⟩ := construct_ok ended
    obtain ⟨z', grows, settled, ⟨accepts, whole⟩, asked⟩ := inner.ok made
    have size := grows.extended.size_le
    rw [Store.size_register] at size
    have exist : s.size < u.size := size
    have free' : s.size ∉ z'.code := by
      intro member
      rcases grows.newCode _ member with old | new
      · exact free old
      · rw [Store.size_register] at new
        omega
    refine ⟨z', ⟨grows.fits.write exist free' accepts,
      (grown.extended.trans grows.extended).write (Nat.le_refl _) node,
      grown.data.trans grows.data, grown.code.trans grows.code, grows.frames.trans grown.frames,
      grown.captured.trans grows.captured, grows.root.trans grown.root, (grown.trans grows).newData,
      (grown.trans grows).newCode⟩, ?_, rfl, node, u, rfl, grows, asked⟩
    intro q new params body found
    rw [u.node?_write exist] at found
    split at found
    · exact whole params body (Option.some.inj found)
    · rename_i other
      have later : s.size ≠ q := fun eq => other (by rw [eq])
      refine settled q ?_ params body found
      rw [Store.size_register]
      omega
  · obtain ⟨deep, z', grows⟩ := inner.error (construct_error ended)
    exact ⟨deep, z', grown.trans grows⟩

/-! ## New cells -/

theorem Fits.grows_register {node : Node} (fits : z.Fits s)
    (procedure : ∀ params body env, node = .closure params body (some env) →
      z.Procedure s params body env) :
    z.Grows s z (s.register node) :=
  ⟨fits.register procedure, s.extended_register node, fun _ => id, fun _ => id, rfl, fun _ => id,
    rfl, fun _ => .inl, fun _ => .inl⟩

/-- The next cell belongs to no zone. -/
theorem Fits.size_not_mem (fits : z.Fits s) {q : Loc} (new : s.size ≤ q) :
    q ∉ z.data ∧ q ∉ z.code ∧ q ∉ z.frames ∧ q ∉ z.captured :=
  ⟨fun member => Nat.not_lt.2 new (fits.lt_of_data member),
    fun member => Nat.not_lt.2 new (fits.lt_of_code member),
    fun member => Nat.not_lt.2 new (fits.lt_of_frame member),
    fun member => Nat.not_lt.2 new (fits.lt_of_captured member)⟩

/-- A new cell can be assigned to the data. -/
theorem Fits.grows_data (node : Node) (fits : z.Fits s) (admits : z.Admits node)
    (procedure : ∀ params body env, node = .closure params body (some env) →
      z.Procedure s params body env) :
    z.Grows s { z with data := z.data ∪ {s.size} } (s.register node) := by
  have new := fits.size_not_mem (Nat.le_refl s.size)
  have fits' : Fits { z with data := z.data ∪ {s.size} } (s.register node) := by
    refine (fits.register procedure).addData ?_ ?_
    · rintro q rfl
      exact ⟨node, by rw [Store.node?_register, if_pos rfl],
        admits.mono Set.subset_union_left⟩
    · rintro q rfl
      exact new.2.1
  exact ⟨fits', s.extended_register node, Set.subset_union_left, fun _ => id, rfl, fun _ => id, rfl,
    fun q member => member.imp_right fun eq => Nat.le_of_eq eq.symm, fun _ => .inl⟩

theorem frame?_register (s : Store) (frame : Frame) :
    (s.register (.environment frame)).frame? s.size = some frame := by
  rw [Store.frame?_eq_some, Store.node?_register, if_pos rfl]

/-- A new frame can be assigned to the frames. -/
theorem Fits.registerFrame (fits : z.Fits s) (frame : Frame) (scopes : z.Scopes s.size frame) :
    Fits { z with frames := insert s.size z.frames } (s.register (.environment frame)) := by
  have new := fits.size_not_mem (Nat.le_refl s.size)
  have fits' : z.Fits (s.register (.environment frame)) := fits.register (by simp)
  exact fits'.addFrame (frame?_register s frame) new.2.2.2 scopes

/-- A new frame can be assigned to the captured ones. -/
theorem Fits.grows_captured (fits : z.Fits s) (frame : Frame) (encloses : z.Encloses s.size frame) :
    z.Grows s { z with captured := insert s.size z.captured }
      (s.register (.environment frame)) := by
  have new := fits.size_not_mem (Nat.le_refl s.size)
  have fits' : z.Fits (s.register (.environment frame)) := fits.register (by simp)
  exact ⟨fits'.addCaptured (frame?_register s frame) new.2.2.1 encloses, s.extended_register _,
    fun _ => id, fun _ => id, rfl, Set.subset_insert _ _, rfl, fun _ => .inl, fun _ => .inl⟩

/-- Some of the cells that were added can be assigned to the code. -/
theorem Grows.addCode {z' : Zones} {s' : Store} (grows : z.Grows s z' s') (new : Set Loc)
    (expr : ∀ q ∈ new, ∃ node, s'.node? (.cell q) = some node ∧ node.isCode = true)
    (apart : ∀ q ∈ new, q ∉ z'.data) (added : ∀ q ∈ new, s.size ≤ q) :
    z.Grows s { z' with code := z'.code ∪ new } s' :=
  { grows with fits := grows.fits.addCode expr apart
               code := grows.code.trans Set.subset_union_left
               newCode := fun q member => member.elim (grows.newCode q) fun h => .inr (added q h) }

/-- What is complete can be made, and left to none of the zones. -/
theorem Adds.make {node : Node} (fits : z.Fits s)
    (procedure : ∀ params body env, node = .closure params body (some env) →
      z.Procedure s params body env) (whole : ∀ params body, node ≠ .closure params body none) :
    z.Adds s (LittleScheme.make node) fun c z' s' =>
      z' = z ∧ c = .cell s.size ∧ s' = s.register node := by
  refine .of_ok rfl (fits.grows_register procedure) ?_ ⟨rfl, rfl, rfl⟩
  intro q new params body found
  rw [Store.node?_register] at found
  split at found
  · exact whole _ _ (Option.some.inj found)
  · rw [s.node?_eq_none new] at found
    cases found

/-- What is complete can be made, and added to the data. -/
theorem Adds.makeData (node : Node) (fits : z.Fits s) (admits : z.Admits node)
    (procedure : ∀ params body env, node = .closure params body (some env) →
      z.Procedure s params body env) (whole : ∀ params body, node ≠ .closure params body none) :
    z.Adds s (LittleScheme.make node) fun c z' _ => z'.Value c := by
  refine (Adds.make fits procedure whole).assign ?_
  rintro c _ s' - ⟨rfl, rfl, rfl⟩
  refine ⟨_, fits.grows_data node admits procedure, ?_⟩
  rintro q ⟨⟩
  exact .inr rfl

/-- A new frame for a procedure to capture. -/
theorem Adds.makeCaptured {frame : Frame} (fits : z.Fits s) (encloses : z.Encloses s.size frame) :
    z.Adds s (allocate (.environment frame)) fun loc z' _ => loc ∈ z'.captured := by
  refine .of_ok rfl (fits.grows_captured frame encloses) ?_ (.inl rfl)
  intro q new params body found
  rw [Store.node?_register] at found
  split at found
  · cases found
  · rw [s.node?_eq_none new] at found
    cases found

/-! ## Code -/

/-- The result stands for the datum, by new cells. -/
def Transcribes (z : Zones) (s : Store) (d : Datum) (c : Ref) (z' : Zones) (s' : Store) : Prop :=
  z' = z ∧ ∃ cells, s'.Laid c d cells ∧ cells.Nodup ∧ ∀ q ∈ cells, s.size ≤ q

/-- The results stand for the data, by new cells. -/
def TranscribesAll (z : Zones) (s : Store) (ds : List Datum) (cs : List Ref) (z' : Zones)
    (s' : Store) : Prop :=
  z' = z ∧ ∃ cells, s'.LaidAll cs ds cells ∧ cells.Nodup ∧ ∀ q ∈ cells, s.size ≤ q

theorem nodup_append_new {cells cells' : List Loc} {n : Nat} (distinct : cells.Nodup)
    (old : ∀ q ∈ cells, q < n) (distinct' : cells'.Nodup) (new : ∀ q ∈ cells', n ≤ q) :
    (cells ++ cells').Nodup := by
  refine List.nodup_append.2 ⟨distinct, distinct', ?_⟩
  rintro q member _ member' rfl
  exact absurd (old q member) (Nat.not_lt.2 (new q member'))

theorem Adds.makeAtom (fits : z.Fits s) (a : Atom) :
    z.Adds s (LittleScheme.make a.node) (z.Transcribes s (.leaf a)) := by
  refine (Adds.make fits (by cases a <;> simp [Atom.node]) (by cases a <;> simp [Atom.node])).imp ?_
  rintro c z' s' - ⟨rfl, rfl, rfl⟩
  refine ⟨rfl, [s.size], .leaf ?_, by simp, by simp⟩
  rw [Store.node?_register, if_pos rfl]

/-- How one piece of code is copied, if none of its cells is under way. -/
def CopiesCode (z : Zones) (copy : Active → Ref → StoreM Ref) (d : Datum) : Prop :=
  ∀ {s : Store} {r : Ref} {cells : List Loc} {active : Active}, z.Fits s → s.Laid r d cells →
    cells.Nodup → (∀ c ∈ cells, active[c]? = none) → z.Adds s (copy active r) (z.Transcribes s d)

theorem copyCodePair {copy copy' : Active → Ref → StoreM Ref} {loc : Loc} {first second : Ref}
    {d e : Datum} {cells cells' : List Loc} {active : Active} (fits : z.Fits s)
    (left : s.Laid first d cells) (right : s.Laid second e cells')
    (distinct : (cells ++ cells' ++ [loc]).Nodup)
    (apart : ∀ c ∈ cells ++ cells' ++ [loc], active[c]? = none) (copies : z.CopiesCode copy d)
    (copies' : z.CopiesCode copy' e) :
    z.Adds s (copyPair (fun c => copy (active.insert loc c)) (fun c => copy' (active.insert loc c))
      first second) (z.Transcribes s (.pair d e)) := by
  obtain ⟨below, -, above⟩ := List.nodup_append.1 distinct
  obtain ⟨distinct₁, distinct₂, -⟩ := List.nodup_append.1 below
  have free (c : Loc) (member : c ∈ cells ++ cells') : (active.insert loc s.size)[c]? = none := by
    have other : loc ≠ c := (above c member loc (by simp)).symm
    rw [Std.TreeMap.getElem?_insert, if_neg (by simpa using other)]
    exact apart c (List.mem_append_left _ member)
  have grown : z.Grows s z (s.register (.pair .nil .nil)) := fits.grows_register (by simp)
  have nowhere := fits.size_not_mem (Nat.le_refl s.size)
  have inner : z.Adds (s.register (.pair .nil .nil)) (do
      let a ← copy (active.insert loc s.size) first
      let b ← copy' (active.insert loc s.size) second
      return .pair a b) fun node z' u =>
        (z'.Accepts u s.size node ∧ ∀ params body, node ≠ .closure params body none) ∧
          z' = z ∧ ∃ a b cells₁ cells₂, node = .pair a b ∧ u.Laid a d cells₁ ∧ u.Laid b e cells₂ ∧
            (cells₁ ++ cells₂).Nodup ∧ ∀ q ∈ cells₁ ++ cells₂, s.size < q := by
    refine (copies grown.fits (left.mono grown.extended.node?) distinct₁
      fun c member => free c (by simp [member])).bind ?_
    rintro a _ s₂ grows₂ ⟨rfl, cells₁, laid₁, distinct₁, new₁⟩
    have grown₂ := grown.trans grows₂
    refine (copies' grows₂.fits (right.mono grown₂.extended.node?) distinct₂
      fun c member => free c (by simp [member])).bind ?_
    rintro b _ s₃ grows₃ ⟨rfl, cells₂, laid₂, distinct₂, new₂⟩
    rw [Store.size_register] at new₁
    have lower := grown₂.extended.size_le
    refine .pure grows₃.fits ⟨⟨⟨fun inside => absurd inside nowhere.1,
      fun inside => absurd inside nowhere.2.2.1,
      fun inside => absurd inside nowhere.2.2.2, by simp⟩, by simp⟩, rfl, a, b, cells₁, cells₂, rfl,
      laid₁.mono grows₃.extended.node?, laid₂, ?_, ?_⟩
    · exact nodup_append_new distinct₁ (fun _ => laid₁.lt_size) distinct₂ new₂
    · intro q member
      rcases List.mem_append.1 member with here | there
      · exact new₁ q here
      · have := new₂ q there
        have := grows₂.extended.size_le
        rw [Store.size_register] at this
        omega
  rw [copyPair_eq]
  refine (Adds.construct _ grown nowhere.2.1 inner).imp ?_
  rintro c _ s' -
    ⟨rfl, node, u, rfl, grows, rfl, a, b, cells₁, cells₂, rfl, laid₁, laid₂, distinct', new⟩
  have exist : s.size < u.size := by
    have := grows.extended.size_le
    rwa [Store.size_register] at this
  have written := laid₁.writePair laid₂ exist fun q member => Nat.ne_of_gt (new q member)
  refine ⟨rfl, _, written, ?_, ?_⟩
  · refine List.nodup_append.2 ⟨distinct', by simp, ?_⟩
    rintro q member _ last rfl
    have := new q member
    rw [List.mem_singleton.1 last] at this
    exact Nat.lt_irrefl _ this
  · intro q member
    rcases List.mem_append.1 member with below | last
    · exact Nat.le_of_lt (new q below)
    · exact Nat.le_of_eq (List.mem_singleton.1 last).symm

/-- A copy of code stands for what the code stands for.  None of the cells on the way is met again
below itself, since no cell of the code is used twice. -/
theorem copyCode {r : Ref} {d : Datum} {cells : List Loc} (fits : z.Fits s)
    (laid : s.Laid r d cells) (distinct : cells.Nodup) {active : Active}
    (apart : ∀ c ∈ cells, active[c]? = none) (fuel depth : Nat) :
    z.Adds s (LittleScheme.copyFrom fuel depth active r) (z.Transcribes s d) := by
  induction d generalizing s r cells active fuel depth with
  | nil =>
    cases laid
    rw [LittleScheme.copyFrom]
    exact .pure fits ⟨rfl, [], .nil, by simp, by simp⟩
  | leaf a =>
    cases laid with
    | @leaf loc _ found =>
      cases fuel with
      | zero => exact .throw fits
      | succ fuel =>
        cases depth with
        | zero => exact .throw fits
        | succ depth =>
          rw [LittleScheme.copyFrom, apart loc (by simp)]
          refine .look ?_
          have made := Adds.makeAtom fits a
          rw [found]
          cases a <;> exact made
  | pair d e ihFirst ihSecond =>
    cases laid with
    | @pair loc first second _ _ cells₁ cells₂ found left right =>
      cases fuel with
      | zero => exact .throw fits
      | succ fuel =>
        cases depth with
        | zero => exact .throw fits
        | succ depth =>
          rw [LittleScheme.copyFrom, apart loc (by simp)]
          refine .look ?_
          rw [found]
          exact copyCodePair fits left right distinct apart
            (fun fits laid distinct apart => ihFirst fits laid distinct apart _ _)
            fun fits laid distinct apart => ihSecond fits laid distinct apart _ _

/-- Code that is made of certain cells is copied. -/
def Copying (z : Zones) (code : Set Loc) (copy : Ref → StoreM Ref) : Prop :=
  ∀ {s : Store} {r : Ref} {d : Datum} {cells : List Loc}, z.Fits s → s.Laid r d cells →
    cells.Nodup → (∀ c ∈ cells, c ∈ code) → z.Adds s (copy r) (z.Transcribes s d)

theorem copying {code : Set Loc} {active : Active} (apart : ∀ c ∈ code, active[c]? = none)
    (fuel depth : Nat) : z.Copying code (LittleScheme.copyFrom fuel depth active) := by
  intro s r d cells fits laid distinct inside
  exact copyCode fits laid distinct (fun c member => apart c (inside c member)) fuel depth

/-- Pieces of code are copied one after the other. -/
theorem copyEachCode {code : Set Loc} {copy : Ref → StoreM Ref} (one : z.Copying code copy)
    {rs : List Ref} {ds : List Datum} {cells : List Loc} (fits : z.Fits s)
    (laid : s.LaidAll rs ds cells) (distinct : cells.Nodup) (inside : ∀ c ∈ cells, c ∈ code) :
    z.Adds s (LittleScheme.copyEach copy rs) (z.TranscribesAll s ds) := by
  induction rs generalizing s ds cells with
  | nil =>
    cases laid
    exact .pure fits ⟨rfl, [], .nil, by simp, by simp⟩
  | cons r rs ih =>
    cases laid with
    | cons first rest =>
      obtain ⟨distinct₁, distinct₂, -⟩ := List.nodup_append.1 distinct
      refine (one fits first distinct₁ fun c member => inside c (by simp [member])).bind ?_
      rintro c _ s₁ grows₁ ⟨rfl, cells₁, laid₁, distinct₁, new₁⟩
      refine (ih grows₁.fits (rest.extend grows₁.extended) distinct₂
        fun c member => inside c (by simp [member])).bind ?_
      rintro cs _ s₂ grows₂ ⟨rfl, cells₂, laid₂, distinct₂, new₂⟩
      refine .pure grows₂.fits ⟨rfl, cells₁ ++ cells₂,
        .cons (laid₁.mono grows₂.extended.node?) laid₂,
        nodup_append_new distinct₁ (fun _ => laid₁.lt_size) distinct₂ new₂, ?_⟩
      intro q member
      rcases List.mem_append.1 member with here | there
      · exact new₁ q here
      · exact Nat.le_trans grows₁.extended.size_le (new₂ q there)

/-- The copy of the code of a procedure becomes code itself. -/
theorem copyCoded {code : Set Loc} {copy : Ref → StoreM Ref} (one : z.Copying code copy)
    {params body : List Ref} (fits : z.Fits s) (coded : s.Coded code params body) :
    z.Adds s (copyParts copy params body) fun copies z' s' =>
        s'.Coded z'.code copies.1 copies.2 ∧ copies.1.length = params.length ∧
          ∃ ds cells cells', s.LaidAll (params ++ body) ds cells ∧
            s'.LaidAll (copies.1 ++ copies.2) ds cells' := by
  obtain ⟨names, nonempty, ds, cells, laid, distinct, inside⟩ := coded
  obtain ⟨ds₁, ds₂, cells₁, cells₂, left, right, rfl, rfl⟩ := laid.of_append
  obtain ⟨distinct₁, distinct₂, -⟩ := List.nodup_append.1 distinct
  have copied : z.Adds s (copyParts copy params body) fun copies z' s' =>
        (∀ r ∈ copies.1, (s'.symbolName? r).isSome) ∧ copies.2 ≠ [] ∧
          copies.1.length = params.length ∧
            z.TranscribesAll s (ds₁ ++ ds₂) (copies.1 ++ copies.2) z' s' := by
    refine (copyEachCode one fits left distinct₁
      fun c member => inside c (by simp [member])).bind ?_
    rintro params' _ s₁ grows₁ ⟨rfl, cells₁', left', distinct₁', new₁⟩
    refine (copyEachCode one grows₁.fits (right.extend grows₁.extended) distinct₂
      fun c member => inside c (by simp [member])).bind ?_
    rintro body' _ s₂ grows₂ ⟨rfl, cells₂', right', distinct₂', new₂⟩
    have left₂ := left'.extend grows₂.extended
    refine .pure grows₂.fits ⟨left₂.names_iff.2 (left.names_iff.1 names), ?_,
      left'.length_eq.trans left.length_eq.symm, rfl, cells₁' ++ cells₂', left₂.append right',
      nodup_append_new distinct₁' (fun _ => left'.lt_size) distinct₂' new₂, ?_⟩
    · rintro rfl
      exact nonempty (List.length_eq_zero_iff.1 (right.length_eq.trans right'.length_eq.symm))
    · intro q member
      rcases List.mem_append.1 member with here | there
      · exact new₁ q here
      · exact Nat.le_trans grows₁.extended.size_le (new₂ q there)
  refine copied.assign ?_
  rintro copies _ s' grows ⟨names', nonempty', length, rfl, cells, laid', distinct', new⟩
  refine ⟨_, grows.addCode {q | q ∈ cells} (fun q => laid'.isCode) (fun q member => ?_)
    new, ⟨names', nonempty', _, cells, laid', distinct', fun q member => .inr member⟩, length, _,
    _, _, laid, laid'⟩
  exact fun inside => absurd (fits.lt_of_data inside) (Nat.not_lt.2 (new q member))

/-! ## Data -/

/-- No procedure among the data is incomplete. -/
def Whole (z : Zones) (s : Store) : Prop :=
  ∀ q ∈ z.data, ∀ params body, s.node? (.cell q) ≠ some (.closure params body none)

/-- A procedure among the data has code, and has captured a frame. -/
theorem Fits.complete {r : Ref} {params body : List Ref} {captured : Option Loc} (fits : z.Fits s)
    (whole : z.Whole s) (value : z.Value r)
    (found : s.node? r = some (.closure params body captured)) :
    s.Coded z.code params body ∧ ∃ env ∈ z.captured, captured = some env := by
  cases r with
  | nil => cases found
  | cell q =>
    cases captured with
    | none => exact absurd found (whole q (value q rfl) params body)
    | some env =>
      obtain ⟨coded, captured⟩ := fits.procedure found
      exact ⟨coded, env, captured, rfl⟩

/-- A copy of data is data, and the copy of a captured frame is one to be captured. -/
structure Copies (z₀ : Zones) (r c : Ref) (z : Zones) : Prop where
  value : z₀.Value r → z.Value c
  captured : ∀ q ∈ z₀.captured, r = .cell q → ∃ q' ∈ z.captured, c = .cell q'

/-- Of the copies that are under way, those of data are data and those of captured frames are such
frames. -/
def Tracks (z₀ z : Zones) (active : Active) : Prop :=
  ∀ loc copy, active[loc]? = some copy →
    loc ∈ z₀.data ∧ copy ∈ z.data ∨ loc ∈ z₀.captured ∧ copy ∈ z.captured

section

variable {z₀ : Zones} {s₀ : Store}

theorem Tracks.mono {z' : Zones} {active : Active} (tracks : Tracks z₀ z active)
    (data : z.data ⊆ z'.data) (captured : z.captured ⊆ z'.captured) : Tracks z₀ z' active :=
  fun loc copy found => (tracks loc copy found).imp (And.imp_right fun member => data member)
    (And.imp_right fun member => captured member)

theorem Tracks.insert {active : Active} (tracks : Tracks z₀ z active) (loc copy : Loc)
    (known : loc ∈ z₀.data ∧ copy ∈ z.data ∨ loc ∈ z₀.captured ∧ copy ∈ z.captured) :
    Tracks z₀ z (active.insert loc copy) := by
  intro loc' copy' found
  rw [Std.TreeMap.getElem?_insert] at found
  split at found
  · rename_i eq
    obtain rfl : loc = loc' := by simpa using eq
    obtain rfl : copy = copy' := Option.some.inj found
    exact known
  · exact tracks loc' copy' found

/-- The code of procedures is never under way. -/
theorem Tracks.apart {active : Active} (tracks : Tracks z₀ z active) (fits : z₀.Fits s₀) {c : Loc}
    (member : c ∈ z₀.code) : active[c]? = none := by
  refine Option.eq_none_iff_forall_ne_some.2 fun copy found => ?_
  rcases tracks c copy found with ⟨data, -⟩ | ⟨captured, -⟩
  · exact fits.apart data member
  · exact fits.not_code (.inr captured) member

theorem Copies.of_data {loc : Loc} {c : Ref} (fits : z₀.Fits s₀) (member : loc ∈ z₀.data)
    (value : z.Value c) : Copies z₀ (.cell loc) c z := by
  refine ⟨fun _ => value, fun q captured eq => ?_⟩
  cases eq
  exact absurd (.inr captured) (fits.not_frame member)

theorem Copies.of_captured {loc copy : Loc} (fits : z₀.Fits s₀) (member : loc ∈ z₀.captured)
    (captured : copy ∈ z.captured) : Copies z₀ (.cell loc) (.cell copy) z :=
  ⟨fun value => absurd (.inr member) (fits.not_frame (value loc rfl)),
    fun _ _ _ => ⟨copy, captured, rfl⟩⟩

/-- How a cell of data or a captured frame is copied, if it was there at first. -/
def CopiesData (z₀ : Zones) (s₀ : Store) (copy : Active → Ref → StoreM Ref) : Prop :=
  ∀ {z : Zones} {s : Store} {r : Ref} {active : Active}, z₀.Grows s₀ z s → Tracks z₀ z active →
    (∀ q, r = .cell q → q ∈ z₀.data ∨ q ∈ z₀.captured) →
    z.Adds s (copy active r) fun c z' _ => Copies z₀ r c z'

theorem copyDataPair {copy copy' : Active → Ref → StoreM Ref} {active : Active} {loc : Loc}
    {first second : Ref} (copies : CopiesData z₀ s₀ copy) (copies' : CopiesData z₀ s₀ copy')
    (grown : z₀.Grows s₀ z s) (tracks : Tracks z₀ z active) (member : loc ∈ z₀.data)
    (value : z₀.Value first) (value' : z₀.Value second) :
    z.Adds s (copyPair (fun c => copy (active.insert loc c)) (fun c => copy' (active.insert loc c))
      first second) fun c z' _ => z'.Value c := by
  have grown₁ := grown.fits.grows_data (.pair .nil .nil) ⟨value_nil, value_nil⟩ (by simp)
  have tracks₁ := (tracks.mono grown₁.data grown₁.captured).insert loc s.size
    (.inl ⟨member, .inr rfl⟩)
  rw [copyPair_eq]
  refine (Adds.construct (fun _ _ _ => True) grown₁ ?_ ?_).imp ?_
  · exact (grown.fits.size_not_mem (Nat.le_refl _)).2.1
  · refine (copies (grown.trans grown₁) tracks₁ fun q eq => .inl (value q eq)).bind ?_
    intro a z₂ s₂ grown₂ copied
    refine (copies' ((grown.trans grown₁).trans grown₂) (tracks₁.mono grown₂.data grown₂.captured)
      fun q eq => .inl (value' q eq)).bind ?_
    intro b z₃ s₃ grown₃ copied'
    refine .pure grown₃.fits ⟨⟨.of_data grown₃.fits (grown₃.data (grown₂.data (.inr rfl)))
      ⟨grown₃.value (copied.value value), copied'.value value'⟩ (by simp), by simp⟩, trivial⟩
  · rintro c z' s' - ⟨rfl, node, u, rfl, grown₂, -⟩ q eq
    cases eq
    exact grown₂.data (.inr rfl)

/-- A captured frame is copied to one that has no bindings either, inside of the same frame. -/
theorem copyDataFrame {copy : Active → Ref → StoreM Ref} {active : Active} {loc : Loc}
    {frame : Frame} (grown : z₀.Grows s₀ z s) (encloses : z₀.Encloses loc frame) :
    z.Adds s (copyFrame (fun c => copy (active.insert loc c)) frame)
      fun c z' _ => ∃ q ∈ z'.captured, c = .cell q := by
  obtain ⟨env, member, -, rfl⟩ := encloses
  have scope : env ∈ z.frames := grown.frames ▸ member
  have encloses' : z.Encloses s.size { outer := some env } :=
    ⟨env, scope, grown.fits.lt_of_frame scope, rfl⟩
  have grown₁ := grown.fits.grows_captured _ encloses'
  rw [copyFrame_eq]
  refine (Adds.construct (fun _ _ _ => True) grown₁ ?_ ?_).imp ?_
  · exact (grown.fits.size_not_mem (Nat.le_refl _)).2.1
  · exact .pure grown₁.fits ⟨⟨.of_captured grown₁.fits (.inl rfl) (encloses'.mono fun _ => id),
      by simp⟩, trivial⟩
  · rintro c z' s' - ⟨rfl, node, u, rfl, grown₂, -⟩
    exact ⟨s.size, grown₂.captured (.inl rfl), rfl⟩

theorem copyDataClosure {copy : Active → Ref → StoreM Ref} {active : Active} {loc env : Loc}
    {params body : List Ref} (fits : z₀.Fits s₀) (copies : CopiesData z₀ s₀ copy)
    (copiesCode : ∀ {z : Zones} {active : Active}, (∀ c ∈ z₀.code, active[c]? = none) →
      z.Copying z₀.code (copy active))
    (grown : z₀.Grows s₀ z s) (tracks : Tracks z₀ z active) (member : loc ∈ z₀.data)
    (procedure : z₀.Procedure s₀ params body env) :
    z.Adds s (copyClosure (fun c => copy (active.insert loc c)) params body (some env))
      fun c z' _ => z'.Value c := by
  have grown₁ := grown.fits.grows_data (.closure [] [] none) trivial (by simp)
  have tracks₁ := (tracks.mono grown₁.data grown₁.captured).insert loc s.size
    (.inl ⟨member, .inr rfl⟩)
  have grown' := grown.trans grown₁
  have coded₁ := procedure.coded.congr (fun _ => id) fun c code =>
    grown'.extended.node?_eq (fits.lt_of_code code)
  rw [copyClosure_eq]
  refine (Adds.construct (fun _ _ _ => True) grown₁ ?_ ?_).imp ?_
  · exact (grown.fits.size_not_mem (Nat.le_refl _)).2.1
  · refine (copyCoded (copiesCode fun c code => tracks₁.apart fits code) grown₁.fits coded₁).bind ?_
    rintro ⟨params', body'⟩ z₂ s₂ grown₂ ⟨coded₂, -⟩
    have captured : z₂.Adds s₂ (copyCaptured (copy (active.insert loc s.size)) (some env))
        fun captured z' _ => ∃ q ∈ z'.captured, captured = some q := by
      refine (copies (grown'.trans grown₂) (tracks₁.mono grown₂.data grown₂.captured) ?_).bind ?_
      · rintro q ⟨⟩
        exact .inr procedure.captured
      · intro c z₃ s₃ grown₃ copied
        obtain ⟨q, captured, rfl⟩ := copied.captured env procedure.captured rfl
        exact .pure grown₃.fits ⟨q, captured, rfl⟩
    refine captured.bind ?_
    rintro _ z₃ s₃ grown₃ ⟨q, captured, rfl⟩
    have coded₃ := coded₂.congr grown₃.code fun c code =>
      grown₃.extended.node?_eq (grown₂.fits.lt_of_code code)
    have data := grown₃.data (grown₂.data (.inr rfl))
    refine .pure grown₃.fits ⟨⟨.of_data grown₃.fits data trivial ?_, by simp⟩, trivial⟩
    rintro _ _ _ ⟨⟩
    exact ⟨coded₃, captured⟩
  · rintro c z' s' - ⟨rfl, node, u, rfl, grown₂, -⟩ q ⟨⟩
    exact grown₂.data (.inr rfl)

/-- A copy of data is data, also below cells that are being copied. -/
theorem copyData (fits : z₀.Fits s₀) (whole : z₀.Whole s₀) (fuel depth : Nat) :
    CopiesData z₀ s₀ (LittleScheme.copyFrom fuel depth) := by
  induction fuel generalizing depth with
  | zero =>
    intro z s r active grown tracks inside
    cases r with
    | nil => exact .pure grown.fits ⟨fun _ => value_nil, by simp⟩
    | cell loc => exact .throw grown.fits
  | succ fuel ih =>
    intro z s r active grown tracks inside
    cases r with
    | nil => exact .pure grown.fits ⟨fun _ => value_nil, by simp⟩
    | cell loc =>
      cases depth with
      | zero => exact .throw grown.fits
      | succ depth =>
        rw [LittleScheme.copyFrom]
        split
        · rename_i copy found
          refine .pure grown.fits ?_
          rcases tracks loc copy found with ⟨data, data'⟩ | ⟨captured, captured'⟩
          · refine .of_data fits data ?_
            rintro q ⟨⟩
            exact data'
          · exact .of_captured fits captured captured'
        · refine .look ?_
          rcases inside loc rfl with data | captured
          · obtain ⟨node, found, admits⟩ := fits.node data
            have plain (plain : ∀ params body captured, node ≠ .closure params body captured) :
                z.Adds s (LittleScheme.make node) fun c z' _ => Copies z₀ (.cell loc) c z' :=
              (Adds.makeData node grown.fits (admits.mono grown.data)
                (fun _ _ _ eq => absurd eq (plain _ _ _)) fun _ _ => plain _ _ _).imp
                fun c z' s' _ value => .of_data fits data value
            rw [grown.extended.node? found]
            cases node with
            | pair first second =>
              exact (copyDataPair (ih depth) (ih (depth + 1)) grown tracks data admits.1
                admits.2).imp fun c z' s' _ value => .of_data fits data value
            | closure params body captured =>
              cases captured with
              | none => exact absurd found (whole loc data params body)
              | some env =>
                exact (copyDataClosure fits (ih depth) (fun apart => copying apart fuel depth) grown
                  tracks data (fits.procedure found)).imp
                  fun c z' s' _ value => .of_data fits data value
            | environment => exact admits.elim
            | integer | boolean | symbol | builtin => exact plain (by simp)
          · obtain ⟨frame, found, encloses⟩ := fits.captured captured
            rw [grown.extended.node? (Store.frame?_eq_some.1 found)]
            refine (copyDataFrame grown encloses).imp ?_
            rintro c z' s' - ⟨q, captured', rfl⟩
            exact .of_captured fits captured captured'

end

/-! ## Copies of values -/

/-- A computation that ends well leaves no procedure incomplete. -/
theorem Adds.whole {action : StoreM α} (adds : z.Adds s action post) (fits : z.Fits s)
    (whole : z.Whole s) :
    z.Adds s action fun a z' s' => z'.Whole s' ∧ post a z' s' := by
  refine ⟨fun ended => ?_, adds.error⟩
  obtain ⟨z', grows, settled, asked⟩ := adds.ok ended
  refine ⟨z', grows, settled, fun q member params body found => ?_, asked⟩
  rcases grows.newData q member with old | new
  · rw [grows.extended.node?_eq (fits.lt_of_data old)] at found
    exact whole q old params body found
  · exact settled q new params body found

theorem duplicate (fits : z.Fits s) (whole : z.Whole s) (depth : Nat) {r : Ref}
    (value : z.Value r) :
    z.Adds s (LittleScheme.duplicate depth r) fun c z' s' => z'.Whole s' ∧ z'.Value c := by
  have none : Tracks z z ∅ := fun loc copy found => by simp at found
  have copied := copyData fits whole (s.size + 1) depth (.refl fits) none
    fun q eq => .inl (value q eq)
  have adds : z.Adds s (LittleScheme.duplicate depth r) fun c z' _ => Copies z r c z' :=
    ⟨copied.ok, copied.error⟩
  exact (adds.imp fun c z' s' _ copies => copies.value value).whole fits whole

/-- Code is copied as a value is. -/
theorem copying_duplicate (code : Set Loc) (depth : Nat) :
    z.Copying code (LittleScheme.duplicate depth) := by
  intro s r d cells fits laid distinct inside
  have copied : z.Adds s (LittleScheme.copyFrom (s.size + 1) depth ∅ r) (z.Transcribes s d) :=
    copying (by simp) _ _ fits laid distinct inside
  exact ⟨copied.ok, copied.error⟩

/-- How a procedure is copied. -/
theorem duplicate_of_closure {depth : Nat} {q : Loc} {params body : List Ref}
    {captured : Option Loc} {c : Ref} {s' : Store}
    (found : s.node? (.cell q) = some (.closure params body captured))
    (ended : LittleScheme.duplicate depth (.cell q) s = .ok c s') :
    copyClosure (fun copy => LittleScheme.copyFrom s.size (depth - 1) (Std.TreeMap.insert ∅ q copy))
      params body captured s = .ok c s' := by
  change LittleScheme.copyFrom (s.size + 1) depth ∅ (.cell q) s = .ok c s' at ended
  cases depth with
  | zero => cases ended
  | succ depth =>
    have none : (∅ : Active)[q]? = none := by simp
    rw [LittleScheme.copyFrom, none] at ended
    change (LittleScheme.look (.cell q) >>= _) s = _ at ended
    obtain ⟨node, _, looked, rest⟩ := StoreM.exists_of_bind ended
    cases looked
    rw [found] at rest
    exact rest

/-- The code of the copy of a procedure stands for the same data, whatever becomes of the frame that
it has captured. -/
theorem Fits.duplicate_closure {q env : Loc} {params body : List Ref} {ds : List Datum}
    {cells : List Loc} {depth : Nat} {c : Ref} {s' : Store} (fits : z.Fits s)
    (found : s.node? (.cell q) = some (.closure params body (some env)))
    (laid : s.LaidAll (params ++ body) ds cells)
    (ended : LittleScheme.duplicate depth (.cell q) s = .ok c s') :
    ∃ params' body' captured cells', s'.node? c = some (.closure params' body' captured) ∧
      params'.length = params.length ∧ s'.LaidAll (params' ++ body') ds cells' := by
  have copied := duplicate_of_closure found ended
  rw [copyClosure_eq] at copied
  obtain ⟨node, u, made, rfl, rfl⟩ := construct_ok copied
  obtain ⟨⟨params', body'⟩, s₂, parts, rest⟩ := StoreM.exists_of_bind made
  obtain ⟨captured, _, captures, rest⟩ := StoreM.exists_of_bind rest
  cases rest
  have grown : z.Grows s z (s.register (.closure [] [] none)) := fits.grows_register (by simp)
  -- The cell of the copy holds no code, and neither does the cell that is copied.
  have apart (copy : Loc) (c : Loc) (member : c ∈ z.code) :
      (Std.TreeMap.insert ∅ q copy : Active)[c]? = none := by
    have other : q ≠ c := by
      rintro rfl
      obtain ⟨node, found', isCode⟩ := fits.expr member
      rw [found, Option.some.injEq] at found'
      subst found'
      cases isCode
    rw [Std.TreeMap.getElem?_insert, if_neg (by simpa using other)]
    simp
  have coded := (fits.procedure found).coded.congr (fun _ => id) fun c member =>
    grown.extended.node?_eq (fits.lt_of_code member)
  obtain ⟨z₂, grows₂, -, -, length, ds', cells₁, cells₂, laid₁, laid₂⟩ :=
    (copyCoded (copying (apart s.size) _ _) grown.fits coded).ok parts
  obtain ⟨rfl, -⟩ := laid₁.unique (laid.extend grown.extended)
  have extended : s₂.Extended u :=
    ((extension.copyCaptured (extension.copyFrom _ _ _ _) (.refl s₂) _).ok captures).1.sound
  have blank : u.node? (.cell s.size) = some (.closure [] [] none) := by
    refine extended.node? (grows₂.extended.node? ?_)
    rw [Store.node?_register, if_pos rfl]
  have laid₃ := laid₂.extend extended
  refine ⟨params', body', captured, cells₂, ?_, length, laid₃.congr fun c member => ?_⟩
  · rw [u.node?_write (Store.lt_size blank), if_pos rfl]
  · refine u.node?_write_of_ne _ fun eq => ?_
    obtain ⟨node, found', isCode⟩ := laid₃.isCode member
    rw [eq, blank, Option.some.injEq] at found'
    subst found'
    cases isCode

/-- What a computation that fails has added may be left to none of the zones, except for the code of
procedures and the frames that they have captured. -/
theorem Adds.abandon {action : StoreM α} {fault : Fault} {s' : Store} (adds : z.Adds s action post)
    (fits : z.Fits s) (whole : z.Whole s) (ended : action s = .error fault s') :
    fault = .tooDeep ∧ ∃ z', z.Grows s z' s' ∧ z'.Whole s' := by
  obtain ⟨deep, z', grows⟩ := adds.error ended
  have same {q : Loc} (member : q ∈ z.data) := grows.extended.node?_eq (fits.lt_of_data member)
  have fits' : Fits { z with code := z'.code, captured := z'.captured } s' := by
    refine ⟨fun member => ?_, fun member => ?_, fun member => ?_,
      fun member => grows.fits.apart (grows.data member),
      fun member => grows.frames ▸ grows.fits.own member, grows.fits.expr,
      fun found => (grows.fits.procedure found).congr (fun _ => id) (fun _ => id) fun _ _ => rfl⟩
    · obtain ⟨node, found, admits⟩ := fits.node member
      exact ⟨node, grows.extended.node? found, admits.mono fun _ => id⟩
    · obtain ⟨frame, found, scopes⟩ := fits.frame member
      exact ⟨frame, Store.frame?_eq_some.2 (grows.extended.node? (Store.frame?_eq_some.1 found)),
        scopes.mono (fun _ => id) grows.captured rfl⟩
    · obtain ⟨frame, found, encloses⟩ := grows.fits.captured member
      exact ⟨frame, found, encloses.mono grows.frames.subset⟩
  refine ⟨deep, { z with code := z'.code, captured := z'.captured }, ⟨fits', grows.extended,
    fun _ => id, grows.code, rfl, grows.captured, rfl, fun _ => .inl, grows.newCode⟩,
    fun q member params body found => ?_⟩
  exact whole q member params body (same member ▸ found)

end Zones

end LittleScheme
