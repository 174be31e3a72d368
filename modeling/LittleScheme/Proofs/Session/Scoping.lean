import LittleScheme.Proofs.Session.Typing
import LittleScheme.Proofs.Store.Sharing

/-!
# Copies of procedures share one scope

A call copies the procedure with the frame that it has captured.  An assignment in one call is seen
in the next, and in the scope in which the procedure was made, because nothing is ever bound in that
frame: it only leads to the scope, which is not copied.  `copies_share_scope` says this of every
moment of a session.  From every frame that can be reached, the way outwards ends in the global
frame.
-/

namespace LittleScheme

namespace Zones

variable {z : Zones} {s : Store} {r : Ref}

/-- A procedure has captured a frame without bindings, and the scope around it is shared. -/
theorem Fits.madeIn (fits : z.Fits s) {q env : Loc} {params body : List Ref}
    (found : s.node? (.cell q) = some (.closure params body (some env))) :
    ∃ scope ∈ z.frames, s.MadeIn (.cell q) env scope := by
  obtain ⟨frame, here, scope, member, -, rfl⟩ := fits.captured (fits.procedure found).captured
  exact ⟨scope, member, ⟨params, body, found⟩, here⟩

theorem Fits.shares (fits : z.Fits s) {q env scope : Loc} (made : s.MadeIn (.cell q) env scope) :
    s.Shares scope := by
  obtain ⟨params, body, found⟩ := made.node?
  obtain ⟨scope', member, made'⟩ := fits.madeIn found
  have same := made.frame?.symm.trans made'.frame?
  obtain rfl : scope = scope' := by simpa using same
  obtain ⟨chain, outward, -⟩ := fits.outward (.inl member)
  exact outward.shares

/-! ## What can be reached -/

theorem Sorted.of_isFrame {env : Loc} (sorted : z.Sorted s (.cell env)) (fits : z.Fits s)
    (frame : s.IsFrame (.cell env)) : env ∈ z.frames ∨ env ∈ z.captured := by
  rcases sorted with value | ⟨q, member, same⟩ | ⟨d, denotes⟩
  · exact absurd frame (fits.not_isFrame value)
  · cases same
    exact member
  · exact absurd frame (not_isFrame_of_denotes denotes)

theorem Sorted.of_closure (sorted : z.Sorted s r) (fits : z.Fits s) {params body : List Ref}
    {captured : Option Loc} (found : s.node? r = some (.closure params body captured)) :
    z.Value r := by
  rcases sorted with value | ⟨q, member, rfl⟩ | ⟨d, cells, laid⟩
  · exact value
  · obtain ⟨frame, here⟩ := fits.isFrame member
    rw [Store.frame?_eq_some, found] at here
    cases here
  · cases r with
    | nil => cases found
    | cell q =>
      obtain ⟨node, here, isCode⟩ := laid.isCode laid.mem
      rw [found, Option.some.injEq] at here
      subst here
      cases isCode

theorem Sorted.lt_size {q : Loc} (sorted : z.Sorted s (.cell q)) (fits : z.Fits s) :
    q < s.size := by
  rcases sorted with value | ⟨_, member, ⟨⟩⟩ | ⟨d, cells, laid⟩
  · exact fits.lt_of_data (value q rfl)
  · exact member.elim fits.lt_of_frame fits.lt_of_captured
  · exact laid.lt_size laid.mem

/-- Nothing is missing of what can be reached. -/
theorem Fits.whole_of_reaches (fits : z.Fits s) (whole : z.Whole s) {root : Loc}
    (member : root ∈ z.frames) (path : s.Reaches (.cell root) r) : s.Whole r :=
  fun _ path' => (fits.sorted whole member (path.trans path')).lt_size fits

end Zones

/-! ## Copies -/

/-- A procedure that was made in a scope can be copied, and from the frames of the procedure and of
its copy all names are found in the same frames as before.  Both share the scope. -/
structure Store.SharesWithCopies (s : Store) (r : Ref) (env scope : Loc) : Prop where
  exist : ∀ {depth}, s.size < depth → ∃ c s', duplicate depth r s = .ok c s'
  share : ∀ {depth c s'}, duplicate depth r s = .ok c s' →
    s'.Shares scope ∧ s'.MadeIn r env scope ∧ ∃ env', s'.MadeIn c env' scope ∧
      ∀ name, s'.find? env' name = s.find? env name ∧ s'.find? env name = s.find? env name

theorem Zones.Fits.sharesWithCopies {z : Zones} {s : Store} (fits : z.Fits s) (whole : z.Whole s)
    {root q env scope : Loc} (member : root ∈ z.frames)
    (path : s.Reaches (.cell root) (.cell q)) (made : s.MadeIn (.cell q) env scope) :
    s.SharesWithCopies (.cell q) env scope := by
  have there := fits.whole_of_reaches whole member path
  obtain ⟨params, body, found⟩ := made.node?
  have value := (fits.sorted whole member path).of_closure fits found
  refine ⟨(duplicate_completes there _).ends, fun {depth c s'} copied => ?_⟩
  obtain ⟨z', grows, -⟩ := (Zones.duplicate fits whole depth value).ok copied
  obtain ⟨made', env', madeCopy⟩ := made.duplicate there copied
  have shares := grows.fits.shares made'
  refine ⟨shares, made', env', madeCopy, fun name => ?_⟩
  obtain ⟨chain, outward, -⟩ := fits.outward (.inr (fits.procedure found).captured)
  have before := outward.find?_extend grows.extended name
  exact ⟨(shares.find? (made'.sees name) (madeCopy.sees name)).trans before, before⟩

/-- Procedures keep their frames. -/
theorem Store.MadeIn.preserve {s s' : Store} {q env scope : Loc}
    (made : s.MadeIn (.cell q) env scope) (kept : s.Preserves s') :
    s'.MadeIn (.cell q) env scope := by
  obtain ⟨params, body, found⟩ := made.node?
  exact ⟨⟨params, body, kept.node? found⟩, kept.frame? found made.frame?⟩

/-- **Copies of a procedure share one scope.**  Take any moment of a session.  From every frame that
can be reached, the way outwards is finite, meets no frame twice, and ends in the global frame.
Every procedure that can be reached has captured a frame without bindings.  So a procedure and its
copies find each name in the same frame; and whatever is assigned from the frame of one of them, or
from a frame inside of it that does not bind the name itself, is seen from all others, and from the
scope in which the procedure was made.  It stays so at every later moment. -/
theorem copies_share_scope (collectOnError : Bool) (limit : Nat)
    (before between : List Session.Action) (action action' : Session.Action)
    (watch watch' : Watch) :
    let session := (Session.start collectOnError limit).afterAll before
    let s := session.storeAt (fun m s => watch m s || watch' m s) action
    let later := [session.storeAt watch' action,
      ((session.after action).afterAll between).storeAt watch' action']
    (∀ env, s.Reaches (.cell session.globals) (.cell env) → s.IsFrame (.cell env) →
      ∃ chain, s.Outward env chain ∧ chain.Nodup ∧ chain.getLast? = some session.globals) ∧
      (∀ q params body captured, s.Reaches (.cell session.globals) (.cell q) →
        s.node? (.cell q) = some (.closure params body captured) →
        ∃ env scope, captured = some env ∧ s.MadeIn (.cell q) env scope ∧
          s.SharesWithCopies (.cell q) env scope) ∧
      ∀ q env scope, s.MadeIn (.cell q) env scope → s.Shares scope ∧
        ∀ t ∈ later, t.MadeIn (.cell q) env scope ∧ t.Shares scope := by
  intro session s later
  have holds : session.InCustody :=
    Session.InCustody.afterAll (custody.holds_start collectOnError limit) before
  have ordered : (custody session.globals).Ordered (fun m s => watch m s || watch' m s) watch' :=
    ⟨trivial, trivial, fun m s waited => by simp [waited]⟩
  obtain ⟨⟨z, guards⟩, kept, -⟩ := holds.storeAt ordered action
  have fits : z.Fits s := guards.fits
  refine ⟨?_, ?_, ?_⟩
  · intro env path frame
    have member := (fits.sorted guards.whole guards.root path).of_isFrame fits frame
    obtain ⟨chain, outward, last⟩ := fits.outward member
    exact ⟨chain, outward, outward.nodup, guards.outermost ▸ last⟩
  · intro q params body captured path found
    have value := (fits.sorted guards.whole guards.root path).of_closure fits found
    obtain ⟨-, env, -, rfl⟩ := fits.complete guards.whole value found
    obtain ⟨scope, -, made⟩ := fits.madeIn found
    exact ⟨env, scope, rfl, made, fits.sharesWithCopies guards.whole guards.root path made⟩
  · intro q env scope made
    refine ⟨fits.shares made, List.forall_mem_cons.2 ⟨?_, List.forall_mem_singleton.2 ?_⟩⟩
    · obtain ⟨⟨z', guards'⟩, -⟩ := holds.storeAt (custody.itself watch') action
      have made' := made.preserve kept
      exact ⟨made', guards'.fits.shares made'⟩
    · have next := holds.after action
      obtain ⟨⟨z', guards'⟩, -, kept'⟩ :=
        (next.afterAll between).storeAt (custody.itself watch') action'
      have behind := (holds.preserves_after (fun m s => watch m s || watch' m s) action).trans
        ((next.preserves_afterAll between).trans kept')
      have made' := made.preserve behind
      exact ⟨made', guards'.fits.shares made'⟩

/-- A procedure that assigns a global name: it and its copies do so in the same place, before a call
and after it. -/
theorem copies_share_scope_assigner :
    let session := (Session.start true 1000).afterAll []
    let line : Session.Action := .run "(define (f) (set! n 0))"
    let s := session.storeAt (fun m s => Watch.never m s || Watch.never m s) line
    ∃ env scope, s.MadeIn (.cell 49) env scope ∧ s.SharesWithCopies (.cell 49) env scope ∧
      (∃ chain, s.Outward env chain ∧ chain.Nodup ∧ chain.getLast? = some session.globals) ∧
      ∀ t ∈ [session.storeAt .never line,
          ((session.after line).afterAll []).storeAt .never (.run "(f)")],
        t.MadeIn (.cell 49) env scope ∧ t.Shares scope := by
  intro session line s
  have there : s.node? (.cell 49) = some (.closure [] [.cell 43] (some 48)) ∧
      (s.node? (.cell session.globals)).any (·.children.contains (.cell 49)) = true := by
    decide +kernel
  obtain ⟨found, bound⟩ := there
  obtain ⟨node, globals, child⟩ := (Option.any_eq_true _ _).1 bound
  have path : s.Reaches (.cell session.globals) (.cell 49) :=
    .step .refl globals (by simpa using child)
  obtain ⟨frames, procedures, later⟩ :=
    copies_share_scope true 1000 [] [] line (.run "(f)") .never .never
  obtain ⟨env, scope, same, made, shares⟩ := procedures 49 _ _ _ path found
  obtain rfl : env = 48 := by simpa using same.symm
  have frame : s.IsFrame (.cell 48) := ⟨_, Store.frame?_eq_some.1 made.frame?⟩
  exact ⟨48, scope, made, shares, frames 48 (.step path found (by simp [Node.children])) frame,
    (later 49 48 scope made).2⟩

end LittleScheme
