import LittleScheme.Store.Basic

/-!
# Scopes

A name is resolved along the frames of a scope, from the innermost outwards: the first frame that
binds it decides.  `Store.find?` gives this frame and `Store.lookup?` the value; `define` binds in
one frame, `assign` binds anew where the name is bound.

`Store.scope` has as many frames as there are cells, at most.  These are all frames on the way
outwards, also if the way goes round, so a name that some frame binds is found.  A name that no
frame binds is searched without end if the way goes round, and not found otherwise:
`Store.unresolved` tells the two apart.
-/

namespace LittleScheme

namespace Store

/-- At most `fuel` frames, from the one at `loc` outwards. -/
def scopeFrom (s : Store) : Nat → Loc → List Loc
  | 0, _ => []
  | fuel + 1, loc =>
    match s.frame? loc with
    | none => []
    | some frame =>
      match frame.outer with
      | none => [loc]
      | some outer => loc :: s.scopeFrom fuel outer

/-- The frames in scope at `loc`, the innermost first.  Where the frames go round, each of them is
among these, and some may be there twice. -/
def scope (s : Store) (loc : Loc) : List Loc := s.scopeFrom s.size loc

/-- The frames from `loc` outwards go round: there are more of them on the way than cells. -/
def isEndless (s : Store) (loc : Loc) : Bool := s.size < (s.scopeFrom (s.size + 1) loc).length

/-- The frame at `loc` binds the name. -/
def bindsAt (s : Store) (name : String) (loc : Loc) : Bool :=
  (s.frame? loc).any (·.binds name)

/-- The innermost frame in scope that binds the name. -/
def find? (s : Store) (env : Loc) (name : String) : Option Loc :=
  (s.scope env).find? (s.bindsAt name)

/-- The value that the frame at `loc` binds the name to. -/
def valueAt? (s : Store) (name : String) (loc : Loc) : Option Ref :=
  (s.frame? loc).bind (·.get? name)

/-- The value of a name. -/
def lookup? (s : Store) (env : Loc) (name : String) : Option Ref :=
  (s.find? env name).bind (s.valueAt? name)

/-- What a search outwards comes to when no frame binds the name: an error behind the outermost
frame, and no end where there is none. -/
def unresolved (s : Store) (env : Loc) (name : String) : Fault :=
  if s.isEndless env then .endless else .error (.unbound name)

/-- Bind a name in the frame at `env`. -/
def define (s : Store) (env : Loc) (name : String) (value : Ref) : Store :=
  match s.frame? env with
  | some frame => s.write env (.environment (frame.define name value))
  | none => s

/-- Bind a name anew in the frame that decides its value. -/
def assign (s : Store) (env : Loc) (name : String) (value : Ref) : Store :=
  match s.find? env name with
  | some loc => s.define loc name value
  | none => s

end Store

/-- The value of a name, which must be bound. -/
def resolve (env : Loc) (name : String) : StoreM Ref := do
  let s ← get
  match s.lookup? env name with
  | some value => return value
  | none => throw (s.unresolved env name)

/-- Bind a name in one frame, hiding what the frames around it bind it to. -/
def define (env : Loc) (name : String) (value : Ref) : StoreM Unit :=
  modify (·.define env name value)

/-- Bind a name anew where it is bound, and return what it was bound to. -/
def assign (env : Loc) (name : String) (value : Ref) : StoreM Ref := do
  let previous ← resolve env name
  modify (·.assign env name value)
  return previous

/-- A bound name is bound anew. -/
theorem assign_of_bound {s : Store} {env : Loc} {name : String} {previous : Ref}
    (bound : s.lookup? env name = some previous) (value : Ref) :
    assign env name value s = .ok previous (s.assign env name value) := by
  have resolved : resolve env name s = .ok previous s := by
    change (match s.lookup? env name with
      | some value => (pure value : StoreM Ref)
      | none => throw (s.unresolved env name)) s = _
    rw [bound]
    rfl
  change EStateM.bind (resolve env name) _ s = _
  rw [EStateM.bind, resolved]
  rfl

/-- Nothing happens to a name that is not bound. -/
theorem assign_of_unbound {s : Store} {env : Loc} {name : String}
    (unbound : s.lookup? env name = none) (value : Ref) :
    assign env name value s = .error (s.unresolved env name) s := by
  have resolved : resolve env name s = .error (s.unresolved env name) s := by
    change (match s.lookup? env name with
      | some value => (pure value : StoreM Ref)
      | none => throw (s.unresolved env name)) s = _
    rw [unbound]
    rfl
  change EStateM.bind (resolve env name) _ s = _
  rw [EStateM.bind, resolved]

end LittleScheme
