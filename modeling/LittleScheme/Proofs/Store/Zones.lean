import LittleScheme.Proofs.Evaluation.Regime
import LittleScheme.Proofs.Store.Denotation
import LittleScheme.Proofs.Store.Outward
import Mathlib.Data.Set.Insert

/-!
# Code, data and frames

Procedures are made of the same cells as data: atoms and pairs.  What keeps their code from being
changed is that the cells of a store can be told apart.  Some are *data*, some are *code*, and some
are *frames*; data refer to data, code is finite and free of cycles, and no cell of data is one of
code.  Only pairs of data and frames are ever written to.

The frames that procedures have *captured* are a zone of their own.  They are never worked in, so
they have no bindings.  On the way outwards they alternate with the other frames: a procedure is
made in a frame that is worked in, and called in one inside of the frame that it has captured.  The
way leads to cells made earlier, and so to the root.

The cells of an expression that is still to be evaluated belong to none of these zones.  They are
assigned to one when the expression is quoted, or made into the code of a procedure.

## Main definitions

* `Zones` — which cells are data, code, frames and captured frames; `Zones.Fits` if that is right
  for a store.
* `Store.Coded` — a procedure whose code is code.
* `Zones.Grows` — cells were added to a store, and assigned to zones.

## Main statements

* `Zones.Fits.write` — what can be written to a cell.
* `Zones.Fits.addData`, `Zones.Fits.addCode`, `Zones.Fits.addFrame`, `Zones.Fits.addCaptured` — what
  can be assigned to a zone.
-/

namespace LittleScheme

/-! ## Values that stand for data -/

namespace Store

variable {s s' : Store} {r : Ref} {d : Datum} {cells : List Loc}

/-- The cells of a value that stands for a datum hold what an expression can be made of. -/
theorem Laid.isCode (laid : s.Laid r d cells) {c : Loc} (member : c ∈ cells) :
    ∃ node, s.node? (.cell c) = some node ∧ node.isCode = true := by
  induction laid with
  | nil => simp at member
  | @leaf loc a found =>
    obtain rfl := List.mem_singleton.1 member
    exact ⟨_, found, by cases a <;> rfl⟩
  | pair found _ _ ihLeft ihRight =>
    rcases List.mem_append.1 member with below | here
    · rcases List.mem_append.1 below with left | right
      · exact ihLeft left
      · exact ihRight right
    · obtain rfl := List.mem_singleton.1 here
      exact ⟨_, found, rfl⟩

/-- What a value stands for depends on its own cells alone. -/
theorem Laid.congr (laid : s.Laid r d cells)
    (same : ∀ c ∈ cells, s'.node? (.cell c) = s.node? (.cell c)) : s'.Laid r d cells := by
  induction laid with
  | nil => exact .nil
  | leaf found => exact .leaf ((same _ (by simp)).trans found)
  | pair found _ _ ihLeft ihRight =>
    exact .pair ((same _ (by simp)).trans found) (ihLeft fun c member => same c (by simp [member]))
      (ihRight fun c member => same c (by simp [member]))

/-- A value stands for a datum by one list of cells at most. -/
theorem Laid.unique {e : Datum} {cells' : List Loc} (laid : s.Laid r d cells)
    (laid' : s.Laid r e cells') : cells = cells' := by
  induction laid generalizing e cells' with
  | nil =>
    cases laid'
    rfl
  | leaf found =>
    cases laid' with
    | leaf => rfl
    | pair found' =>
      rw [found, Option.some.injEq] at found'
      exact absurd found' (Atom.node_ne_pair _ _ _)
  | pair found _ _ ihLeft ihRight =>
    cases laid' with
    | leaf found' =>
      rw [found, Option.some.injEq] at found'
      exact absurd found'.symm (Atom.node_ne_pair _ _ _)
    | pair found' left' right' =>
      rw [found, Option.some.injEq, Node.pair.injEq] at found'
      obtain ⟨rfl, rfl⟩ := found'
      rw [ihLeft left', ihRight right']

theorem Laid.lt_size (laid : s.Laid r d cells) {c : Loc} (member : c ∈ cells) : c < s.size := by
  obtain ⟨node, found, -⟩ := laid.isCode member
  exact Store.lt_size found

/-- The cell that a value begins with is one of its cells. -/
theorem Laid.mem {loc : Loc} (laid : s.Laid (.cell loc) d cells) : loc ∈ cells := by
  cases laid <;> simp

/-- A cell that is no part of two values becomes their pair. -/
theorem Laid.writePair {r' : Ref} {e : Datum} {cells' : List Loc} {loc : Loc}
    (left : s.Laid r d cells) (right : s.Laid r' e cells') (exist : loc < s.size)
    (apart : ∀ c ∈ cells ++ cells', c ≠ loc) :
    (s.write loc (.pair r r')).Laid (.cell loc) (.pair d e) (cells ++ cells' ++ [loc]) := by
  have same (c : Loc) (member : c ∈ cells ++ cells') :
      (s.write loc (.pair r r')).node? (.cell c) = s.node? (.cell c) :=
    s.node?_write_of_ne _ (by simpa using apart c member)
  refine .pair ?_ (left.congr fun c member => same c (by simp [member]))
    (right.congr fun c member => same c (by simp [member]))
  rw [s.node?_write exist, if_pos rfl]

variable {rs rs' : List Ref} {ds : List Datum}

theorem Laid.singleton (laid : s.Laid r d cells) : s.LaidAll [r] [d] cells := by
  simpa using LaidAll.cons laid .nil

theorem LaidAll.isCode (laid : s.LaidAll rs ds cells) {c : Loc} (member : c ∈ cells) :
    ∃ node, s.node? (.cell c) = some node ∧ node.isCode = true := by
  induction laid with
  | nil => simp at member
  | cons first _ ih =>
    rcases List.mem_append.1 member with here | later
    · exact first.isCode here
    · exact ih later

theorem LaidAll.lt_size (laid : s.LaidAll rs ds cells) {c : Loc} (member : c ∈ cells) :
    c < s.size := by
  obtain ⟨node, found, -⟩ := laid.isCode member
  exact Store.lt_size found

theorem LaidAll.congr (laid : s.LaidAll rs ds cells)
    (same : ∀ c ∈ cells, s'.node? (.cell c) = s.node? (.cell c)) : s'.LaidAll rs ds cells := by
  induction laid with
  | nil => exact .nil
  | cons first _ ih =>
    exact .cons (first.congr fun c member => same c (by simp [member]))
      (ih fun c member => same c (by simp [member]))

theorem LaidAll.unique {ds' : List Datum} {cells' : List Loc} (laid : s.LaidAll rs ds cells)
    (laid' : s.LaidAll rs ds' cells') : ds = ds' ∧ cells = cells' := by
  induction laid generalizing ds' cells' with
  | nil =>
    cases laid'
    exact ⟨rfl, rfl⟩
  | cons first _ ih =>
    cases laid' with
    | cons first' rest' =>
      obtain ⟨rfl, rfl⟩ := ih rest'
      rw [first.unique first', Denotes.unique ⟨_, first⟩ ⟨_, first'⟩]
      exact ⟨rfl, rfl⟩

theorem LaidAll.extend (laid : s.LaidAll rs ds cells) (extended : s.Extended s') :
    s'.LaidAll rs ds cells :=
  laid.congr fun _ member => extended.node?_eq (laid.lt_size member)

theorem LaidAll.length_eq (laid : s.LaidAll rs ds cells) : rs.length = ds.length :=
  laid.denotes.length_eq

/-- Symbols are those references that stand for a symbol. -/
theorem LaidAll.names_iff (laid : s.LaidAll rs ds cells) :
    (∀ r ∈ rs, (s.symbolName? r).isSome) ↔ ∀ d ∈ ds, ∃ name, d = .leaf (.symbol name) := by
  have one {r : Ref} {d : Datum} {cells : List Loc} (first : s.Laid r d cells) :
      (s.symbolName? r).isSome ↔ ∃ name, d = .leaf (.symbol name) := by
    cases first with
    | nil => simp [Store.symbolName?, Store.node?]
    | @leaf _ a found => cases a <;> simp [Store.symbolName?, found, Atom.node]
    | pair found => simp [Store.symbolName?, found]
  induction laid with
  | nil => simp
  | cons first _ ih =>
    rw [List.forall_mem_cons, List.forall_mem_cons]
    exact and_congr (one first) ih

/-- Each of the references stands for a datum by some of the cells. -/
theorem LaidAll.exists_laid (laid : s.LaidAll rs ds cells) (member : r ∈ rs) :
    ∃ d cells', s.Laid r d cells' ∧ cells'.Sublist cells := by
  induction laid with
  | nil => simp at member
  | cons first _ ih =>
    rcases List.mem_cons.1 member with rfl | later
    · exact ⟨_, _, first, List.sublist_append_left _ _⟩
    · obtain ⟨d, cells', laid, sublist⟩ := ih later
      exact ⟨d, cells', laid, sublist.trans (List.sublist_append_right _ _)⟩

theorem LaidAll.append {ds' : List Datum} {cells' : List Loc} (laid : s.LaidAll rs ds cells)
    (laid' : s.LaidAll rs' ds' cells') : s.LaidAll (rs ++ rs') (ds ++ ds') (cells ++ cells') := by
  induction laid with
  | nil => exact laid'
  | cons first _ ih =>
    rw [List.append_assoc]
    exact .cons first ih

theorem LaidAll.of_append (laid : s.LaidAll (rs ++ rs') ds cells) :
    ∃ ds₁ ds₂ cells₁ cells₂, s.LaidAll rs ds₁ cells₁ ∧ s.LaidAll rs' ds₂ cells₂ ∧
      ds = ds₁ ++ ds₂ ∧ cells = cells₁ ++ cells₂ := by
  induction rs generalizing ds cells with
  | nil => exact ⟨[], ds, [], cells, .nil, laid, rfl, rfl⟩
  | cons r rs ih =>
    cases laid with
    | cons first rest =>
      obtain ⟨ds₁, ds₂, cells₁, cells₂, left, right, rfl, rfl⟩ := ih rest
      exact ⟨_, _, _, _, .cons first left, right, rfl, (List.append_assoc _ _ _).symm⟩

theorem LaidAll.sublist (laid : s.LaidAll rs ds cells) (sublist : rs'.Sublist rs) :
    ∃ ds' cells', s.LaidAll rs' ds' cells' ∧ cells'.Sublist cells := by
  induction sublist generalizing ds cells with
  | slnil => exact ⟨_, _, laid, List.Sublist.refl _⟩
  | cons r _ ih =>
    cases laid with
    | cons first rest =>
      obtain ⟨ds', cells', laid', less⟩ := ih rest
      exact ⟨ds', cells', laid', less.trans (List.sublist_append_right _ _)⟩
  | cons_cons r _ ih =>
    cases laid with
    | cons first rest =>
      obtain ⟨ds', cells', laid', less⟩ := ih rest
      exact ⟨_, _, .cons first laid', (List.Sublist.refl _).append less⟩

theorem LaidAll.perm (laid : s.LaidAll rs ds cells) (perm : rs.Perm rs') :
    ∃ ds' cells', s.LaidAll rs' ds' cells' ∧ cells'.Perm cells := by
  induction perm generalizing ds cells with
  | nil => exact ⟨_, _, laid, .refl _⟩
  | cons r _ ih =>
    cases laid with
    | cons first rest =>
      obtain ⟨ds', cells', laid', perm'⟩ := ih rest
      exact ⟨_, _, .cons first laid', perm'.append_left _⟩
  | swap r r' rs =>
    cases laid with
    | cons first rest =>
      cases rest with
      | cons second rest =>
        refine ⟨_, _, .cons second (.cons first rest), ?_⟩
        rw [← List.append_assoc, ← List.append_assoc]
        exact List.perm_append_comm.append_right _
  | trans _ _ ih ih' =>
    obtain ⟨ds₁, cells₁, laid₁, perm₁⟩ := ih laid
    obtain ⟨ds₂, cells₂, laid₂, perm₂⟩ := ih' laid₁
    exact ⟨ds₂, cells₂, laid₂, perm₂.trans perm₁⟩

/-- The order of the references is of no importance, and some may be left out. -/
theorem LaidAll.subperm (laid : s.LaidAll rs ds cells) (subperm : rs'.Subperm rs) :
    ∃ ds' cells', s.LaidAll rs' ds' cells' ∧ cells'.Subperm cells := by
  obtain ⟨rs'', perm, sublist⟩ := subperm
  obtain ⟨ds₁, cells₁, laid₁, less⟩ := laid.sublist sublist
  obtain ⟨ds₂, cells₂, laid₂, perm₂⟩ := laid₁.perm perm
  exact ⟨ds₂, cells₂, laid₂, perm₂.subperm.trans less.subperm⟩

end Store

/-! ## Zones -/

/-- The code of a procedure: the parameters are symbols, there is something in the body, and all of
it stands for data by cells of code, none of which is used twice. -/
structure Store.Coded (s : Store) (code : Set Loc) (params body : List Ref) : Prop where
  names : ∀ r ∈ params, (s.symbolName? r).isSome
  nonempty : body ≠ []
  laid : ∃ ds cells, s.LaidAll (params ++ body) ds cells ∧ cells.Nodup ∧ ∀ c ∈ cells, c ∈ code

/-- Which cells are data, code, frames to work in, and frames that procedures have captured; and
which frame is the root. -/
structure Zones where
  data : Set Loc
  code : Set Loc
  frames : Set Loc
  captured : Set Loc
  root : Loc

namespace Zones

/-- The reference leads to data, or to no cell at all. -/
def Value (z : Zones) (r : Ref) : Prop := ∀ q, r = .cell q → q ∈ z.data

/-- What a cell of data may hold. -/
def Admits (z : Zones) : Node → Prop
  | .pair first second => z.Value first ∧ z.Value second
  | .environment _ => False
  | .integer _ | .boolean _ | .symbol _ | .builtin _ | .closure _ _ _ => True

/-- What a frame to work in may be: values are bound in it, and the frame around it is one that a
procedure has captured, unless it is the root. -/
structure Scopes (z : Zones) (q : Loc) (frame : Frame) : Prop where
  values : ∀ binding ∈ frame.bindings, z.Value binding.2
  outer : ∀ env ∈ frame.outer, env ∈ z.captured ∧ env < q
  outermost : frame.outer = none → q = z.root

/-- What a captured frame may be: it has no bindings, and the frame around it is one to work in. -/
def Encloses (z : Zones) (q : Loc) (frame : Frame) : Prop :=
  ∃ env ∈ z.frames, env < q ∧ frame = { outer := some env }

/-- What a procedure is made of: code, and a frame that is captured.  A procedure without a captured
frame is one that is still being copied. -/
structure Procedure (z : Zones) (s : Store) (params body : List Ref) (env : Loc) : Prop where
  coded : s.Coded z.code params body
  captured : env ∈ z.captured

/-- The zones are right for a store. -/
structure Fits (z : Zones) (s : Store) : Prop where
  node : ∀ {q}, q ∈ z.data → ∃ node, s.node? (.cell q) = some node ∧ z.Admits node
  frame : ∀ {q}, q ∈ z.frames → ∃ frame, s.frame? q = some frame ∧ z.Scopes q frame
  captured : ∀ {q}, q ∈ z.captured → ∃ frame, s.frame? q = some frame ∧ z.Encloses q frame
  apart : ∀ {q}, q ∈ z.data → q ∉ z.code
  own : ∀ {q}, q ∈ z.captured → q ∉ z.frames
  expr : ∀ {q}, q ∈ z.code → ∃ node, s.node? (.cell q) = some node ∧ node.isCode = true
  procedure : ∀ {q params body env}, s.node? (.cell q) = some (.closure params body (some env)) →
    z.Procedure s params body env

/-- What may be written to a cell. -/
structure Accepts (z : Zones) (s : Store) (q : Loc) (node : Node) : Prop where
  data : q ∈ z.data → z.Admits node
  frame : q ∈ z.frames → ∃ frame, node = .environment frame ∧ z.Scopes q frame
  captured : q ∈ z.captured → ∃ frame, node = .environment frame ∧ z.Encloses q frame
  procedure : ∀ params body env, node = .closure params body (some env) →
    z.Procedure s params body env

/-- Cells were added to a store, and some of them were assigned to zones. -/
structure Grows (z : Zones) (s : Store) (z' : Zones) (s' : Store) : Prop where
  fits : z'.Fits s'
  extended : s.Extended s'
  data : z.data ⊆ z'.data
  code : z.code ⊆ z'.code
  frames : z'.frames = z.frames
  captured : z.captured ⊆ z'.captured
  root : z'.root = z.root
  newData : ∀ q ∈ z'.data, q ∈ z.data ∨ s.size ≤ q
  newCode : ∀ q ∈ z'.code, q ∈ z.code ∨ s.size ≤ q

variable {z z' z'' : Zones} {s s' s'' : Store} {r : Ref} {q : Loc} {node : Node}

theorem value_nil : z.Value .nil := by simp [Value]

theorem Value.mono (value : z.Value r) (more : z.data ⊆ z'.data) : z'.Value r :=
  fun q eq => more (value q eq)

theorem Admits.mono (admits : z.Admits node) (more : z.data ⊆ z'.data) : z'.Admits node := by
  cases node with
  | pair first second => exact ⟨admits.1.mono more, admits.2.mono more⟩
  | environment frame => exact admits
  | integer | boolean | symbol | builtin | closure => trivial

theorem Scopes.mono {frame : Frame} (scopes : z.Scopes q frame) (more : z.data ⊆ z'.data)
    (more' : z.captured ⊆ z'.captured) (root : z'.root = z.root) : z'.Scopes q frame :=
  ⟨fun binding member => (scopes.values binding member).mono more,
    fun env h => (scopes.outer env h).imp_left fun member => more' member,
    fun h => (scopes.outermost h).trans root.symm⟩

theorem Encloses.mono {frame : Frame} (encloses : z.Encloses q frame)
    (more : z.frames ⊆ z'.frames) : z'.Encloses q frame := by
  obtain ⟨env, member, rest⟩ := encloses
  exact ⟨env, more member, rest⟩

end Zones

/-- Code depends on the cells of code alone. -/
theorem Store.Coded.congr {s s' : Store} {code code' : Set Loc} {params body : List Ref}
    (coded : s.Coded code params body) (more : code ⊆ code')
    (same : ∀ c ∈ code, s'.node? (.cell c) = s.node? (.cell c)) :
    s'.Coded code' params body := by
  obtain ⟨names, nonempty, ds, cells, laid, distinct, inside⟩ := coded
  refine ⟨fun r member => ?_, nonempty, ds, cells,
    laid.congr fun c member => same c (inside c member), distinct,
    fun c member => more (inside c member)⟩
  have named := names r member
  obtain ⟨d, cells', laid', sublist⟩ := laid.exists_laid (List.mem_append_left _ member)
  cases r with
  | nil => exact named
  | cell c =>
    have here := same c (inside c (sublist.subset laid'.mem))
    simpa only [Store.symbolName?, here] using named

namespace Zones

variable {z z' z'' : Zones} {s s' s'' : Store} {r : Ref} {q : Loc} {node : Node}

theorem Procedure.congr {params body : List Ref} {env : Loc}
    (procedure : z.Procedure s params body env) (code : z.code ⊆ z'.code)
    (captured : z.captured ⊆ z'.captured)
    (same : ∀ c ∈ z.code, s'.node? (.cell c) = s.node? (.cell c)) :
    z'.Procedure s' params body env :=
  ⟨procedure.coded.congr code same, captured procedure.captured⟩

theorem Fits.lt_of_data (fits : z.Fits s) (member : q ∈ z.data) : q < s.size := by
  obtain ⟨node, found, -⟩ := fits.node member
  exact Store.lt_size found

theorem Fits.lt_of_frame (fits : z.Fits s) (member : q ∈ z.frames) : q < s.size := by
  obtain ⟨frame, found, -⟩ := fits.frame member
  exact Store.lt_size (Store.frame?_eq_some.1 found)

theorem Fits.lt_of_captured (fits : z.Fits s) (member : q ∈ z.captured) : q < s.size := by
  obtain ⟨frame, found, -⟩ := fits.captured member
  exact Store.lt_size (Store.frame?_eq_some.1 found)

theorem Fits.lt_of_code (fits : z.Fits s) (member : q ∈ z.code) : q < s.size := by
  obtain ⟨node, found, -⟩ := fits.expr member
  exact Store.lt_size found

theorem Fits.admits (fits : z.Fits s) (value : z.Value r) (found : s.node? r = some node) :
    z.Admits node := by
  cases r with
  | nil => cases found
  | cell q =>
    obtain ⟨node', found', admits⟩ := fits.node (value q rfl)
    rw [found, Option.some.injEq] at found'
    exact found' ▸ admits

/-- Code is no frame. -/
theorem Fits.frame?_of_code (fits : z.Fits s) (member : q ∈ z.code) : s.frame? q = none := by
  obtain ⟨node, found, isCode⟩ := fits.expr member
  refine Option.eq_none_iff_forall_ne_some.2 fun frame found' => ?_
  rw [Store.frame?_eq_some, found, Option.some.injEq] at found'
  subst found'
  cases isCode

/-- Data are no frames. -/
theorem Fits.frame?_of_data (fits : z.Fits s) (member : q ∈ z.data) : s.frame? q = none := by
  obtain ⟨node, found, admits⟩ := fits.node member
  refine Option.eq_none_iff_forall_ne_some.2 fun frame found' => ?_
  rw [Store.frame?_eq_some, found, Option.some.injEq] at found'
  subst found'
  exact admits

theorem Fits.isFrame (fits : z.Fits s) (member : q ∈ z.frames ∨ q ∈ z.captured) :
    ∃ frame, s.frame? q = some frame := by
  rcases member with frame | captured
  · obtain ⟨frame, found, -⟩ := fits.frame frame
    exact ⟨frame, found⟩
  · obtain ⟨frame, found, -⟩ := fits.captured captured
    exact ⟨frame, found⟩

/-- The frame around a frame is one, and was made earlier. -/
theorem Fits.outer (fits : z.Fits s) (member : q ∈ z.frames ∨ q ∈ z.captured) {frame : Frame}
    {env : Loc} (found : s.frame? q = some frame) (around : frame.outer = some env) :
    env < q ∧ (env ∈ z.frames ∨ env ∈ z.captured) := by
  rcases member with inside | captured
  · obtain ⟨frame', found', scopes⟩ := fits.frame inside
    rw [found, Option.some.injEq] at found'
    subst found'
    obtain ⟨enclosing, earlier⟩ := scopes.outer env around
    exact ⟨earlier, .inr enclosing⟩
  · obtain ⟨frame', found', env', inside, earlier, rfl⟩ := fits.captured captured
    rw [found, Option.some.injEq] at found'
    subst found'
    cases around
    exact ⟨earlier, .inl inside⟩

/-- From every frame, the way outwards ends in the root.  It leads to earlier frames only. -/
theorem Fits.outward (fits : z.Fits s) {env : Loc} (member : env ∈ z.frames ∨ env ∈ z.captured) :
    ∃ chain, s.Outward env chain ∧ chain.getLast? = some z.root := by
  induction env using Nat.strongRecOn with
  | ind env ih =>
    obtain ⟨frame, found⟩ := fits.isFrame member
    cases around : frame.outer with
    | some outer =>
      obtain ⟨earlier, member'⟩ := fits.outer member found around
      obtain ⟨chain, rest, last⟩ := ih outer earlier member'
      exact ⟨env :: chain, .step found around rest, by simp [List.getLast?_cons, last]⟩
    | none =>
      refine ⟨[env], .last found around, ?_⟩
      rcases member with inside | captured
      · obtain ⟨frame', found', scopes⟩ := fits.frame inside
        rw [found, Option.some.injEq] at found'
        subst found'
        simp [scopes.outermost around]
      · obtain ⟨frame', found', outer, -, -, rfl⟩ := fits.captured captured
        rw [found, Option.some.injEq] at found'
        subst found'
        cases around

theorem Fits.not_code (fits : z.Fits s) (member : q ∈ z.frames ∨ q ∈ z.captured) :
    q ∉ z.code := by
  intro code
  obtain ⟨frame, found⟩ := fits.isFrame member
  rw [fits.frame?_of_code code] at found
  cases found

theorem Fits.not_frame (fits : z.Fits s) (member : q ∈ z.data) :
    ¬(q ∈ z.frames ∨ q ∈ z.captured) := by
  intro either
  obtain ⟨frame, found⟩ := fits.isFrame either
  rw [fits.frame?_of_data member] at found
  cases found

theorem Accepts.of_data (fits : z.Fits s) (member : q ∈ z.data) (admits : z.Admits node)
    (procedure : ∀ params body env, node = .closure params body (some env) →
      z.Procedure s params body env) : z.Accepts s q node where
  data _ := admits
  frame frame := absurd (.inl frame) (fits.not_frame member)
  captured captured := absurd (.inr captured) (fits.not_frame member)
  procedure := procedure

theorem Accepts.of_frame {frame : Frame} (fits : z.Fits s) (member : q ∈ z.frames)
    (scopes : z.Scopes q frame) : z.Accepts s q (.environment frame) where
  data data := absurd (.inl member) (fits.not_frame data)
  frame _ := ⟨frame, rfl, scopes⟩
  captured captured := absurd member (fits.own captured)
  procedure := by simp

theorem Accepts.of_captured {frame : Frame} (fits : z.Fits s) (member : q ∈ z.captured)
    (encloses : z.Encloses q frame) : z.Accepts s q (.environment frame) where
  data data := absurd (.inr member) (fits.not_frame data)
  frame frame := absurd frame (fits.own member)
  captured _ := ⟨frame, rfl, encloses⟩
  procedure := by simp

/-! ### Steps -/

/-- Whatever is added, it may be left to none of the zones, apart from the code of a procedure. -/
theorem Fits.register (fits : z.Fits s)
    (procedure : ∀ params body env, node = .closure params body (some env) →
      z.Procedure s params body env) :
    z.Fits (s.register node) := by
  have kept := s.extended_register node
  have same (c : Loc) (member : c ∈ z.code) := kept.node?_eq (fits.lt_of_code member)
  refine ⟨fun member => ?_, fun member => ?_, fun member => ?_, fits.apart, fits.own,
    fun member => ?_, fun found => ?_⟩
  · obtain ⟨node', found, admits⟩ := fits.node member
    exact ⟨node', kept.node? found, admits⟩
  · obtain ⟨frame, found, scopes⟩ := fits.frame member
    exact ⟨frame, Store.frame?_eq_some.2 (kept.node? (Store.frame?_eq_some.1 found)), scopes⟩
  · obtain ⟨frame, found, encloses⟩ := fits.captured member
    exact ⟨frame, Store.frame?_eq_some.2 (kept.node? (Store.frame?_eq_some.1 found)), encloses⟩
  · obtain ⟨node', found, isCode⟩ := fits.expr member
    exact ⟨node', kept.node? found, isCode⟩
  · rw [Store.node?_register] at found
    split at found
    · exact (procedure _ _ _ (Option.some.inj found)).congr (fun _ => id) (fun _ => id) same
    · exact (fits.procedure found).congr (fun _ => id) (fun _ => id) same

/-- What may be written to a cell that is no code. -/
theorem Fits.write (fits : z.Fits s) (exist : q < s.size) (free : q ∉ z.code)
    (accepts : z.Accepts s q node) : z.Fits (s.write q node) := by
  have found := s.node?_write exist node
  have same (c : Loc) (member : c ∈ z.code) :
      (s.write q node).node? (.cell c) = s.node? (.cell c) := by
    have other : c ≠ q := fun eq => free (eq ▸ member)
    rw [found, if_neg (by simpa using other)]
  have other {p : Loc} (eq : p ≠ q) {frame : Frame} (here : s.frame? p = some frame) :
      (s.write q node).frame? p = some frame := by
    rw [Store.frame?_eq_some, found, if_neg (by simpa using eq)]
    exact Store.frame?_eq_some.1 here
  refine ⟨fun {p} member => ?_, fun {p} member => ?_, fun {p} member => ?_, fits.apart, fits.own,
    fun member => ?_, fun {p params body env} here => ?_⟩
  · rw [found]
    split
    · rename_i eq
      obtain rfl : p = q := by simpa using eq
      exact ⟨node, rfl, accepts.data member⟩
    · exact fits.node member
  · by_cases eq : p = q
    · subst eq
      obtain ⟨frame, rfl, scopes⟩ := accepts.frame member
      exact ⟨frame, Store.frame?_eq_some.2 (by rw [found, if_pos rfl]), scopes⟩
    · obtain ⟨frame, here, scopes⟩ := fits.frame member
      exact ⟨frame, other eq here, scopes⟩
  · by_cases eq : p = q
    · subst eq
      obtain ⟨frame, rfl, encloses⟩ := accepts.captured member
      exact ⟨frame, Store.frame?_eq_some.2 (by rw [found, if_pos rfl]), encloses⟩
    · obtain ⟨frame, here, encloses⟩ := fits.captured member
      exact ⟨frame, other eq here, encloses⟩
  · rw [same _ member]
    exact fits.expr member
  · rw [found] at here
    split at here
    · exact (accepts.procedure _ _ _ (Option.some.inj here)).congr (fun _ => id) (fun _ => id) same
    · exact (fits.procedure here).congr (fun _ => id) (fun _ => id) same

/-- Cells become data all at once, if they refer to each other and to data. -/
theorem Fits.addData (fits : z.Fits s) {new : Set Loc}
    (admits : ∀ q ∈ new, ∃ node, s.node? (.cell q) = some node ∧
      Admits { z with data := z.data ∪ new } node)
    (apart : ∀ q ∈ new, q ∉ z.code) : Fits { z with data := z.data ∪ new } s where
  node member := by
    rcases member with old | new
    · obtain ⟨node, found, admits⟩ := fits.node old
      exact ⟨node, found, admits.mono Set.subset_union_left⟩
    · exact admits _ new
  frame member := by
    obtain ⟨frame, found, scopes⟩ := fits.frame member
    exact ⟨frame, found, scopes.mono Set.subset_union_left (fun _ => id) rfl⟩
  captured := fits.captured
  apart member := member.elim (fun old => fits.apart old) (apart _)
  own := fits.own
  expr := fits.expr
  procedure found := (fits.procedure found).congr (fun _ => id) (fun _ => id) fun _ _ => rfl

theorem Fits.addCode (fits : z.Fits s) {new : Set Loc}
    (expr : ∀ q ∈ new, ∃ node, s.node? (.cell q) = some node ∧ node.isCode = true)
    (apart : ∀ q ∈ new, q ∉ z.data) : Fits { z with code := z.code ∪ new } s where
  node := fits.node
  frame member := by
    obtain ⟨frame, found, scopes⟩ := fits.frame member
    exact ⟨frame, found, scopes.mono (fun _ => id) (fun _ => id) rfl⟩
  captured := fits.captured
  own := fits.own
  apart member := fun inside => inside.elim (fits.apart member) fun new => apart _ new member
  expr member := member.elim (fun old => fits.expr old) (expr _)
  procedure found :=
    (fits.procedure found).congr Set.subset_union_left (fun _ => id) fun _ _ => rfl

theorem Fits.addFrame (fits : z.Fits s) {frame : Frame} (found : s.frame? q = some frame)
    (own : q ∉ z.captured) (scopes : z.Scopes q frame) :
    Fits { z with frames := insert q z.frames } s where
  node := fits.node
  frame member := by
    rcases member with rfl | old
    · exact ⟨frame, found, scopes.mono (fun _ => id) (fun _ => id) rfl⟩
    · obtain ⟨frame', found', scopes'⟩ := fits.frame old
      exact ⟨frame', found', scopes'.mono (fun _ => id) (fun _ => id) rfl⟩
  captured member := by
    obtain ⟨frame', found', encloses⟩ := fits.captured member
    exact ⟨frame', found', encloses.mono (Set.subset_insert _ _)⟩
  apart := fits.apart
  own := by
    rintro p captured (rfl | old)
    · exact own captured
    · exact fits.own captured old
  expr := fits.expr
  procedure found := (fits.procedure found).congr (fun _ => id) (fun _ => id) fun _ _ => rfl

theorem Fits.addCaptured (fits : z.Fits s) {frame : Frame} (found : s.frame? q = some frame)
    (own : q ∉ z.frames) (encloses : z.Encloses q frame) :
    Fits { z with captured := insert q z.captured } s where
  node := fits.node
  frame member := by
    obtain ⟨frame', found', scopes⟩ := fits.frame member
    exact ⟨frame', found', scopes.mono (fun _ => id) (Set.subset_insert _ _) rfl⟩
  captured member := by
    rcases member with rfl | old
    · exact ⟨frame, found, encloses.mono fun _ => id⟩
    · obtain ⟨frame', found', encloses'⟩ := fits.captured old
      exact ⟨frame', found', encloses'.mono fun _ => id⟩
  apart := fits.apart
  own := by
    rintro p (rfl | old)
    · exact own
    · exact fits.own old
  expr := fits.expr
  procedure found :=
    (fits.procedure found).congr (fun _ => id) (Set.subset_insert _ _) fun _ _ => rfl

/-! ### Growing -/

theorem Grows.refl (fits : z.Fits s) : z.Grows s z s :=
  ⟨fits, .refl s, fun _ => id, fun _ => id, rfl, fun _ => id, rfl, fun _ => .inl, fun _ => .inl⟩

theorem Grows.trans (first : z.Grows s z' s') (second : z'.Grows s' z'' s'') :
    z.Grows s z'' s'' where
  fits := second.fits
  extended := first.extended.trans second.extended
  data := first.data.trans second.data
  code := first.code.trans second.code
  frames := second.frames.trans first.frames
  captured := first.captured.trans second.captured
  root := second.root.trans first.root
  newData q member := by
    rcases second.newData q member with old | new
    · exact first.newData q old
    · exact .inr (Nat.le_trans first.extended.size_le new)
  newCode q member := by
    rcases second.newCode q member with old | new
    · exact first.newCode q old
    · exact .inr (Nat.le_trans first.extended.size_le new)

theorem Grows.value (grows : z.Grows s z' s') (value : z.Value r) : z'.Value r :=
  value.mono grows.data

end Zones

end LittleScheme
