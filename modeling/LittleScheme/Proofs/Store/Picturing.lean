import LittleScheme.Proofs.Store.PrintedCopy
import LittleScheme.Proofs.Text.Decimal
import Mathlib.Logic.Relation

/-!
# What is printed

Printing goes along the fields of pairs and keeps the set of the pairs around.  A pair that is met
again below itself is drawn as `{selfref}` and not gone into, so whatever can be reached is met for
the first time somewhere: printing is refused exactly if a scope can be reached.  The mark is drawn
exactly if there is a cycle, since a value that is drawn without it is drawn in full.

Two things keep printing from an end of this kind.  The refusal shows the scope with all frames
outwards, which takes for ever if these go round.  And pairs that are nested deeper, by their first
fields, than the depth that is given are not printed at all.

In list notation, leaves are kept apart by blanks, brackets and dots.  A text without these can be
found in it only inside of a leaf.
-/

namespace LittleScheme

/-! ## Words in list notation -/

section Words

variable {α : Type} {w a b : List α} {x : α}

theorem infix_cons_iff_of_not_mem (apart : x ∉ w) (nonempty : w ≠ []) :
    w <:+: x :: b ↔ w <:+: b := by
  rw [List.infix_cons_iff]
  constructor
  · rintro (front | inside)
    · obtain ⟨y, rest, rfl⟩ := List.exists_cons_of_ne_nil nonempty
      obtain ⟨rfl, -⟩ := List.cons_prefix_cons.1 front
      simp at apart
    · exact inside
  · exact .inr

/-- A word without a certain letter ends in front of it. -/
theorem prefix_append_cons_iff (apart : x ∉ w) : w <+: a ++ x :: b ↔ w <+: a := by
  refine ⟨fun front => ?_, fun front => front.trans (List.prefix_append _ _)⟩
  rcases Nat.lt_or_ge a.length w.length with longer | short
  · have whole : a ++ [x] <+: a ++ x :: b := by simp
    have inside := List.prefix_of_prefix_length_le whole front
      (by rw [List.length_append]; exact longer)
    exact absurd (inside.subset (by simp)) apart
  · exact List.prefix_of_prefix_length_le front (List.prefix_append _ _) short

/-- A word without a certain letter stands on one side of it. -/
theorem infix_append_cons_iff (apart : x ∉ w) (nonempty : w ≠ []) :
    w <:+: a ++ x :: b ↔ w <:+: a ∨ w <:+: x :: b := by
  induction a with
  | nil =>
    have : ¬w <:+: [] := by simpa using nonempty
    simp [this]
  | cons y a ih =>
    have front : w <+: y :: (a ++ x :: b) ↔ w <+: y :: a :=
      prefix_append_cons_iff (a := y :: a) apart
    rw [List.cons_append, List.infix_cons_iff, front, ih, ← or_assoc, ← List.infix_cons_iff]

end Words

namespace Tree

variable {α : Type}

/-- The leaves, from left to right. -/
def leaves : Tree α → List α
  | nil => []
  | leaf value => [value]
  | pair first second => first.leaves ++ second.leaves

/-- How deep the leaves and pairs are nested by first fields. -/
def depth : Tree α → Nat
  | nil => 0
  | leaf _ => 1
  | pair first second => max (first.depth + 1) second.depth

/-- The letters that keep the leaves apart. -/
def separators : List Char := ['(', ')', ' ', '.']

variable {leafChars : α → List Char} {w : List Char}

/-- What follows the first item of a list starts with a separator. -/
theorem exists_restChars_eq_cons (leafChars : α → List Char) (tree : Tree α) :
    ∃ x ∈ separators, ∃ rest, tree.restChars leafChars = x :: rest := by
  cases tree with
  | nil => exact ⟨')', by decide, _, rfl⟩
  | leaf value => exact ⟨' ', by decide, _, rfl⟩
  | pair first second => exact ⟨' ', by decide, _, by rw [restChars]⟩

theorem infix_append_restChars_iff (apart : ∀ x ∈ separators, x ∉ w) (nonempty : w ≠ [])
    (item : List Char) (tree : Tree α) :
    w <:+: item ++ tree.restChars leafChars ↔ w <:+: item ∨ w <:+: tree.restChars leafChars := by
  obtain ⟨x, separator, rest, starts⟩ := tree.exists_restChars_eq_cons leafChars
  rw [starts]
  exact infix_append_cons_iff (apart x separator) nonempty

/-- A word without separators stands in a leaf. -/
theorem infix_chars_iff (apart : ∀ x ∈ separators, x ∉ w) (nonempty : w ≠ []) (tree : Tree α) :
    (w <:+: tree.chars leafChars ↔ ∃ value ∈ tree.leaves, w <:+: leafChars value) ∧
      (w <:+: tree.restChars leafChars ↔ ∃ value ∈ tree.leaves, w <:+: leafChars value) := by
  have skip {x : Char} {b : List Char} (separator : x ∈ separators) : w <:+: x :: b ↔ w <:+: b :=
    infix_cons_iff_of_not_mem (apart x separator) nonempty
  have bracket : ¬w <:+: [')'] := by
    rw [skip (by decide)]
    simpa using nonempty
  induction tree with
  | nil =>
    rw [chars, restChars, skip (by decide)]
    simp [leaves, bracket]
  | leaf value =>
    rw [chars, restChars, skip (by decide), skip (by decide), skip (by decide),
      infix_append_cons_iff (apart ')' (by decide)) nonempty]
    simp [leaves, bracket]
  | pair first second ihFirst ihSecond =>
    rw [chars, restChars, skip (by decide), skip (by decide),
      infix_append_restChars_iff apart nonempty, ihFirst.1, ihSecond.2]
    simp [leaves, or_and_right, exists_or]

end Tree

/-! ## Leaves -/

/-- What a node is drawn as if it has no fields. -/
def Node.mark? : Node → Option Mark
  | .integer value => some (.atom (.integer value))
  | .boolean value => some (.atom (.boolean value))
  | .symbol name => some (.atom (.symbol name))
  | .builtin op => some (.procedure op.tag)
  | .closure _ _ _ => some (.procedure Op.closureTag)
  | .pair _ _ | .environment _ => none

theorem Mark.not_mem_selfReference_chars {x : Char} (separator : x ∈ Tree.separators) :
    x ∉ Mark.chars .selfReference := by
  simp only [Tree.separators, List.mem_cons, List.not_mem_nil, or_false] at separator
  rcases separator with rfl | rfl | rfl | rfl <;> decide

/-- Only symbols are drawn with braces. -/
theorem Node.exists_symbol_of_mem {node : Node} {mark : Mark} (drawn : node.mark? = some mark)
    (brace : '\x7b' ∈ mark.chars) : ∃ name, node = .symbol name ∧ mark.chars = name.toList := by
  cases node with
  | symbol name =>
    cases drawn
    exact ⟨name, rfl, rfl⟩
  | integer value =>
    cases drawn
    have digits {n : Nat} : '\x7b' ∉ Nat.toDigits 10 n := fun member =>
      absurd (Text.isDigit_of_mem_toDigits member) (by decide)
    cases value with
    | ofNat n => exact absurd brace digits
    | negSucc n =>
      rcases List.mem_cons.1 brace with sign | digit
      · exact absurd sign (by decide)
      · exact absurd digit digits
  | boolean value =>
    cases drawn
    cases value <;> exact absurd brace (by decide)
  | builtin op =>
    cases drawn
    have plain : '\x7b' ∉ op.tag.toList := by
      cases op with
      | form f => cases f <;> decide +kernel
      | primitive p => cases p <;> decide +kernel
    exact absurd brace plain
  | closure params body env =>
    cases drawn
    exact absurd brace (by decide +kernel)
  | pair first second => cases drawn
  | environment frame => cases drawn

namespace Store

/-! ## Ways through pairs -/

/-- The second reference is a field of the pair that the first one leads to. -/
inductive Links (s : Store) : Ref → Ref → Prop
  | first {r first second : Ref} (found : s.node? r = some (.pair first second)) : s.Links r first
  | second {r first second : Ref} (found : s.node? r = some (.pair first second)) :
    s.Links r second

/-- One value can be reached from another along fields of pairs. -/
def Leads (s : Store) : Ref → Ref → Prop := Relation.ReflTransGen s.Links

/-- A pair lies on a cycle of fields. -/
def Loops (s : Store) (r : Ref) : Prop := Relation.TransGen s.Links r r

/-- The value written out as a tree: nothing is kept track of, and what is shared stands wherever it
occurs. -/
inductive Unfolds (s : Store) : Ref → Picture → Prop
  | empty {r : Ref} (found : s.node? r = none) : s.Unfolds r .nil
  | mark {r : Ref} {node : Node} {mark : Mark} (found : s.node? r = some node)
    (drawn : node.mark? = some mark) : s.Unfolds r (.leaf mark)
  | pair {r first second : Ref} {left right : Picture}
    (found : s.node? r = some (.pair first second)) (unfolds : s.Unfolds first left)
    (unfolds' : s.Unfolds second right) : s.Unfolds r (.pair left right)

/-- The text is the plain list notation of the value. -/
def Writes (s : Store) (r : Ref) (text : String) : Prop :=
  ∃ picture, s.Unfolds r picture ∧ Picture.text picture = text

/-- What is drawn for a value below the pairs of a path. -/
inductive Pictures (s : Store) : Std.TreeSet Loc → Ref → Picture → Prop
  | empty {path : Std.TreeSet Loc} {r : Ref} (found : s.node? r = none) : s.Pictures path r .nil
  | mark {path : Std.TreeSet Loc} {r : Ref} {node : Node} {mark : Mark}
    (found : s.node? r = some node) (drawn : node.mark? = some mark) :
    s.Pictures path r (.leaf mark)
  | back {path : Std.TreeSet Loc} {loc : Loc} {first second : Ref}
    (found : s.node? (.cell loc) = some (.pair first second)) (around : loc ∈ path) :
    s.Pictures path (.cell loc) (.leaf .selfReference)
  | pair {path : Std.TreeSet Loc} {loc : Loc} {first second : Ref} {left right : Picture}
    (found : s.node? (.cell loc) = some (.pair first second)) (fresh : loc ∉ path)
    (below : s.Pictures (path.insert loc) first left)
    (below' : s.Pictures (path.insert loc) second right) :
    s.Pictures path (.cell loc) (.pair left right)

variable {s : Store} {r r' q : Ref} {path : Std.TreeSet Loc} {picture picture' : Picture}

theorem Links.exists_pair (link : s.Links r r') :
    ∃ first second, s.node? r = some (.pair first second) ∧ (r' = first ∨ r' = second) := by
  cases link with
  | first found => exact ⟨_, _, found, .inl rfl⟩
  | second found => exact ⟨_, _, found, .inr rfl⟩

theorem not_links_of_empty (found : s.node? r = none) (r' : Ref) : ¬s.Links r r' := by
  intro link
  obtain ⟨first, second, found', -⟩ := link.exists_pair
  rw [found] at found'
  cases found'

theorem not_links_of_mark {node : Node} {mark : Mark} (found : s.node? r = some node)
    (drawn : node.mark? = some mark) (r' : Ref) : ¬s.Links r r' := by
  intro link
  obtain ⟨first, second, found', -⟩ := link.exists_pair
  rw [found, Option.some.injEq] at found'
  subst found'
  cases drawn

theorem links_pair {first second : Ref} (found : s.node? r = some (.pair first second)) :
    s.Links r r' ↔ r' = first ∨ r' = second := by
  constructor
  · intro link
    obtain ⟨first', second', found', field⟩ := link.exists_pair
    rw [found, Option.some.injEq, Node.pair.injEq] at found'
    obtain ⟨rfl, rfl⟩ := found'
    exact field
  · rintro (rfl | rfl)
    · exact .first found
    · exact .second found

/-- A value is written out in one way at most. -/
theorem Unfolds.unique (unfolds : s.Unfolds r picture) (unfolds' : s.Unfolds r picture') :
    picture = picture' := by
  induction unfolds generalizing picture' with
  | empty found =>
    cases unfolds' with
    | empty => rfl
    | mark found' | pair found' =>
      rw [found] at found'
      cases found'
  | mark found drawn =>
    cases unfolds' with
    | empty found' =>
      rw [found] at found'
      cases found'
    | mark found' drawn' =>
      rw [found, Option.some.injEq] at found'
      subst found'
      rw [drawn, Option.some.injEq] at drawn'
      rw [drawn']
    | pair found' =>
      rw [found, Option.some.injEq] at found'
      subst found'
      cases drawn
  | pair found _ _ ihLeft ihRight =>
    cases unfolds' with
    | empty found' =>
      rw [found] at found'
      cases found'
    | mark found' drawn' =>
      rw [found, Option.some.injEq] at found'
      subst found'
      cases drawn'
    | pair found' left' right' =>
      rw [found, Option.some.injEq, Node.pair.injEq] at found'
      obtain ⟨rfl, rfl⟩ := found'
      rw [ihLeft left', ihRight right']

theorem eq_of_stuck {links : Ref → Ref → Prop} (stuck : ∀ r', ¬links r r')
    (way : Relation.ReflTransGen links r q) : q = r := by
  rcases way.cases_head with same | ⟨r', step, -⟩
  · exact same.symm
  · exact absurd step (stuck r')

/-- What can be written out in full leads to no scope. -/
theorem Unfolds.node?_ne_environment (unfolds : s.Unfolds r picture) (leads : s.Leads r q)
    (frame : Frame) : s.node? q ≠ some (.environment frame) := by
  induction unfolds with
  | empty found =>
    rw [eq_of_stuck (not_links_of_empty found) leads, found]
    simp
  | mark found drawn =>
    rw [eq_of_stuck (not_links_of_mark found drawn) leads, found]
    rintro ⟨⟩
    cases drawn
  | pair found _ _ ihLeft ihRight =>
    rcases leads.cases_head with rfl | ⟨r', link, rest⟩
    · simp [found]
    · rcases (links_pair found).1 link with rfl | rfl
      · exact ihLeft rest
      · exact ihRight rest

/-- A value that stands for a datum is written out as the datum is. -/
theorem Laid.unfolds {d : Datum} {cells : List Loc} (laid : s.Laid r d cells) :
    s.Unfolds r (d.map .atom) := by
  induction laid with
  | nil => exact .empty rfl
  | @leaf loc a found =>
    refine .mark found ?_
    cases a <;> rfl
  | pair found _ _ ihLeft ihRight => exact .pair found ihLeft ihRight

/-! ## How drawing ends -/

/-- Drawing ends with a picture, which is not deeper than the given depth, at a scope that can be
reached, or when the depth is used up. -/
theorem pictureFrom_cases (s : Store) (fuel depth : Nat) (path : Std.TreeSet Loc) (r : Ref) :
    (∃ picture, s.pictureFrom fuel depth path r = .ok picture ∧ s.Pictures path r picture ∧
        picture.depth ≤ depth) ∨
      (∃ env frame, s.Leads r (.cell env) ∧ s.node? (.cell env) = some (.environment frame) ∧
        s.pictureFrom fuel depth path r = s.refusal env) ∨
      s.pictureFrom fuel depth path r = .error .tooDeep := by
  induction fuel generalizing depth path r with
  | zero =>
    cases r with
    | nil => exact .inl ⟨.nil, by simp [pictureFrom], .empty rfl, Nat.zero_le _⟩
    | cell loc => exact .inr (.inr (by simp [pictureFrom]))
  | succ fuel ih =>
    cases r with
    | nil => exact .inl ⟨.nil, by simp [pictureFrom], .empty rfl, Nat.zero_le _⟩
    | cell loc =>
      cases depth with
      | zero => exact .inr (.inr (by simp [pictureFrom]))
      | succ depth =>
        have leaf : 1 ≤ depth + 1 := Nat.le_add_left 1 depth
        cases found : s.node? (.cell loc) with
        | none => exact .inl ⟨.nil, by simp [pictureFrom, found], .empty found, Nat.zero_le _⟩
        | some node =>
          cases node with
          | environment frame =>
            exact .inr (.inl ⟨loc, frame, .refl, found, by simp [pictureFrom, found, refusal]⟩)
          | integer _ | boolean _ | symbol _ | builtin _ | closure _ _ _ =>
            exact .inl ⟨_, by simp [pictureFrom, found], .mark found rfl, leaf⟩
          | pair first second =>
            by_cases around : loc ∈ path
            · exact .inl ⟨_, by simp [pictureFrom, found, around], .back found around, leaf⟩
            · rw [pictureFrom_pair found around]
              rcases ih depth (path.insert loc) first with
                ⟨left, drawn, below, small⟩ | ⟨env, frame, leads, here, refused⟩ | exceeded
              · rcases ih (depth + 1) (path.insert loc) second with
                  ⟨right, drawn', below', small'⟩ | ⟨env, frame, leads, here, refused⟩ | exceeded
                · exact .inl ⟨.pair left right, by rw [drawn, drawn']; rfl,
                    .pair found around below below', Nat.max_le.2 ⟨Nat.succ_le_succ small, small'⟩⟩
                · refine .inr (.inl ⟨env, frame, .head (.second found) leads, here, ?_⟩)
                  rw [drawn, refused]
                  rfl
                · exact .inr (.inr (by rw [drawn, exceeded]; rfl))
              · refine .inr (.inl ⟨env, frame, .head (.first found) leads, here, ?_⟩)
                rw [refused]
                rfl
              · exact .inr (.inr (by rw [exceeded]; rfl))

/-! ## Scopes -/

/-- A field of a pair that is not one of the path. -/
def LinksOff (s : Store) (path : Std.TreeSet Loc) (r r' : Ref) : Prop :=
  s.Links r r' ∧ ∀ loc ∈ path, r ≠ .cell loc

/-- A way from a pair goes, after it has been at the pair for the last time, from one of the fields
on and not through the pair. -/
theorem exists_linksOff_insert {loc : Loc}
    (way : Relation.ReflTransGen (s.LinksOff path) (.cell loc) q) :
    q = .cell loc ∨ ∃ r, s.Links (.cell loc) r ∧
      Relation.ReflTransGen (s.LinksOff (path.insert loc)) r q := by
  induction way with
  | refl => exact .inl rfl
  | @tail b c _ step ih =>
    obtain ⟨link, off⟩ := step
    by_cases here : b = .cell loc
    · exact .inr ⟨c, here ▸ link, .refl⟩
    · rcases ih with same | ⟨r, first, rest⟩
      · exact absurd same here
      · refine .inr ⟨r, first, rest.tail ⟨link, ?_⟩⟩
        intro loc' member
        rw [Std.TreeSet.mem_insert, Std.LawfulEqCmp.compare_eq_iff_eq] at member
        rcases member with rfl | before
        · exact here
        · exact off loc' before

-- The induction is on the picture.  What is drawn below a pair is all that can be reached from its
-- fields without going through it, or through the pairs around, again.
theorem Pictures.node?_ne_environment (pictures : s.Pictures path r picture)
    (way : Relation.ReflTransGen (s.LinksOff path) r q) (frame : Frame) :
    s.node? q ≠ some (.environment frame) := by
  induction pictures with
  | empty found =>
    rw [eq_of_stuck (fun r' step => not_links_of_empty found r' step.1) way, found]
    simp
  | mark found drawn =>
    rw [eq_of_stuck (fun r' step => not_links_of_mark found drawn r' step.1) way, found]
    rintro ⟨⟩
    cases drawn
  | @back path loc first second found around =>
    rw [eq_of_stuck (fun r' step => step.2 loc around rfl) way, found]
    simp
  | @pair path loc first second left right found fresh _ _ ihLeft ihRight =>
    rcases exists_linksOff_insert way with rfl | ⟨r, link, rest⟩
    · simp [found]
    · rcases (links_pair found).1 link with rfl | rfl
      · exact ihLeft rest
      · exact ihRight rest

/-! ## Cycles -/

/-- What is drawn without the mark is drawn in full. -/
theorem Pictures.unfolds (pictures : s.Pictures path r picture)
    (unmarked : .selfReference ∉ picture.leaves) : s.Unfolds r picture := by
  induction pictures with
  | empty found => exact .empty found
  | mark found drawn => exact .mark found drawn
  | back => simp [Tree.leaves] at unmarked
  | pair found _ _ _ ihLeft ihRight =>
    rw [Tree.leaves, List.mem_append, not_or] at unmarked
    exact .pair found (ihLeft unmarked.1) (ihRight unmarked.2)

/-- On the way to a cycle, and along it, there is always a field to go on with. -/
theorem exists_link_of_loops (leads : s.Leads r q) (loops : s.Loops q) :
    ∃ r', s.Links r r' ∧ s.Leads r' q := by
  rcases Relation.ReflTransGen.cases_head leads with rfl | step
  · exact Relation.TransGen.head'_iff.1 loops
  · exact step

/-- What can be written out in full leads to no cycle. -/
theorem Unfolds.not_loops (unfolds : s.Unfolds r picture) (leads : s.Leads r q) : ¬s.Loops q := by
  intro loops
  induction unfolds with
  | empty found =>
    obtain ⟨r', link, -⟩ := exists_link_of_loops leads loops
    exact not_links_of_empty found r' link
  | mark found drawn =>
    obtain ⟨r', link, -⟩ := exists_link_of_loops leads loops
    exact not_links_of_mark found drawn r' link
  | pair found _ _ ihLeft ihRight =>
    obtain ⟨r', link, rest⟩ := exists_link_of_loops leads loops
    rcases (links_pair found).1 link with rfl | rfl
    · exact ihLeft rest
    · exact ihRight rest

/-- The mark stands for a pair around that leads to itself. -/
theorem Pictures.exists_loops (pictures : s.Pictures path r picture)
    (around : ∀ loc ∈ path, Relation.TransGen s.Links (.cell loc) r)
    (marked : .selfReference ∈ picture.leaves) : ∃ q, s.Leads r q ∧ s.Loops q := by
  induction pictures with
  | empty => simp [Tree.leaves] at marked
  | @mark _ _ node _ found drawn =>
    obtain rfl := List.mem_singleton.1 marked
    cases node <;> simp [Node.mark?] at drawn
  | @back path loc _ _ found member => exact ⟨.cell loc, .refl, around loc member⟩
  | @pair path loc first second _ _ found _ _ _ ihLeft ihRight =>
    have below {field : Ref} (link : s.Links (.cell loc) field) :
        ∀ loc' ∈ path.insert loc, Relation.TransGen s.Links (.cell loc') field := by
      intro loc' member
      rw [Std.TreeSet.mem_insert, Std.LawfulEqCmp.compare_eq_iff_eq] at member
      rcases member with rfl | before
      · exact .single link
      · exact (around loc' before).tail link
    rcases List.mem_append.1 marked with left | right
    · obtain ⟨q, leads, loops⟩ := ihLeft (below (.first found)) left
      exact ⟨q, .head (.first found) leads, loops⟩
    · obtain ⟨q, leads, loops⟩ := ihRight (below (.second found)) right
      exact ⟨q, .head (.second found) leads, loops⟩

/-- The mark is drawn for cycles and for nothing else. -/
theorem Pictures.selfReference_mem_leaves_iff (pictures : s.Pictures ∅ r picture) :
    .selfReference ∈ picture.leaves ↔ ∃ q, s.Leads r q ∧ s.Loops q := by
  refine ⟨pictures.exists_loops (by simp), ?_⟩
  rintro ⟨q, leads, loops⟩
  by_contra unmarked
  exact (pictures.unfolds unmarked).not_loops leads loops

/-! ## The mark in the text -/

/-- The other leaves are values that can be reached. -/
theorem Pictures.exists_mark (pictures : s.Pictures path r picture) {mark : Mark}
    (member : mark ∈ picture.leaves) : mark = .selfReference ∨
      ∃ q node, s.Leads r q ∧ s.node? q = some node ∧ node.mark? = some mark := by
  induction pictures with
  | empty => simp [Tree.leaves] at member
  | mark found drawn =>
    obtain rfl := List.mem_singleton.1 member
    exact .inr ⟨_, _, .refl, found, drawn⟩
  | back => exact .inl (List.mem_singleton.1 member)
  | pair found _ _ _ ihLeft ihRight =>
    rcases List.mem_append.1 member with left | right
    · refine (ihLeft left).imp_right ?_
      rintro ⟨q, node, leads, found', drawn⟩
      exact ⟨q, node, .head (.first found) leads, found', drawn⟩
    · refine (ihRight right).imp_right ?_
      rintro ⟨q, node, leads, found', drawn⟩
      exact ⟨q, node, .head (.second found) leads, found', drawn⟩

/-- If no symbol is written with it, the text has the mark where the picture has it. -/
theorem Pictures.selfReference_infix_iff (pictures : s.Pictures ∅ r picture)
    (other : ∀ q name, s.Leads r q → s.node? q = some (.symbol name) →
      ¬Mark.chars .selfReference <:+: name.toList) :
    Mark.chars .selfReference <:+: picture.chars Mark.chars ↔
      .selfReference ∈ picture.leaves := by
  have apart : ∀ x ∈ Tree.separators, x ∉ Mark.chars .selfReference :=
    fun _ => Mark.not_mem_selfReference_chars
  rw [(Tree.infix_chars_iff apart (by decide) picture).1]
  constructor
  · rintro ⟨mark, member, inside⟩
    rcases pictures.exists_mark member with rfl | ⟨q, node, leads, found, drawn⟩
    · exact member
    · have brace : '\x7b' ∈ mark.chars := inside.subset (by decide)
      obtain ⟨name, rfl, same⟩ := Node.exists_symbol_of_mem drawn brace
      exact absurd (same ▸ inside) (other q name leads found)
  · intro member
    exact ⟨.selfReference, member, List.infix_refl _⟩

/-! ## Printed values -/

/-- A scope can be reached along fields of pairs. -/
def MeetsScope (s : Store) (r : Ref) : Prop :=
  ∃ q frame, s.Leads r q ∧ s.node? q = some (.environment frame)

/-- A pair on a cycle can be reached along fields of pairs. -/
def MeetsCycle (s : Store) (r : Ref) : Prop := ∃ q, s.Leads r q ∧ s.Loops q

theorem Pictures.not_meetsScope (pictures : s.Pictures ∅ r picture) : ¬s.MeetsScope r := by
  rintro ⟨q, frame, leads, found⟩
  have way : Relation.ReflTransGen (s.LinksOff ∅) r q :=
    Relation.ReflTransGen.mono (fun _ _ link => ⟨link, by simp⟩) _ _ leads
  exact pictures.node?_ne_environment way frame found

/-- If there is no cycle, the text is the plain list notation and no other. -/
theorem Pictures.writes_iff (pictures : s.Pictures ∅ r picture) (straight : ¬s.MeetsCycle r)
    (text : String) : s.Writes r text ↔ text = Picture.text picture := by
  have unfolds : s.Unfolds r picture :=
    pictures.unfolds fun marked => straight (pictures.selfReference_mem_leaves_iff.1 marked)
  constructor
  · rintro ⟨picture', unfolds', rfl⟩
    rw [unfolds.unique unfolds']
  · rintro rfl
    exact ⟨picture, unfolds, rfl⟩

/-- Printing ends with the text of a picture, at a scope, or when the depth is used up. -/
theorem render_cases (s : Store) (depth : Nat) (r : Ref) :
    (∃ picture, s.render depth r = .ok (Picture.text picture) ∧ s.Pictures ∅ r picture ∧
        picture.depth ≤ depth) ∨
      (∃ env frame, s.Leads r (.cell env) ∧ s.node? (.cell env) = some (.environment frame) ∧
        s.render depth r = s.refusal env) ∨
      s.render depth r = .error .tooDeep := by
  rw [render, picture]
  rcases s.pictureFrom_cases (s.size + 1) depth ∅ r with
    ⟨picture, drawn, pictures, small⟩ | ⟨env, frame, leads, found, refused⟩ | exceeded
  · exact .inl ⟨picture, by rw [drawn]; rfl, pictures, small⟩
  · exact .inr (.inl ⟨env, frame, leads, found, by rw [refused]; rfl⟩)
  · exact .inr (.inr (by rw [exceeded]; rfl))

/-- **What is printed.**  The frames around the scopes that can be reached do not lie inside of
themselves.

`render` comes to an end, and the number of cells is depth enough for it.  Unless the depth is
exceeded, it fails with a runtime error exactly if a scope can be reached.  The text has `{selfref}`
in it exactly if there is a cycle, symbols that are written with it apart; without a cycle it is the
plain list notation. -/
theorem render_laws (s : Store) (r : Ref)
    (acyclic : ∀ env q, s.Leads r (.cell env) → Relation.ReflTransGen s.Inside env q →
      ¬Relation.TransGen s.Inside q q) :
    (∀ depth, s.render depth r ≠ .error .endless) ∧
    (∀ depth, s.size < depth → s.render depth r ≠ .error .tooDeep) ∧
    ∀ depth, s.render depth r ≠ .error .tooDeep →
      ((∃ e, s.render depth r = .error (.error e) ∧ e.category = .runtime) ↔ s.MeetsScope r) ∧
      ((∃ text, s.render depth r = .ok text) ↔ ¬s.MeetsScope r) ∧
      ∀ text, s.render depth r = .ok text →
        ((∀ q name, s.Leads r q → s.node? q = some (.symbol name) →
            ¬Mark.chars .selfReference <:+: name.toList) →
          (Mark.chars .selfReference <:+: text.toList ↔ s.MeetsCycle r)) ∧
        (¬s.MeetsCycle r → ∀ text', s.Writes r text' ↔ text' = text) := by
  have told {env : Loc} {frame : Frame} (leads : s.Leads r (.cell env))
      (found : s.node? (.cell env) = some (.environment frame)) :
      (s.refusal env : Except Fault String) =
        .error (.error (.cannotPrint (s.scopeSummary env))) := by
    rw [refusal, objection_frame found,
      isEndless_eq_false_of_acyclic fun q way => acyclic env q leads way]
    rfl
  refine ⟨fun depth => ?_, fun depth deep => render_ne_tooDeep deep r, fun depth shallow => ?_⟩
  · rcases s.render_cases depth r with
      ⟨picture, shown, -⟩ | ⟨env, frame, leads, found, refused⟩ | exceeded
    · simp [shown]
    · simp [refused, told leads found]
    · simp [exceeded]
  · rcases s.render_cases depth r with
      ⟨picture, shown, pictures, -⟩ | ⟨env, frame, leads, found, refused⟩ | exceeded
    · simp only [shown]
      refine ⟨by simp [pictures.not_meetsScope], by simp [pictures.not_meetsScope], ?_⟩
      rintro _ ⟨⟩
      refine ⟨fun other => ?_, pictures.writes_iff⟩
      rw [Picture.text, String.toList_ofList, pictures.selfReference_infix_iff other]
      exact pictures.selfReference_mem_leaves_iff
    · have meets : s.MeetsScope r := ⟨_, frame, leads, found⟩
      rw [refused, told leads found]
      refine ⟨by simp [meets, Error.category], by simp [meets], ?_⟩
      rintro _ ⟨⟩
    · exact absurd exceeded shallow

/-- A pair that stands first in its own rest: the text gives the cycle away.  A list with a scope in
it, and a frame around that: the error shows both frames. -/
theorem render_laws_ring :
    let s : Store :=
      { cells := #[{ node := .symbol "a" }, { node := .pair (.cell 0) (.cell 2) },
          { node := .pair (.cell 1) .nil }, { node := .environment {} },
          { node := .environment { bindings := [("x", .cell 0)], outer := some 3 } },
          { node := .pair (.cell 4) .nil }] }
    (s.render 4 (.cell 1) = .ok "(a \x7bselfref\x7d)" ∧ s.MeetsCycle (.cell 1) ∧
        ¬s.MeetsScope (.cell 1)) ∧
      s.render 4 (.cell 5) =
        .error (.error (.cannotPrint "<Environment chain: \x7bx\x7d -> \x7b\x7d>")) ∧
      s.MeetsScope (.cell 5) := by
  intro s
  have inside {env outer : Loc} (link : s.Inside env outer) : env = 4 ∧ outer = 3 := by
    obtain ⟨frame, found, around⟩ := link
    match env with
    | 3 =>
      cases found
      cases around
    | 4 =>
      cases found
      cases around
      exact ⟨rfl, rfl⟩
    | 0 | 1 | 2 | 5 => cases found
    | loc + 6 =>
      have exist : loc + 6 < 6 := lt_size (frame?_eq_some.1 found)
      exact absurd exist (Nat.not_lt.2 (Nat.le_add_left _ _))
  have acyclic (q : Loc) : ¬Relation.TransGen s.Inside q q := by
    intro around
    obtain ⟨next, link, -⟩ := Relation.TransGen.head'_iff.1 around
    obtain ⟨last, -, link'⟩ := Relation.TransGen.tail'_iff.1 around
    exact absurd ((inside link).1.symm.trans (inside link').2) (by decide)
  have shown : s.render 4 (.cell 1) = .ok "(a \x7bselfref\x7d)" := by decide +kernel
  have refused : s.render 4 (.cell 5) =
      .error (.error (.cannotPrint "<Environment chain: \x7bx\x7d -> \x7b\x7d>")) := by
    decide +kernel
  obtain ⟨-, -, laws⟩ := render_laws s (.cell 1) fun _ q _ _ => acyclic q
  obtain ⟨-, -, laws'⟩ := render_laws s (.cell 5) fun _ q _ _ => acyclic q
  obtain ⟨-, printed, marked⟩ := laws 4 (by simp [shown])
  obtain ⟨scope, -⟩ := laws' 4 (by simp [refused])
  have other : ∀ q name, s.Leads (.cell 1) q → s.node? q = some (.symbol name) →
      ¬Mark.chars .selfReference <:+: name.toList := by
    intro q name _ found
    match q with
    | .nil => cases found
    | .cell 0 =>
      cases found
      decide +kernel
    | .cell 1 | .cell 2 | .cell 3 | .cell 4 | .cell 5 => cases found
    | .cell (loc + 6) =>
      have exist : loc + 6 < 6 := lt_size found
      exact absurd exist (Nat.not_lt.2 (Nat.le_add_left _ _))
  exact ⟨⟨shown, ((marked _ shown).1 other).1 (by decide +kernel), printed.1 ⟨_, shown⟩⟩, refused,
    scope.1 ⟨_, refused, rfl⟩⟩

/-- Pairs that are nested too deep for the given depth are not printed. -/
theorem Unfolds.render_eq_tooDeep (unfolds : s.Unfolds r picture) {depth : Nat}
    (deep : depth < picture.depth) : s.render depth r = .error .tooDeep := by
  rcases s.render_cases depth r with
    ⟨picture', -, pictures, small⟩ | ⟨env, frame, leads, found, -⟩ | exceeded
  · have straight : .selfReference ∉ picture'.leaves := fun marked => by
      obtain ⟨q, leads, loops⟩ := pictures.selfReference_mem_leaves_iff.1 marked
      exact unfolds.not_loops leads loops
    rw [(pictures.unfolds straight).unique unfolds] at small
    exact absurd deep (Nat.not_lt.2 small)
  · exact absurd found (unfolds.node?_ne_environment leads frame)
  · exact exceeded

/-- Quotes in front of each other nest as deep as there are. -/
theorem le_depth_quotes (n : Nat) (d : Datum) :
    n ≤ ((Datum.quote^[n] d).map Mark.atom).depth := by
  induction n with
  | zero => exact Nat.zero_le _
  | succ n ih =>
    rw [Function.iterate_succ_apply']
    simp only [Datum.quote, Tree.map, Tree.depth]
    omega

/-- Where frames go round, printing neither ends nor fails with an error: a frame that lies inside
of itself.  And where there is neither a scope nor a cycle, depth may be lacking: 5000, which is
what sessions with the usual limit have, is not enough for a symbol behind 7000 quotes. -/
theorem render_laws_unbounded :
    let ring : Store := { cells := #[{ node := .environment { outer := some 0 } }] }
    (ring.MeetsScope (.cell 0) ∧
        ∀ depth, ring.render (depth + 1) (.cell 0) = .error .endless) ∧
      ∃ r s, build (Datum.quote^[7000] (.leaf (.symbol "x"))) {} = .ok r s ∧ ¬s.MeetsScope r ∧
        ¬s.MeetsCycle r ∧ s.render 5000 r = .error .tooDeep := by
  intro ring
  refine ⟨?_, ?_⟩
  · have found : ring.node? (.cell 0) = some (.environment { outer := some 0 }) := rfl
    refine ⟨⟨.cell 0, _, .refl, found⟩, fun depth => ?_⟩
    have objection : ring.objection .cannotPrint (.cell 0) = .endless := by
      rw [objection_frame found]
      decide
    rw [render, picture, pictureFrom, found]
    exact congrArg Except.error objection
  · obtain ⟨r, s, cells, made, laid, -⟩ :=
      build_laid (Datum.quote^[7000] (.leaf (.symbol "x"))) {}
    refine ⟨r, s, made, ?_, ?_, ?_⟩
    · rintro ⟨q, frame, leads, found⟩
      exact laid.unfolds.node?_ne_environment leads frame found
    · rintro ⟨q, leads, loops⟩
      exact laid.unfolds.not_loops leads loops
    · exact laid.unfolds.render_eq_tooDeep
        (Nat.lt_of_lt_of_le (by decide) (le_depth_quotes 7000 (.leaf (.symbol "x"))))

end Store

end LittleScheme
