import LittleScheme.Proofs.Store.Origin
import Mathlib.Algebra.Order.Group.Nat
import Mathlib.Algebra.Order.Interval.Set.Monoid

/-!
# Copies of copies

The first copy of a value may have many more cells than the value, since what is shared is copied
once for each way to it.  A copy shares nothing: each of its cells is met on one path only, and
apart from that its references lead back, to cells whose copies are under way when it is copied in
turn.  So a copy of the copy is made cell by cell as the copy was (`Recopies`), and it lies in the
store as the copy does, a constant number of cells further on (`Store.Twins`).
-/

namespace LittleScheme

/-! ## The copy of a cell -/

namespace Node

/-- What the cell of a copy holds as long as its contents are copied. -/
def blank : Node → Node
  | .pair _ _ => .pair .nil .nil
  | .environment frame => .environment { frame with bindings := [] }
  | .closure _ _ _ => .closure [] [] none
  | node => node

/-- Copy what a node refers to; there is a way of its own for the second field of a pair. -/
def copyContents (copy copySecond : Ref → StoreM Ref) : Node → StoreM Node
  | .pair first second => do
    let first ← copy first
    let second ← copySecond second
    return .pair first second
  | .environment frame => do
    let bindings ← copyBindings copy frame.bindings
    return .environment { frame with bindings }
  | .closure params body env => do
    let code ← copyParts copy params body
    let env ← copyCaptured copy env
    return .closure code.1 code.2 env
  | node => return node

end Node

theorem make_eq_construct (node : Node) : make node = construct node fun _ => pure node := by
  funext s
  change EStateM.Result.ok (Ref.cell s.size) (s.register node) =
    .ok (.cell s.size) ((s.register node).write s.size node)
  rw [s.write_register]

theorem copyFrom_nil (fuel depth : Nat) (active : Active) :
    copyFrom fuel depth active .nil = pure .nil := by
  rw [copyFrom]

theorem copyFrom_back {active : Active} {loc copy : Loc} (under : active[loc]? = some copy)
    (fuel depth : Nat) :
    copyFrom (fuel + 1) (depth + 1) active (.cell loc) = pure (.cell copy) := by
  rw [copyFrom, under]

/-- All cells are copied in the same manner. -/
theorem copyFrom_cell {active : Active} {loc : Loc} {t : Store} {node : Node}
    (apart : active[loc]? = none) (found : t.node? (.cell loc) = some node) (fuel depth : Nat) :
    copyFrom (fuel + 1) (depth + 1) active (.cell loc) t =
      construct node.blank (fun copy => node.copyContents
        (copyFrom fuel depth (active.insert loc copy))
        (copyFrom fuel (depth + 1) (active.insert loc copy))) t := by
  have looked : look (.cell loc) t = .ok (some node) t := by rw [← found]; rfl
  rw [copyFrom, apart]
  refine (StoreM.bind_ok looked _).trans ?_
  cases node with
  | pair first second => exact congrFun (copyPair_eq _ _ first second) t
  | environment frame => exact congrFun (copyFrame_eq _ frame) t
  | closure params body env => exact congrFun (copyClosure_eq _ params body env) t
  | integer | boolean | symbol | builtin => exact congrFun (make_eq_construct _) t

/-! ## Doing it again -/

/-- Where the references into the cells from `lo` up to `hi` are sent to. -/
inductive Sends (φ : Loc → Loc) (lo hi : Nat) : Ref → Ref → Prop
  | nil : Sends φ lo hi .nil .nil
  | cell {q : Nat} (since : lo ≤ q) (made : q < hi) : Sends φ lo hi (.cell q) (.cell (φ q))

/-- What has been added from `t` to `u` is still in `t'`. -/
def Store.Retains (t u t' : Store) : Prop :=
  ∀ (q : Nat) (node : Node), t.size ≤ q → u.node? (.cell q) = some node →
    t'.node? (.cell q) = some node

/-- What has been added from `t` to `u` is added once more from `t'` to `u'`, `k` cells further on;
the references into the cells from `base` up to `top` are sent there. -/
structure Repeats (k base top : Nat) (t u t' u' : Store) : Prop where
  extended : t'.Extended u'
  size : u'.size = u.size + k
  nodes : ∀ q : Nat, t.size ≤ q → q < u.size → ∃ node node', u.node? (.cell q) = some node ∧
    u'.node? (.cell (q + k)) = some node' ∧ node.Matches (Sends (· + k) base top) node'

/-- Whatever `first` makes from `t` on can be made once more, by doing `again` to the result. -/
structure Recopies (k base top : Nat) {α : Type} (first : StoreM α) (again : α → StoreM α)
    (related : α → α → Prop) (t : Store) : Prop where
  extended : ∀ {a u}, first t = .ok a u → t.Extended u
  repeats : ∀ {a u t'}, first t = .ok a u → u.size ≤ top → t'.size = t.size + k →
    t.Retains u t' → ∃ b u', again a t' = .ok b u' ∧ related a b ∧ Repeats k base top t u t' u'

variable {k base top : Nat} {t t' u u' v v' : Store} {α β γ : Type}

theorem Store.Extended.lt_size_of_register {blank : Node}
    (extended : (t.register blank).Extended u) : t.size < u.size := by
  have := extended.size_le
  rw [Store.size_register] at this
  omega

theorem Repeats.trans (first : Repeats k base top t u t' u') (second : Repeats k base top u v u' v')
    (extended : u.Extended v) : Repeats k base top t v t' v' where
  extended := first.extended.trans second.extended
  size := second.size
  nodes q since made := by
    rcases Nat.lt_or_ge q u.size with earlier | later
    · obtain ⟨node, node', found, found', alike⟩ := first.nodes q since earlier
      exact ⟨node, node', extended.node? found, second.extended.node? found', alike⟩
    · exact second.nodes q later made

/-- The cells of a copy are filled in the end. -/
theorem Repeats.fill {blank blank' node node' : Node}
    (below : Repeats k base top (t.register blank) u (t'.register blank') u')
    (extended : (t.register blank).Extended u) (size : t'.size = t.size + k)
    (alike : node.Matches (Sends (· + k) base top) node') :
    Repeats k base top t (u.write t.size node) t' (u'.write t'.size node') := by
  have exist := extended.lt_size_of_register
  have exist' := below.extended.lt_size_of_register
  refine ⟨((t'.extended_register blank').trans below.extended).write (Nat.le_refl _) node', ?_, ?_⟩
  · simpa using below.size
  · intro q since made
    rw [Store.size_write] at made
    rw [u.node?_write exist, u'.node?_write exist', size]
    rcases Nat.eq_or_lt_of_le since with rfl | later
    · exact ⟨node, node', if_pos rfl, if_pos rfl, alike⟩
    · have other : q ≠ t.size := Nat.ne_of_gt later
      have other' : q + k ≠ t.size + k := by omega
      rw [if_neg (by simpa using other), if_neg (by simpa using other')]
      exact below.nodes q (by rwa [Store.size_register]) made

namespace Recopies

variable {first : StoreM α} {again : α → StoreM α} {related : α → α → Prop}

theorem congr {first' : StoreM α} (same : first' t = first t)
    (h : Recopies k base top first again related t) :
    Recopies k base top first' again related t :=
  ⟨fun ended => h.extended (same ▸ ended), fun ended => h.repeats (same ▸ ended)⟩

theorem throw {fault : Fault} (stopped : first t = .error fault u) :
    Recopies k base top first again related t := by
  constructor
  · intro a v ended
    rw [stopped] at ended
    cases ended
  · intro a v t' ended
    rw [stopped] at ended
    cases ended

theorem pure {a : α}
    (same : t.size ≤ top → ∃ b, related a b ∧ ∀ t' : Store, again a t' = .ok b t') :
    Recopies k base top (Pure.pure a) again related t := by
  constructor
  · intro b u ended
    cases ended
    exact .refl t
  · intro b u t' ended within size _
    cases ended
    obtain ⟨b, alike, ended⟩ := same within
    refine ⟨b, t', ended t', alike, .refl t', size, fun q since made => ?_⟩
    exact absurd made (Nat.not_lt.2 since)

theorem map {again' : β → StoreM β} {related' : β → β → Prop} {f : α → β}
    (h : Recopies k base top first again related t)
    (unfold : ∀ a, again' (f a) = again a >>= fun b => Pure.pure (f b))
    (alike : ∀ {a b}, related a b → related' (f a) (f b)) :
    Recopies k base top (first >>= fun a => Pure.pure (f a)) again' related' t := by
  constructor
  · intro c u ended
    obtain ⟨a, u, made, rest⟩ := StoreM.exists_of_bind ended
    cases rest
    exact h.extended made
  · intro c u t' ended within size kept
    obtain ⟨a, u, made, rest⟩ := StoreM.exists_of_bind ended
    cases rest
    obtain ⟨b, u', made', same, repeats⟩ := h.repeats made within size kept
    exact ⟨f b, u', by rw [unfold, StoreM.bind_ok made']; rfl, alike same, repeats⟩

/-- One after the other can be made once more, one after the other. -/
theorem map₂ {second : StoreM β} {again₂ : β → StoreM β} {related₂ : β → β → Prop}
    {again' : γ → StoreM γ} {related' : γ → γ → Prop} {f : α → β → γ}
    (h : Recopies k base top first again related t)
    (h₂ : ∀ u, t.Extended u → Recopies k base top second again₂ related₂ u)
    (unfold : ∀ a b, again' (f a b) =
      again a >>= fun a' => again₂ b >>= fun b' => Pure.pure (f a' b'))
    (alike : ∀ {a a' b b'}, related a a' → related₂ b b' → related' (f a b) (f a' b')) :
    Recopies k base top (first >>= fun a => second >>= fun b => Pure.pure (f a b)) again' related'
      t := by
  constructor
  · intro c v ended
    obtain ⟨a, u, made, rest⟩ := StoreM.exists_of_bind ended
    obtain ⟨b, v, made₂, rest⟩ := StoreM.exists_of_bind rest
    cases rest
    have extended := h.extended made
    exact extended.trans ((h₂ u extended).extended made₂)
  · intro c v t' ended within size kept
    obtain ⟨a, u, made, rest⟩ := StoreM.exists_of_bind ended
    obtain ⟨b, v, made₂, rest⟩ := StoreM.exists_of_bind rest
    cases rest
    have extended := h.extended made
    have extended₂ := (h₂ u extended).extended made₂
    have le := extended.size_le
    have le₂ := extended₂.size_le
    obtain ⟨a', u', made', same, repeats⟩ := h.repeats made (by omega) size
      fun q node since found => kept q node since (extended₂.node? found)
    obtain ⟨b', v', made₂', same₂, repeats₂⟩ := (h₂ u extended).repeats made₂ within repeats.size
      fun q node since found => repeats.extended.node? (kept q node (by omega) found)
    refine ⟨f a' b', v', ?_, alike same same₂, repeats.trans repeats₂ extended₂⟩
    rw [unfold, StoreM.bind_ok made', StoreM.bind_ok made₂']
    rfl

/-- A cell that has been made for a copy is copied in turn: to the cell that comes `k` places after
it. -/
theorem construct {blank : Node} {below : Loc → StoreM Node} {again : Ref → StoreM Ref}
    {inner : Loc → Node → StoreM Node} (since : base ≤ t.size)
    (unfold : ∀ {t' node}, t'.node? (.cell t.size) = some node →
      again (.cell t.size) t' = LittleScheme.construct node.blank (inner · node) t')
    (h : Recopies k base top (below t.size) (inner (t.size + k))
      (Node.Matches (Sends (· + k) base top)) (t.register blank)) :
    Recopies k base top (LittleScheme.construct blank below) again (Sends (· + k) base top) t := by
  constructor
  · intro c v ended
    obtain ⟨node, u, made, rfl, rfl⟩ := construct_ok ended
    exact ((t.extended_register blank).trans (h.extended made)).write (Nat.le_refl _) node
  · intro c v t' ended within size kept
    obtain ⟨node, u, made, rfl, rfl⟩ := construct_ok ended
    have extended := h.extended made
    have exist := extended.lt_size_of_register
    rw [Store.size_write] at within
    have here : t'.node? (.cell t.size) = some node :=
      kept _ _ (Nat.le_refl _) (by rw [u.node?_write exist, if_pos rfl])
    have size' : (t'.register node.blank).size = (t.register blank).size + k := by
      rw [Store.size_register, Store.size_register]
      omega
    have kept' : (t.register blank).Retains u (t'.register node.blank) := by
      intro q node'' later found
      rw [Store.size_register] at later
      have other : q ≠ t.size := by omega
      refine (t'.extended_register _).node? (kept q node'' (by omega) ?_)
      rwa [u.node?_write_of_ne node (by simpa using other)]
    obtain ⟨node', u', made', alike, repeats⟩ := h.repeats made within size' kept'
    refine ⟨.cell t'.size, u'.write t'.size node', ?_, ?_, repeats.fill extended size alike⟩
    · rw [← size] at made'
      rw [unfold here]
      exact StoreM.bind_ok (s := t'.register node.blank) made' _
    · rw [size]
      exact .cell since (by omega)

section Contents

variable {copy copy' : Ref → StoreM Ref}

theorem copyEach
    (one : ∀ r u, t.Extended u → Recopies k base top (copy r) copy' (Sends (· + k) base top) u)
    (rs : List Ref) :
    Recopies k base top (LittleScheme.copyEach copy rs) (LittleScheme.copyEach copy')
      (List.Forall₂ (Sends (· + k) base top)) t := by
  induction rs generalizing t with
  | nil => exact .pure fun _ => ⟨[], .nil, fun _ => rfl⟩
  | cons r rs ih =>
    exact (one r t (.refl t)).map₂ (f := List.cons)
      (fun u extended => ih fun r v extended' => one r v (extended.trans extended'))
      (fun _ _ => rfl) .cons

theorem copyBindings
    (one : ∀ r u, t.Extended u → Recopies k base top (copy r) copy' (Sends (· + k) base top) u)
    (bindings : List (String × Ref)) :
    Recopies k base top (LittleScheme.copyBindings copy bindings) (LittleScheme.copyBindings copy')
      (List.Forall₂ fun b b' => b'.1 = b.1 ∧ Sends (· + k) base top b.2 b'.2) t := by
  induction bindings generalizing t with
  | nil => exact .pure fun _ => ⟨[], .nil, fun _ => rfl⟩
  | cons binding rest ih =>
    exact (one binding.2 t (.refl t)).map₂ (f := fun c cs => (binding.1, c) :: cs)
      (fun u extended => ih fun r v extended' => one r v (extended.trans extended'))
      (fun _ _ => rfl) fun value values => .cons ⟨rfl, value⟩ values

theorem copyCaptured (empty : copy' .nil = Pure.pure .nil)
    (one : ∀ r, Recopies k base top (copy r) copy' (Sends (· + k) base top) t) (env : Option Loc) :
    Recopies k base top (LittleScheme.copyCaptured copy env) (LittleScheme.copyCaptured copy')
      (Option.Rel fun e e' => Sends (· + k) base top (.cell e) (.cell e')) t := by
  cases env with
  | none => exact .pure fun _ => ⟨none, .none, fun _ => rfl⟩
  | some env =>
    refine (one (.cell env)).map (f := Ref.loc?) ?_ ?_
    · intro c
      cases c with
      | nil => rw [empty, pure_bind]; rfl
      | cell q => rfl
    · intro c d sent
      cases sent with
      | nil => exact .none
      | cell since made => exact .some (.cell since made)

/-- The contents of a copy can be copied as they have been. -/
theorem copyContents {copySecond copySecond' : Ref → StoreM Ref}
    (empty : copy' .nil = Pure.pure .nil)
    (one : ∀ r u, t.Extended u → Recopies k base top (copy r) copy' (Sends (· + k) base top) u)
    (second : ∀ r u, t.Extended u →
      Recopies k base top (copySecond r) copySecond' (Sends (· + k) base top) u) (node : Node) :
    Recopies k base top (node.copyContents copy copySecond)
      (Node.copyContents copy' copySecond') (Node.Matches (Sends (· + k) base top)) t := by
  cases node with
  | pair first rest =>
    exact (one first t (.refl t)).map₂ (second rest) (fun _ _ => rfl) .pair
  | environment frame =>
    exact (copyBindings one frame.bindings).map
      (f := fun bindings => Node.environment { frame with bindings }) (fun _ => rfl)
      Node.Matches.environment
  | closure params body env =>
    have code : Recopies k base top (copyParts copy params body)
        (fun code => copyParts copy' code.1 code.2) (fun code code' =>
          List.Forall₂ (Sends (· + k) base top) code.1 code'.1 ∧
            List.Forall₂ (Sends (· + k) base top) code.2 code'.2) t :=
      (copyEach one params).map₂
        (fun u extended => copyEach (fun r v extended' => one r v (extended.trans extended')) body)
        (fun _ _ => rfl) And.intro
    have captured (u : Store) (extended : t.Extended u) :=
      copyCaptured empty (fun r => one r u extended) env
    refine code.map₂ (f := fun code env => Node.closure code.1 code.2 env) captured ?_ ?_
    · exact fun _ _ => rfl
    · exact fun code captured => .closure code.1 code.2 captured
  | integer value => exact .pure fun _ => ⟨_, .integer value, fun _ => rfl⟩
  | boolean value => exact .pure fun _ => ⟨_, .boolean value, fun _ => rfl⟩
  | symbol name => exact .pure fun _ => ⟨_, .symbol name, fun _ => rfl⟩
  | builtin op => exact .pure fun _ => ⟨_, .builtin op, fun _ => rfl⟩

end Contents

end Recopies

/-! ## Copies of values -/

/-- The copies under way, from `base` up to `n`, are the values whose copies are under way, `k`
cells further on. -/
structure Follows (k base n : Nat) (active active' : Active) : Prop where
  back : ∀ {loc copy : Loc}, active[loc]? = some copy →
    base ≤ copy ∧ active'[copy]? = some (copy + k)
  apart : ∀ {q : Loc}, n ≤ q → active'[q]? = none

namespace Follows

variable {n m : Nat} {active active' : Active}

theorem empty (k base n : Nat) : Follows k base n ∅ ∅ := ⟨by simp, by simp⟩

theorem mono (follows : Follows k base n active active') (le : n ≤ m) :
    Follows k base m active active' :=
  ⟨follows.back, fun later => follows.apart (Nat.le_trans le later)⟩

theorem lt (follows : Follows k base n active active') {loc copy : Loc}
    (under : active[loc]? = some copy) : copy < n := by
  refine Nat.lt_of_not_le fun later => ?_
  have := (follows.back under).2
  rw [follows.apart later] at this
  cases this

/-- A value and its copy get under way. -/
theorem insert (follows : Follows k base n active active') (since : base ≤ n) (loc : Loc) :
    Follows k base (n + 1) (active.insert loc n) (active'.insert n (n + k)) where
  back {loc' copy} under := by
    rw [Std.TreeMap.getElem?_insert] at under ⊢
    split at under
    · cases under
      exact ⟨since, by simp⟩
    · have earlier := follows.lt under
      rw [if_neg (by simpa using Nat.ne_of_gt earlier)]
      exact follows.back under
  apart {q} later := by
    have other : n ≠ q := by omega
    rw [Std.TreeMap.getElem?_insert, if_neg (by simpa using other)]
    exact follows.apart (by omega)

end Follows

/-- **A copy can be copied as deep as the original.**  The values of a path are met in the copy as
they were met in the original, and what leads back there leads back here. -/
theorem copyFrom_recopies {fuel fuel' : Nat} (enough : fuel ≤ fuel') (depth : Nat)
    {active active' : Active} (since : base ≤ t.size)
    (follows : Follows k base t.size active active') (r : Ref) :
    Recopies k base top (copyFrom fuel depth active r) (copyFrom fuel' depth active')
      (Sends (· + k) base top) t := by
  induction fuel generalizing fuel' depth active active' r t with
  | zero =>
    cases r with
    | nil =>
      rw [copyFrom_nil]
      exact .pure fun _ => ⟨.nil, .nil, fun _ => by rw [copyFrom_nil]; rfl⟩
    | cell loc => exact .throw rfl
  | succ fuel ih =>
    cases r with
    | nil =>
      rw [copyFrom_nil]
      exact .pure fun _ => ⟨.nil, .nil, fun _ => by rw [copyFrom_nil]; rfl⟩
    | cell loc =>
      obtain ⟨fuel', rfl⟩ := Nat.exists_eq_add_of_le' (Nat.le_trans (Nat.le_add_left 1 fuel) enough)
      cases depth with
      | zero => exact .throw rfl
      | succ depth =>
        cases under : active[loc]? with
        | some copy =>
          obtain ⟨since', under'⟩ := follows.back under
          rw [copyFrom_back under]
          refine .pure fun within => ⟨.cell (copy + k), ?_, fun t' => ?_⟩
          · exact .cell since' (Nat.lt_of_lt_of_le (follows.lt under) within)
          · rw [copyFrom_back under']
            rfl
        | none =>
          cases found : t.node? (.cell loc) with
          | none =>
            -- what is missing is copied to the empty list
            have gone : copyFrom (fuel + 1) (depth + 1) active (.cell loc) t = .ok .nil t := by
              have looked : look (.cell loc) t = .ok none t := by rw [← found]; rfl
              rw [copyFrom, under]
              exact StoreM.bind_ok looked _
            refine .congr gone (.pure fun _ => ⟨.nil, .nil, fun _ => ?_⟩)
            rw [copyFrom_nil]
            rfl
          | some node =>
            -- the next cell becomes the copy of `loc`, and it gets under way itself when the copy
            -- is copied, to the cell that comes `k` places after it
            have further := follows.insert since loc
            have below (depth : Nat) (r : Ref) (u : Store)
                (extended : (t.register node.blank).Extended u) :
                Recopies k base top (copyFrom fuel depth (active.insert loc t.size) r)
                  (copyFrom fuel' depth (active'.insert t.size (t.size + k)))
                  (Sends (· + k) base top) u := by
              have exist := extended.lt_size_of_register
              exact ih (Nat.le_of_succ_le_succ enough) depth (by omega) (further.mono exist) r
            refine .congr (copyFrom_cell under found fuel depth) ?_
            refine .construct since (copyFrom_cell (follows.apart (Nat.le_refl _)) · fuel' depth) ?_
            exact .copyContents (copyFrom_nil _ _ _) (below depth) (below (depth + 1)) node

/-- A copy can be copied at any later time, as long as its cells are what they were. -/
theorem duplicate_again {depth : Nat} {r c : Ref} {s s' : Store}
    (copied : duplicate depth r s = .ok c s') (later : s.size ≤ t.size) (kept : s.Retains s' t) :
    ∃ d t', duplicate depth c t = .ok d t' ∧
      Sends (· + (t.size - s.size)) s.size s'.size c d ∧
      Repeats (t.size - s.size) s.size s'.size s s' t t' := by
  have recopies : Recopies (t.size - s.size) s.size s'.size (copyFrom (s.size + 1) depth ∅ r)
      (copyFrom (t.size + 1) depth ∅) (Sends (· + (t.size - s.size)) s.size s'.size) s :=
    copyFrom_recopies (Nat.succ_le_succ later) depth (Nat.le_refl s.size) (.empty _ _ _) r
  exact recopies.repeats copied (Nat.le_refl _) (by omega) kept

/-! ## The number of cells -/

/-- The discipline of stores to which so many cells have been added as have been registered. -/
def tally (s : Store) : Discipline where
  Sound t := ∃ n, t.size = s.size + n ∧ t.allocations = s.allocations + n
  Value _ _ := True
  Scope _ _ := True
  Captured _ _ := True

theorem tally.hereditary (s : Store) : (tally s).Hereditary fun _ => True where
  nil := trivial
  scope := Iff.rfl
  captured := Iff.rfl
  fits _ _ _ _ _ := trivial
  parts _ _ _ _ _ := trivial
  register {t node} sound _ _ := by
    obtain ⟨n, size, allocations⟩ := sound
    have counted : (tally s).Sound (t.register node) :=
      ⟨n + 1, by rw [Store.size_register, size, Nat.add_assoc],
        by rw [Store.register, allocations, Nat.add_assoc]⟩
    exact ⟨⟨counted, id, id, id⟩, trivial⟩
  write {t node} loc sound _ _ := by
    obtain ⟨n, size, allocations⟩ := sound
    exact ⟨⟨n, by rw [Store.size_write, size], allocations⟩, id, id, id⟩

/-- Copying registers each cell that it adds. -/
theorem duplicate_allocations {depth : Nat} {r c : Ref} {s s' : Store}
    (copied : duplicate depth r s = .ok c s') :
    ∃ n, s'.size = s.size + n ∧ s'.allocations = s.allocations + n :=
  (((tally.hereditary s).duplicate depth ⟨0, rfl, rfl⟩ trivial).ok copied).1.sound

/-! ## Twins -/

/-- What has been added from `s` to `s'`, where `c` leads to, and what has been added from `s'` to
`s''`, where `d` leads to, correspond to each other cell by cell.  The cells are of the same kind
and hold the same, with references that correspond to each other; the frames around frames are the
very same. -/
structure Store.Twins (φ : Loc → Loc) (s s' s'' : Store) (c d : Ref) : Prop where
  bijective : Set.BijOn φ (Set.Ico s.size s'.size) (Set.Ico s'.size s''.size)
  result : Sends φ s.size s'.size c d
  nodes : ∀ q ∈ Set.Ico s.size s'.size, ∃ node node', s'.node? (.cell q) = some node ∧
    s''.node? (.cell (φ q)) = some node' ∧ node.Matches (Sends φ s.size s'.size) node'

/-- The copy of a copy is its twin. -/
theorem duplicate_twins {depth : Nat} {r c : Ref} {s s' : Store}
    (copied : duplicate depth r s = .ok c s') :
    ∃ d s'' φ, duplicate depth c s' = .ok d s'' ∧ s''.size - s'.size = s'.size - s.size ∧
      s.Twins φ s' s'' c d := by
  obtain ⟨n, grown, -⟩ := duplicate_allocations copied
  have le : s.size ≤ s'.size := grown ▸ Nat.le_add_right _ _
  obtain ⟨d, s'', copied', result, repeats⟩ := duplicate_again copied le fun _ _ _ found => found
  have size := repeats.size
  refine ⟨d, s'', _, copied', by omega, ?_, result, fun q inside => ?_⟩
  · have moved := Set.Ico_add_bij s.size s'.size (s'.size - s.size)
    rwa [Nat.add_sub_cancel' le, ← size] at moved
  · exact repeats.nodes q inside.1 inside.2

end LittleScheme
