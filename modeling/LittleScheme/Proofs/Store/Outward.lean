import LittleScheme.Proofs.Store.Extension
import LittleScheme.Store.Describe
import Mathlib.Data.List.Perm.Subperm
import Mathlib.Logic.Relation
import Mathlib.Tactic.Common

/-!
# Frames from the inside outwards

`Store.scopeFrom n` goes outwards from a frame, `n` frames at most.  Where it finds fewer than `n`
it has come to the outermost frame, and on such a way no frame is met twice: from the second time on
the way would be shorter than it is.  So a way that is longer than the number of cells has no end,
and `Store.isEndless` tells these from the others.  If no frame around lies inside of itself, there
is an end.

`Store.Outward` is the judgement that there is an outermost frame, with the frames that lead to it.
-/

namespace LittleScheme

namespace Store

variable {s s' : Store} {env outer : Loc} {frame : Frame} {chain : List Loc}

/-! ## Going outwards -/

theorem scopeFrom_of_none (found : s.frame? env = none) (n : Nat) : s.scopeFrom n env = [] := by
  cases n <;> simp [scopeFrom, found]

theorem scopeFrom_of_last (found : s.frame? env = some frame) (outermost : frame.outer = none)
    (n : Nat) : s.scopeFrom (n + 1) env = [env] := by
  simp [scopeFrom, found, outermost]

theorem scopeFrom_of_outer (found : s.frame? env = some frame) (around : frame.outer = some outer)
    (n : Nat) : s.scopeFrom (n + 1) env = env :: s.scopeFrom n outer := by
  simp [scopeFrom, found, around]

/-- The frame at `env` lies directly inside of the one at `outer`. -/
def Inside (s : Store) (env outer : Loc) : Prop :=
  ∃ frame, s.frame? env = some frame ∧ frame.outer = some outer

/-- Going outwards: there is no frame, or it is the outermost, or there is one around it. -/
theorem scopeFrom_cases (s : Store) (env : Loc) :
    (∀ n, s.scopeFrom n env = []) ∨
      (∃ frame, s.frame? env = some frame) ∧
        ((∀ n, s.scopeFrom (n + 1) env = [env]) ∨
          ∃ outer, s.Inside env outer ∧
            ∀ n, s.scopeFrom (n + 1) env = env :: s.scopeFrom n outer) := by
  cases found : s.frame? env with
  | none => exact .inl (scopeFrom_of_none found)
  | some frame =>
    refine .inr ⟨⟨frame, rfl⟩, ?_⟩
    cases around : frame.outer with
    | none => exact .inl (scopeFrom_of_last found around)
    | some outer => exact .inr ⟨outer, ⟨frame, found, around⟩, scopeFrom_of_outer found around⟩

theorem exists_frame_of_mem_scopeFrom {n : Nat} {q : Loc} (member : q ∈ s.scopeFrom n env) :
    ∃ frame, s.frame? q = some frame := by
  induction n generalizing env with
  | zero => simp [scopeFrom] at member
  | succ n ih =>
    rcases s.scopeFrom_cases env with none | ⟨found, last | ⟨outer, -, step⟩⟩
    · simp [none] at member
    · rw [last, List.mem_singleton] at member
      exact member ▸ found
    · rw [step, List.mem_cons] at member
      rcases member with rfl | later
      · exact found
      · exact ih later

/-- Fewer frames are the first of more. -/
theorem take_scopeFrom {m n : Nat} (less : m ≤ n) (env : Loc) :
    (s.scopeFrom n env).take m = s.scopeFrom m env := by
  induction m generalizing n env with
  | zero => simp [scopeFrom]
  | succ m ih =>
    obtain ⟨n, rfl⟩ := Nat.exists_eq_add_of_le' (Nat.le_trans (Nat.le_add_left 1 m) less)
    rcases s.scopeFrom_cases env with none | ⟨-, last | ⟨outer, -, step⟩⟩
    · simp [none]
    · simp [last]
    · rw [step, step, List.take_succ_cons, ih (Nat.le_of_succ_le_succ less)]

theorem length_scopeFrom_le (n : Nat) (env : Loc) : (s.scopeFrom n env).length ≤ n := by
  rw [← take_scopeFrom (Nat.le_refl n)]
  exact List.length_take_le n _

/-- Behind the outermost frame there are no more. -/
theorem scopeFrom_of_short {m n : Nat} (short : (s.scopeFrom n env).length < n) (more : n ≤ m) :
    s.scopeFrom m env = s.scopeFrom n env := by
  have first := take_scopeFrom (s := s) more env
  rw [← first, List.length_take] at short
  rw [← first, List.take_of_length_le (by omega)]

/-- Each of the frames on a way that ends is the beginning of a part of it. -/
theorem length_scopeFrom_of_mem {n : Nat} (short : (s.scopeFrom n env).length < n) {q : Loc}
    (member : q ∈ s.scopeFrom n env) :
    (s.scopeFrom n q).length ≤ (s.scopeFrom n env).length := by
  induction n generalizing env with
  | zero => simp at short
  | succ n ih =>
    rcases s.scopeFrom_cases env with none | ⟨-, last | ⟨outer, -, step⟩⟩
    · simp [none] at member
    · rw [last, List.mem_singleton] at member
      exact member ▸ Nat.le_refl _
    · rw [step, List.length_cons] at short
      rw [step, List.mem_cons] at member
      rcases member with rfl | later
      · exact Nat.le_refl _
      · have part := ih (by omega) later
        rw [scopeFrom_of_short (by omega) (Nat.le_succ n), step, List.length_cons]
        omega

/-- On a way that ends no frame is met twice. -/
theorem nodup_scopeFrom {n : Nat} (short : (s.scopeFrom n env).length < n) :
    (s.scopeFrom n env).Nodup := by
  induction n generalizing env with
  | zero => simp at short
  | succ n ih =>
    rcases s.scopeFrom_cases env with none | ⟨-, last | ⟨outer, -, step⟩⟩
    · simp [none]
    · simp [last]
    · rw [step, List.length_cons] at short
      rw [step, List.nodup_cons]
      refine ⟨fun again => ?_, ih (by omega)⟩
      -- from the second time on the way would be shorter, but it is the same
      have part := length_scopeFrom_of_mem (by omega) again
      have same := step n
      rw [scopeFrom_of_short (by omega) (Nat.le_succ n)] at same
      rw [same, List.length_cons] at part
      omega

/-- There are no more frames than cells if none is met twice. -/
theorem length_scopeFrom_le_size {n : Nat} (distinct : (s.scopeFrom n env).Nodup) :
    (s.scopeFrom n env).length ≤ s.size := by
  have within : s.scopeFrom n env ⊆ List.range s.size := by
    intro q member
    obtain ⟨frame, found⟩ := exists_frame_of_mem_scopeFrom member
    exact List.mem_range.2 (lt_size (frame?_eq_some.1 found))
  simpa using (List.subperm_of_subset distinct within).length_le

/-- The frames go round exactly if there is a further frame however far one goes. -/
theorem isEndless_iff : s.isEndless env = true ↔ ∀ n, (s.scopeFrom n env).length = n := by
  rw [isEndless, decide_eq_true_iff]
  refine ⟨fun long n => ?_, fun further => by rw [further]; exact Nat.lt_succ_self _⟩
  by_contra other
  have short : (s.scopeFrom n env).length < n :=
    Nat.lt_of_le_of_ne (length_scopeFrom_le n env) other
  have few := length_scopeFrom_le_size (nodup_scopeFrom short)
  rcases Nat.le_total n (s.size + 1) with before | behind
  · rw [scopeFrom_of_short short before] at long
    omega
  · rw [← take_scopeFrom behind, List.length_take] at long
    omega

/-- If the frames do not go round, those in scope are all that are met. -/
theorem scopeFrom_eq_scope (ends : s.isEndless env = false) {n : Nat} (enough : s.size ≤ n) :
    s.scopeFrom n env = s.scope env := by
  rw [isEndless, decide_eq_false_iff_not, Nat.not_lt] at ends
  have all : s.scope env = s.scopeFrom (s.size + 1) env := by
    rw [scope, ← take_scopeFrom (Nat.le_succ _), List.take_of_length_le ends]
  rcases Nat.lt_or_ge s.size n with more | few
  · rw [all]
    exact scopeFrom_of_short (by omega) more
  · rw [Nat.le_antisymm few enough, scope]

/-! ## Frames that go round -/

theorem inside_of_mem_scopeFrom {n : Nat} {q : Loc} (member : q ∈ s.scopeFrom n env) :
    Relation.ReflTransGen s.Inside env q := by
  induction n generalizing env with
  | zero => simp [scopeFrom] at member
  | succ n ih =>
    rcases s.scopeFrom_cases env with none | ⟨-, last | ⟨outer, inside, step⟩⟩
    · simp [none] at member
    · rw [last, List.mem_singleton] at member
      exact member ▸ .refl
    · rw [step, List.mem_cons] at member
      rcases member with rfl | later
      · exact .refl
      · exact .head inside (ih later)

/-- If none of the frames around lies inside of itself, no frame is met twice. -/
theorem nodup_scopeFrom_of_acyclic
    (acyclic : ∀ q, Relation.ReflTransGen s.Inside env q → ¬Relation.TransGen s.Inside q q)
    (n : Nat) : (s.scopeFrom n env).Nodup := by
  induction n generalizing env with
  | zero => simp [scopeFrom]
  | succ n ih =>
    rcases s.scopeFrom_cases env with none | ⟨-, last | ⟨outer, inside, step⟩⟩
    · simp [none]
    · simp [last]
    · rw [step, List.nodup_cons]
      refine ⟨fun again => ?_, ih fun q way => acyclic q (.head inside way)⟩
      exact acyclic env .refl (.head' inside (inside_of_mem_scopeFrom again))

/-- If none of the frames around lies inside of itself, they come to an end. -/
theorem isEndless_eq_false_of_acyclic
    (acyclic : ∀ q, Relation.ReflTransGen s.Inside env q → ¬Relation.TransGen s.Inside q q) :
    s.isEndless env = false :=
  decide_eq_false (Nat.not_lt.2 (length_scopeFrom_le_size (nodup_scopeFrom_of_acyclic acyclic _)))

/-! ## The outermost frame -/

/-- The frames from the one at a location outwards, up to one that has no frame around it. -/
inductive Outward (s : Store) : Loc → List Loc → Prop
  | last {env : Loc} {frame : Frame} (found : s.frame? env = some frame)
    (outermost : frame.outer = none) : s.Outward env [env]
  | step {env outer : Loc} {frame : Frame} {chain : List Loc} (found : s.frame? env = some frame)
    (around : frame.outer = some outer) (rest : s.Outward outer chain) :
    s.Outward env (env :: chain)

/-- Where no link dangles, a way that is shorter than it may be has come to the outermost frame. -/
theorem outward_scopeFrom
    (linked : ∀ {env outer}, s.Inside env outer → ∃ frame, s.frame? outer = some frame)
    {frame : Frame} (found : s.frame? env = some frame) {n : Nat}
    (short : (s.scopeFrom n env).length < n) : s.Outward env (s.scopeFrom n env) := by
  induction n generalizing env frame with
  | zero => simp at short
  | succ n ih =>
    cases around : frame.outer with
    | none =>
      rw [scopeFrom_of_last found around]
      exact .last found around
    | some outer =>
      obtain ⟨frame', found'⟩ := linked ⟨frame, found, around⟩
      rw [scopeFrom_of_outer found around] at short ⊢
      exact .step found around (ih found' (Nat.lt_of_succ_lt_succ short))

namespace Outward

/-- There is one way outwards. -/
theorem unique {chain' : List Loc} (outward : s.Outward env chain)
    (outward' : s.Outward env chain') : chain = chain' := by
  induction outward generalizing chain' with
  | last found outermost =>
    cases outward' with
    | last => rfl
    | step found' around => simp_all
  | step found around _ ih =>
    cases outward' with
    | last found' outermost => simp_all
    | step found' around' rest' =>
      rw [found, Option.some.injEq] at found'
      subst found'
      rw [around, Option.some.injEq] at around'
      subst around'
      rw [ih rest']

theorem exists_frame (outward : s.Outward env chain) {q : Loc} (member : q ∈ chain) :
    ∃ frame, s.frame? q = some frame := by
  induction outward with
  | last found _ => exact ⟨_, List.mem_singleton.1 member ▸ found⟩
  | step found _ _ ih =>
    rcases List.mem_cons.1 member with rfl | later
    · exact ⟨_, found⟩
    · exact ih later

theorem scopeFrom_eq (outward : s.Outward env chain) {fuel : Nat} (enough : chain.length ≤ fuel) :
    s.scopeFrom fuel env = chain := by
  induction outward generalizing fuel with
  | last found outermost =>
    obtain ⟨fuel, rfl⟩ := Nat.exists_eq_add_of_le' enough
    exact scopeFrom_of_last found outermost fuel
  | step found around _ ih =>
    rw [List.length_cons] at enough
    obtain ⟨fuel, rfl⟩ := Nat.exists_eq_add_of_le' (Nat.le_trans (Nat.le_add_left 1 _) enough)
    rw [scopeFrom_of_outer found around, ih (Nat.le_of_succ_le_succ enough)]

/-- No frame is met twice. -/
theorem nodup (outward : s.Outward env chain) : chain.Nodup := by
  have same := outward.scopeFrom_eq (Nat.le_succ chain.length)
  rw [← same]
  exact nodup_scopeFrom (by rw [same]; exact Nat.lt_succ_self _)

/-- There are no more frames than cells. -/
theorem length_le (outward : s.Outward env chain) : chain.length ≤ s.size := by
  have same := outward.scopeFrom_eq (Nat.le_succ chain.length)
  have few := length_scopeFrom_le_size (s := s) (by rw [same]; exact outward.nodup)
  rwa [same] at few

/-- Frames that come to an end do not go round. -/
theorem isEndless_eq_false (outward : s.Outward env chain) : s.isEndless env = false := by
  rw [isEndless, outward.scopeFrom_eq (Nat.le_succ_of_le outward.length_le)]
  exact decide_eq_false (Nat.not_lt.2 outward.length_le)

theorem unresolved_eq (outward : s.Outward env chain) (name : String) :
    s.unresolved env name = .error (.unbound name) := by
  rw [unresolved, outward.isEndless_eq_false]
  rfl

/-- The frames that are met are the frames in scope. -/
theorem scope_eq (outward : s.Outward env chain) : s.scope env = chain :=
  outward.scopeFrom_eq outward.length_le

/-- The way outwards is a matter of the frames that are met. -/
theorem congr (outward : s.Outward env chain) (same : ∀ q ∈ chain, s'.frame? q = s.frame? q) :
    s'.Outward env chain := by
  induction outward with
  | last found outermost => exact .last ((same _ (by simp)).trans found) outermost
  | step found around _ ih =>
    exact .step ((same _ (by simp)).trans found) around
      (ih fun q member => same q (by simp [member]))

end Outward

theorem Extended.frame?_eq (extended : s.Extended s') {frame : Frame}
    (found : s.frame? env = some frame) : s'.frame? env = s.frame? env := by
  rw [found, frame?_eq_some]
  exact extended.node? (frame?_eq_some.1 found)

/-- A frame that decides about a name goes on to do so. -/
theorem Extended.find?_scopeFrom (extended : s.Extended s') {fuel fuel' : Nat}
    (enough : fuel ≤ fuel') {q : Loc} {name : String}
    (decides : (s.scopeFrom fuel env).find? (s.bindsAt name) = some q) :
    (s'.scopeFrom fuel' env).find? (s'.bindsAt name) = some q := by
  induction fuel generalizing fuel' env with
  | zero => simp [scopeFrom] at decides
  | succ fuel ih =>
    obtain ⟨fuel', rfl⟩ := Nat.exists_eq_add_of_le' (Nat.le_trans (Nat.le_add_left 1 fuel) enough)
    cases found : s.frame? env with
    | none => simp [scopeFrom, found] at decides
    | some frame =>
      have same := extended.frame?_eq found
      have binds : s'.bindsAt name env = s.bindsAt name env := by rw [bindsAt, bindsAt, same]
      cases around : frame.outer with
      | none => simpa [scopeFrom, same, found, around, binds] using decides
      | some outer =>
        simp only [scopeFrom, same, found, around, List.find?_cons, binds] at decides ⊢
        cases here : s.bindsAt name env with
        | true => simpa only [here] using decides
        | false =>
          simp only [here] at decides
          exact ih (Nat.le_of_succ_le_succ enough) decides

/-- A name that is bound keeps its value, whatever the frames around are. -/
theorem Extended.lookup? (extended : s.Extended s') {name : String} {r : Ref}
    (bound : s.lookup? env name = some r) : s'.lookup? env name = some r := by
  obtain ⟨q, decides, value⟩ := Option.bind_eq_some_iff.1 bound
  obtain ⟨frame, found, -⟩ := Option.bind_eq_some_iff.1 value
  have decides' : s'.find? env name = some q :=
    extended.find?_scopeFrom extended.size_le decides
  rw [Store.lookup?, decides', Option.bind_some, valueAt?, extended.frame?_eq found]
  exact value

theorem Outward.extend (outward : s.Outward env chain) (extended : s.Extended s') :
    s'.Outward env chain := by
  refine outward.congr fun q member => ?_
  obtain ⟨frame, found⟩ := outward.exists_frame member
  exact extended.frame?_eq found

/-! ## What depends on the frames in scope -/

/-- A frame that does not bind a name is no matter to its resolution. -/
theorem Outward.find?_outer (outward : s.Outward outer chain) {frame : Frame} {name : String}
    (found : s.frame? env = some frame) (around : frame.outer = some outer)
    (free : frame.binds name = false) : s.find? env name = s.find? outer name := by
  have inside : s.Outward env (env :: chain) := .step found around outward
  have passed : s.bindsAt name env = false := by simp [bindsAt, found, free]
  rw [find?, find?, inside.scope_eq, outward.scope_eq]
  simp [passed]

/-- What a store is extended by is no matter to the resolution of names. -/
theorem Outward.find?_extend (outward : s.Outward env chain) (extended : s.Extended s')
    (name : String) : s'.find? env name = s.find? env name := by
  have same : ∀ q ∈ chain, s'.bindsAt name q = s.bindsAt name q := by
    intro q member
    obtain ⟨frame, found⟩ := outward.exists_frame member
    rw [bindsAt, bindsAt, extended.frame?_eq found]
  rw [find?, find?, outward.scope_eq, (outward.extend extended).scope_eq, ← List.head?_filter,
    ← List.head?_filter, List.filter_congr same]

end Store

end LittleScheme
