import LittleScheme.Store.Describe
import Mathlib.Data.Finset.Card
import Mathlib.Tactic.Common

/-!
# Descriptions of values

A description goes into the parameters of a procedure, and counts how deep it goes: `briefFrom n`
gives up below `n` procedures.  If `n + 1` is the first number for which it does not, some parameter
needs exactly `n`, so there is a procedure for each number up to `n`, and these are different cells.
Hence a description that more procedures than there are cells do not finish is never finished, and
`Store.brief` is what any larger number gives, too.

A description fails in no other way but this one and, for a scope, by frames that go round.
-/

namespace LittleScheme

variable {α β ε : Type} {f : α → Except ε β} {l : List α}

/-- A list is done item by item. -/
theorem mapM_eq_ok_iff {bs : List β} :
    l.mapM f = .ok bs ↔ List.Forall₂ (fun a b => f a = .ok b) l bs := by
  induction l generalizing bs with
  | nil => simp [pure, Except.pure, eq_comm]
  | cons a l ih =>
    rw [List.mapM_cons, List.forall₂_cons_left_iff]
    cases first : f a with
    | error e => simp [bind, Except.bind]
    | ok b =>
      simp only [← ih, Except.ok.injEq, bind, Except.bind]
      cases l.mapM f <;> simp [pure, Except.pure, eq_comm]

/-- A list fails at one of its items. -/
theorem exists_mem_of_mapM_eq_error {e : ε} (failed : l.mapM f = .error e) :
    ∃ a ∈ l, f a = .error e := by
  induction l with
  | nil => cases failed
  | cons a l ih =>
    rw [List.mapM_cons] at failed
    cases first : f a with
    | error other =>
      rw [first] at failed
      cases failed
      exact ⟨a, by simp, first⟩
    | ok b =>
      rw [first] at failed
      cases rest : l.mapM f with
      | error other =>
        rw [rest] at failed
        cases failed
        obtain ⟨a', member, failed⟩ := ih rest
        exact ⟨a', List.mem_cons_of_mem a member, failed⟩
      | ok bs =>
        rw [rest] at failed
        cases failed

theorem exists_of_mapM_eq_ok {bs : List β} (done : l.mapM f = .ok bs) {a : α} (member : a ∈ l) :
    ∃ b, f a = .ok b := by
  have items := mapM_eq_ok_iff.1 done
  induction items with
  | nil => simp at member
  | @cons a' b l bs first rest ih =>
    rcases List.mem_cons.1 member with rfl | later
    · exact ⟨b, first⟩
    · exact ih (mapM_eq_ok_iff.2 rest) later

namespace Store

variable {s : Store} {n m : Nat} {r : Ref} {text : String}

/-! ## Procedures in procedures -/

/-- The text for a procedure whose parameters are described. -/
def procedureText (params : List String) : String :=
  "(lambda (" ++ " ".intercalate params ++ ") ...)"

/-- A description is the same at every depth, or it is that of a procedure. -/
theorem briefFrom_cases (s : Store) (r : Ref) :
    (∃ text, ∀ n, s.briefFrom (n + 1) r = .ok text) ∨
      ∃ params body env, s.node? r = some (.closure params body env) ∧
        ∀ n, s.briefFrom (n + 1) r = (params.mapM (s.briefFrom n)).map procedureText := by
  cases found : s.node? r with
  | none => exact .inl ⟨_, fun n => by rw [briefFrom, found]; rfl⟩
  | some node =>
    cases node with
    | closure params body env =>
      refine .inr ⟨params, body, env, rfl, fun n => ?_⟩
      rw [briefFrom, found]
      cases shown : params.mapM (s.briefFrom n) <;> simp only [shown] <;> rfl
    | _ => exact .inl ⟨_, fun n => by rw [briefFrom, found]; rfl⟩

theorem briefFrom_error {fault : Fault} (failed : s.briefFrom n r = .error fault) :
    fault = .tooDeep := by
  induction n generalizing r with
  | zero =>
    cases failed
    rfl
  | succ n ih =>
    rcases s.briefFrom_cases r with ⟨text, plain⟩ | ⟨params, body, env, -, inside⟩
    · rw [plain] at failed
      cases failed
    · rw [inside] at failed
      cases shown : params.mapM (s.briefFrom n) with
      | error other =>
        rw [shown] at failed
        cases failed
        obtain ⟨param, -, failed⟩ := exists_mem_of_mapM_eq_error shown
        exact ih failed
      | ok texts =>
        rw [shown] at failed
        cases failed

theorem briefFrom_succ (shown : s.briefFrom n r = .ok text) : s.briefFrom (n + 1) r = .ok text := by
  induction n generalizing r text with
  | zero => cases shown
  | succ n ih =>
    rcases s.briefFrom_cases r with ⟨text', plain⟩ | ⟨params, body, env, -, inside⟩
    · rw [plain] at shown ⊢
      exact shown
    · rw [inside] at shown ⊢
      cases texts : params.mapM (s.briefFrom n) with
      | error fault =>
        rw [texts] at shown
        cases shown
      | ok texts' =>
        rw [texts] at shown
        have later : params.mapM (s.briefFrom (n + 1)) = .ok texts' :=
          mapM_eq_ok_iff.2 ((mapM_eq_ok_iff.1 texts).imp fun _ _ => ih)
        rw [later]
        exact shown

/-- What is finished at one depth only after it was not at the one before is a procedure, and one of
its parameters is finished one depth earlier. -/
theorem exists_param (unfinished : s.briefFrom (n + 1) r = .error .tooDeep)
    (shown : s.briefFrom (n + 2) r = .ok text) :
    (∃ loc, r = .cell loc ∧ loc < s.size) ∧ ∃ param text',
      s.briefFrom n param = .error .tooDeep ∧ s.briefFrom (n + 1) param = .ok text' := by
  rcases s.briefFrom_cases r with ⟨text', plain⟩ | ⟨params, body, env, found, inside⟩
  · rw [plain] at unfinished
    cases unfinished
  · refine ⟨?_, ?_⟩
    · cases r with
      | nil => cases found
      | cell loc => exact ⟨loc, rfl, lt_size found⟩
    · rw [inside] at unfinished shown
      cases texts : params.mapM (s.briefFrom n) with
      | ok texts' =>
        rw [texts] at unfinished
        cases unfinished
      | error fault =>
        obtain ⟨param, member, failed⟩ := exists_mem_of_mapM_eq_error texts
        obtain rfl := briefFrom_error failed
        cases texts' : params.mapM (s.briefFrom (n + 1)) with
        | error fault =>
          rw [texts'] at shown
          cases shown
        | ok _ =>
          obtain ⟨text', shown'⟩ := exists_of_mapM_eq_ok texts' member
          exact ⟨param, text', failed, shown'⟩

/-- The cells whose description is finished at a depth. -/
def finished (s : Store) (n : Nat) : Finset Loc :=
  (Finset.range s.size).filter fun loc => (s.briefFrom n (.cell loc)).isOk

theorem mem_finished {loc : Loc} :
    loc ∈ s.finished n ↔ loc < s.size ∧ ∃ text, s.briefFrom n (.cell loc) = .ok text := by
  rw [finished, Finset.mem_filter, Finset.mem_range]
  cases s.briefFrom n (.cell loc) <;> simp [Except.isOk, Except.toBool]

theorem card_finished_le (s : Store) (n : Nat) : (s.finished n).card ≤ s.size :=
  (Finset.card_filter_le _ _).trans (Nat.le_of_eq (Finset.card_range s.size))

/-- For each depth that is tried in vain there is a cell. -/
theorem le_card_finished (unfinished : s.briefFrom n r = .error .tooDeep)
    (shown : s.briefFrom (n + 1) r = .ok text) : n ≤ (s.finished (n + 1)).card := by
  induction n generalizing r text with
  | zero => exact Nat.zero_le _
  | succ n ih =>
    obtain ⟨⟨loc, rfl, exist⟩, param, text', unfinished', shown'⟩ := exists_param unfinished shown
    have more : s.finished (n + 1) ⊆ s.finished (n + 2) := by
      intro q member
      obtain ⟨exist', text', shown'⟩ := mem_finished.1 member
      exact mem_finished.2 ⟨exist', text', briefFrom_succ shown'⟩
    have new : loc ∉ s.finished (n + 1) := by
      rw [mem_finished, unfinished]
      simp
    have grown : s.finished (n + 1) ⊂ s.finished (n + 2) :=
      (Finset.ssubset_iff_of_subset more).2 ⟨loc, mem_finished.2 ⟨exist, text, shown⟩, new⟩
    exact Nat.lt_of_le_of_lt (ih unfinished' shown') (Finset.card_lt_card grown)

/-- With more depth than there are cells, more of it makes no difference. -/
theorem briefFrom_eq_brief (enough : s.size < n) (r : Ref) : s.briefFrom n r = s.brief r := by
  rw [brief]
  induction n, enough using Nat.le_induction with
  | base => rfl
  | succ n enough ih =>
    rw [← ih]
    cases before : s.briefFrom n r with
    | ok text => exact briefFrom_succ before
    | error fault =>
      obtain rfl := briefFrom_error before
      cases after : s.briefFrom (n + 1) r with
      | error fault' => rw [briefFrom_error after]
      | ok text =>
        have few := (le_card_finished before after).trans (s.card_finished_le (n + 1))
        omega

/-! ## Full descriptions -/

/-- A description fails where procedures exceed any depth, or frames go round. -/
theorem describe_error {fault : Fault} (failed : s.describe r = .error fault) :
    fault = .tooDeep ∨ fault = .endless := by
  unfold describe at failed
  split at failed
  · cases failed
  · split at failed
    · cases failed
      exact .inr rfl
    · cases failed
  · exact .inl (briefFrom_error failed)

theorem objection_cases (s : Store) (wording : String → Error) (r : Ref) :
    (∃ shown, s.objection wording r = .error (wording shown)) ∨
      s.objection wording r = .tooDeep ∨ s.objection wording r = .endless := by
  rw [objection]
  cases shown : s.describe r with
  | ok text => exact .inl ⟨text, rfl⟩
  | error fault => exact .inr (describe_error shown)

theorem describe_frame {loc : Loc} {frame : Frame}
    (found : s.node? (.cell loc) = some (.environment frame)) :
    s.describe (.cell loc) =
      if s.isEndless loc then .error .endless else .ok (s.scopeSummary loc) := by
  unfold describe
  simp only [found]
  rfl

theorem objection_frame {loc : Loc} {frame : Frame}
    (found : s.node? (.cell loc) = some (.environment frame)) (wording : String → Error) :
    s.objection wording (.cell loc) =
      if s.isEndless loc then .endless else .error (wording (s.scopeSummary loc)) := by
  rw [objection, describe_frame found]
  cases s.isEndless loc <;> rfl

end Store

end LittleScheme
