import LittleScheme.Proofs.Evaluation.Operands
import Mathlib.Data.List.Chain

/-!
# Chained comparisons

`=`, `<`, `>`, `<=` and `>=` look at neighbours only.  Since equality and the orders are transitive,
what holds between neighbours holds between any two operands, the earlier one on the left
(`Arithmetic.ordered_iff_pairwise`).  So the order of the operands of `=` does not count, and `<` is
`>` on the operands from the right.  All operands have to be integers, also those behind a pair of
neighbours that decides the answer.
-/

namespace LittleScheme

/-! ## Neighbours -/

namespace Arithmetic

theorem ordered_iff_isChain (test : Int → Int → Bool) (ns : List Int) :
    ordered test ns = true ↔ ns.IsChain fun a b => test a b = true := by
  induction ns with
  | nil => simp [ordered]
  | cons a ns ih =>
    cases ns with
    | nil => simp [ordered]
    | cons b ns => rw [ordered, Bool.and_eq_true, ih, List.isChain_cons_cons]

/-- If a relation is transitive, it holds between all if it holds between neighbours. -/
theorem ordered_iff_pairwise {R : Int → Int → Prop} [DecidableRel R]
    (trans : ∀ {a b c}, R a b → R b c → R a c) (ns : List Int) :
    ordered (fun a b => decide (R a b)) ns = true ↔ ns.Pairwise R := by
  have : Trans R R R := ⟨trans⟩
  simp only [ordered_iff_isChain, decide_eq_true_eq, List.isChain_iff_pairwise]

end Arithmetic

/-! ## Comparisons -/

/-- The operators that compare integers. -/
inductive Comparison
  | eq | lt | gt | le | ge
deriving DecidableEq

namespace Comparison

/-- The comparison as an operator. -/
def primitive : Comparison → Primitive
  | .eq => .eq
  | .lt => .lt
  | .gt => .gt
  | .le => .le
  | .ge => .ge

/-- The relation between an operand and a later one. -/
def Holds : Comparison → Int → Int → Prop
  | .eq, a, b => a = b
  | .lt, a, b => a < b
  | .gt, a, b => a > b
  | .le, a, b => a ≤ b
  | .ge, a, b => a ≥ b

instance (c : Comparison) : DecidableRel c.Holds :=
  match c with
  | .eq => fun a b => inferInstanceAs (Decidable (a = b))
  | .lt => fun a b => inferInstanceAs (Decidable (a < b))
  | .gt => fun a b => inferInstanceAs (Decidable (a > b))
  | .le => fun a b => inferInstanceAs (Decidable (a ≤ b))
  | .ge => fun a b => inferInstanceAs (Decidable (a ≥ b))

/-- The comparison with the sides exchanged. -/
def opposite : Comparison → Comparison
  | .eq => .eq
  | .lt => .gt
  | .gt => .lt
  | .le => .ge
  | .ge => .le

variable {c : Comparison} {s : Store} {args : List Ref} {ns : List Int}

theorem Holds.trans {a b d : Int} (first : c.Holds a b) (second : c.Holds b d) : c.Holds a d := by
  cases c <;> simp only [Holds] at * <;> omega

theorem holds_opposite {a b : Int} : c.opposite.Holds a b ↔ c.Holds b a := by
  cases c with
  | eq => exact eq_comm
  | _ => exact Iff.rfl

theorem pairwise_reverse : ns.reverse.Pairwise c.opposite.Holds ↔ ns.Pairwise c.Holds := by
  simp only [List.pairwise_reverse, holds_opposite]

/-- Each of the operators relates neighbours. -/
theorem call_eq_relate (c : Comparison) (args : List Ref) :
    c.primitive.call args =
      c.primitive.relate (fun a b => decide (c.Holds a b)) args := by
  cases c <;> rfl

/-- Integers are compared, each with all later ones. -/
theorem call_of_integers (operands : s.integers? args = some ns) :
    c.primitive.call args s =
      .ok (.cell s.size) (s.register (.boolean (decide (ns.Pairwise c.Holds)))) := by
  have taken : c.primitive.integers args s = .ok ns s := by
    rw [Primitive.integers_eq, operands]
  have answer : Arithmetic.ordered (fun a b => decide (c.Holds a b)) ns =
      decide (ns.Pairwise c.Holds) := by
    rw [Bool.eq_iff_iff, Arithmetic.ordered_iff_pairwise (R := c.Holds) .trans,
      decide_eq_true_iff]
  rw [call_eq_relate, Primitive.relate, StoreM.bind_ok taken, answer]
  rfl

/-- An operand that is no integer is the error, whatever the others are. -/
theorem call_of_none (other : s.integers? args = none) :
    c.primitive.call args s = .error (.error (.numbersExpected c.primitive)) s := by
  have refused : c.primitive.integers args s =
      .error (.error (.numbersExpected c.primitive)) s := by
    rw [Primitive.integers_eq, other]
  rw [call_eq_relate, Primitive.relate, StoreM.bind_error refused]

/-- The opposite comparison gives the same answer from the right. -/
theorem call_opposite_reverse (c : Comparison) (args : List Ref) (s : Store) (r : Ref)
    (s' : Store) : c.opposite.primitive.call args.reverse s = .ok r s' ↔
      c.primitive.call args s = .ok r s' := by
  cases operands : s.integers? args with
  | none =>
    have operands' : s.integers? args.reverse = none := by
      simpa only [Store.integers?_eq_none_iff, List.mem_reverse] using operands
    rw [call_of_none operands, call_of_none operands']
    exact iff_of_false nofun nofun
  | some ns =>
    have operands' : s.integers? args.reverse = some ns.reverse := by
      simpa only [Store.integers?_eq_some_iff, List.forall₂_reverse_iff] using operands
    rw [call_of_integers operands, call_of_integers operands']
    simp only [pairwise_reverse]

/-- Equality does not depend on the order of the operands, nor does its error. -/
theorem call_eq_of_perm {args' : List Ref} (perm : args'.Perm args) :
    Primitive.eq.call args' s = Primitive.eq.call args s := by
  cases operands : s.integers? args with
  | none =>
    have operands' : s.integers? args' = none := by
      simpa only [Store.integers?_eq_none_iff, perm.mem_iff] using operands
    exact (call_of_none (c := .eq) operands').trans (call_of_none operands).symm
  | some ns =>
    obtain ⟨ns', operands', perm'⟩ := Store.exists_integers?_of_perm operands perm
    have same : ns'.Pairwise eq.Holds ↔ ns.Pairwise eq.Holds := perm'.pairwise_iff Eq.symm
    refine (call_of_integers (c := .eq) operands').trans ?_
    simp only [same]
    exact (call_of_integers operands).symm

end Comparison

open Comparison in
/-- **Comparisons decide the whole sequence.**  Applied to any operands, each of `=`, `<`, `>`, `<=`
and `>=` fails exactly if one of them, wherever it stands, is no integer; the error is one of
runtime and leaves the store as it is.  Otherwise the answer is a new boolean, which is true exactly
if the relation holds between any operand and any later one.  The opposite comparison gives the same
answer on the operands in reverse order, and `=` on the operands in any order. -/
theorem comparisons_decide (s : Store) (args : List Ref) :
    (∀ c : Comparison,
      ((∃ fault s', c.primitive.call args s = .error fault s') ↔
        ∃ r ∈ args, s.integer? r = none) ∧
      (∀ fault s', c.primitive.call args s = .error fault s' →
        s' = s ∧ ∃ e, fault = .error e ∧ e.category = .runtime) ∧
      (∀ ns, s.integers? args = some ns → ∃ answer,
        c.primitive.call args s = .ok (.cell s.size) (s.register (.boolean answer)) ∧
        (answer = true ↔
          ∀ (i j : Nat) (a b : Int), i < j → ns[i]? = some a → ns[j]? = some b → c.Holds a b)) ∧
      ∀ r s', c.opposite.primitive.call args.reverse s = .ok r s' ↔
        c.primitive.call args s = .ok r s') ∧
    ∀ args', args'.Perm args → Primitive.eq.call args' s = Primitive.eq.call args s := by
  refine ⟨fun c => ?_, fun args' perm => call_eq_of_perm perm⟩
  cases operands : s.integers? args with
  | none =>
    have failed := call_of_none (c := c) operands
    refine ⟨iff_of_true ⟨_, _, failed⟩ (Store.integers?_eq_none_iff.1 operands), ?_, nofun,
      call_opposite_reverse c args s⟩
    intro fault s' stopped
    rw [failed] at stopped
    cases stopped
    exact ⟨rfl, _, rfl, rfl⟩
  | some ns =>
    have answered := call_of_integers (c := c) operands
    have proper : ¬∃ r ∈ args, s.integer? r = none := by
      rw [← Store.integers?_eq_none_iff, operands]
      nofun
    refine ⟨iff_of_false ?_ proper, ?_, ?_, call_opposite_reverse c args s⟩
    · rintro ⟨fault, s', stopped⟩
      rw [answered] at stopped
      cases stopped
    · intro fault s' stopped
      rw [answered] at stopped
      cases stopped
    · rintro ms ⟨⟩
      refine ⟨_, answered, ?_⟩
      rw [decide_eq_true_iff, List.pairwise_iff_getElem]
      constructor
      · intro all i j a b less first second
        obtain ⟨hi, rfl⟩ := List.getElem?_eq_some_iff.1 first
        obtain ⟨hj, rfl⟩ := List.getElem?_eq_some_iff.1 second
        exact all i j hi hj less
      · intro all i j hi hj less
        exact all i j _ _ less (List.getElem?_eq_getElem hi) (List.getElem?_eq_getElem hj)

end LittleScheme
