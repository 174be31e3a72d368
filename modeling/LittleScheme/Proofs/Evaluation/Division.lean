import LittleScheme.Proofs.Evaluation.Arithmetic
import LittleScheme.Proofs.Evaluation.Operands
import Mathlib.Algebra.BigOperators.Group.List.Basic
import Mathlib.Algebra.Ring.Int.Defs

/-!
# Division

`/` divides its first operand by one operand after the other, rounding toward zero each time; a
single operand divides one.  It fails if there is no operand, if an operand is no integer, and if a
divisor is zero, in this order.

Dividing by two integers in turn is dividing by their product (`Arithmetic.tdiv_tdiv`).  The
quotient of integers in range is in range, except for `least / -1`, which is wrapped to `least`
again.  As long as that does not happen, the result is the quotient by the exact product, even where
the product leaves the range.
-/

namespace LittleScheme

namespace Arithmetic

open Integer64

/-- The operands that divide: all but the first, or the only one. -/
def divisors {α : Type} : List α → List α
  | [a] => [a]
  | as => as.tail

/-- The quotients of successive divisions, each before it is wrapped. -/
def unwrapped (a : Int) : List Int → List Int
  | [] => []
  | b :: bs => a.tdiv b :: unwrapped (wrap (a.tdiv b)) bs

/-- The quotient rounded toward zero, or the least integer in range where that quotient is one
beyond the greatest. -/
def divide (a b : Int) : Int := if a.tdiv b = 2 ^ 63 then least else a.tdiv b

/-! ## Quotients rounded toward zero -/

/-- Rounding toward zero in between does not matter. -/
theorem tdiv_tdiv (a b c : Int) : (a.tdiv b).tdiv c = a.tdiv (b * c) := by
  have unsigned (a b c : Nat) : ((a : Int).tdiv b).tdiv c = (a : Int).tdiv (b * c) := by
    rw [← Int.ofNat_tdiv, ← Int.ofNat_tdiv, Nat.div_div_eq_div_mul, Int.ofNat_tdiv, Int.natCast_mul]
  obtain ⟨a, rfl | rfl⟩ := a.eq_nat_or_neg <;> obtain ⟨b, rfl | rfl⟩ := b.eq_nat_or_neg <;>
    obtain ⟨c, rfl | rfl⟩ := c.eq_nat_or_neg <;>
    simp only [Int.neg_tdiv, Int.tdiv_neg, Int.neg_mul, Int.mul_neg, Int.neg_neg, unsigned]

/-- Only the least integer in range has a quotient that is not in range, and only by minus one. -/
theorem tdiv_eq_two_pow_iff {a : Int} (inRange : InRange a) (b : Int) :
    a.tdiv b = 2 ^ 63 ↔ a = least ∧ b = -1 := by
  constructor
  · intro beyond
    have size : (2 : Int) ^ 63 = (a.natAbs / b.natAbs : Nat) := by
      have sizes : (a.tdiv b).natAbs = a.natAbs / b.natAbs := Int.natAbs_tdiv a b
      rw [← sizes, beyond]
      rfl
    simp only [InRange, least, greatest] at inRange ⊢
    -- a divisor of two or more halves the size at least
    have unit : b.natAbs = 1 := by
      by_contra other
      rcases Nat.lt_or_gt_of_ne other with zero | more
      · obtain rfl : b = 0 := by omega
        simp at beyond
      · have half : a.natAbs / b.natAbs ≤ a.natAbs / 2 := Nat.div_le_div_left more (by decide)
        omega
    obtain rfl | rfl : b = 1 ∨ b = -1 := by omega
    · rw [Int.tdiv_one] at beyond
      omega
    · rw [Int.tdiv_neg, Int.tdiv_one] at beyond
      omega
  · rintro ⟨rfl, rfl⟩
    decide

theorem inRange_tdiv {a b : Int} (inRange : InRange a) (within : a.tdiv b ≠ 2 ^ 63) :
    InRange (a.tdiv b) := by
  have smaller := Int.natAbs_tdiv_le_natAbs a b
  simp only [InRange, least, greatest] at *
  omega

/-- Wrapping makes a difference for the one quotient that is not in range. -/
theorem wrap_tdiv {a b : Int} (inRange : InRange a) : wrap (a.tdiv b) = divide a b := by
  rw [divide]
  split
  · rename_i beyond
    rw [beyond]
    decide
  · rename_i within
    exact wrap_of_inRange (inRange_tdiv inRange within)

/-! ## Successive division -/

theorem quotients_of_zero_mem {bs : List Int} (zero : 0 ∈ bs) (a : Int) :
    quotients a bs = .error .divisionByZero := by
  induction bs generalizing a with
  | nil => simp at zero
  | cons b bs ih =>
    rw [quotients_cons]
    split
    · rfl
    · rename_i nonzero
      exact ih (by simpa [Ne.symm nonzero] using zero) _

/-- Without a zero, each step divides. -/
theorem quotients_of_zero_not_mem {bs : List Int} (nonzero : 0 ∉ bs) (a : Int) :
    quotients a bs = .ok (bs.foldl (fun q b => wrap (q.tdiv b)) a) := by
  induction bs generalizing a with
  | nil => rfl
  | cons b bs ih =>
    rw [List.mem_cons, not_or] at nonzero
    rw [quotients_cons, if_neg (Ne.symm nonzero.1), ih nonzero.2, List.foldl_cons]

/-- From an integer in range, each step is the quotient unless that is the one beyond the range. -/
theorem quotients_eq_foldl {a : Int} (inRange : InRange a) {bs : List Int} (nonzero : 0 ∉ bs) :
    quotients a bs = .ok (bs.foldl divide a) := by
  rw [quotients_of_zero_not_mem nonzero]
  clear nonzero
  congr 1
  induction bs generalizing a with
  | nil => rfl
  | cons b bs ih =>
    rw [List.foldl_cons, List.foldl_cons, ih (inRange_wrap _), wrap_tdiv inRange]

/-- If all quotients stay in range, successive division is division by the product. -/
theorem quotients_eq_tdiv {a : Int} (inRange : InRange a) {bs : List Int} (nonzero : 0 ∉ bs)
    (within : 2 ^ 63 ∉ unwrapped a bs) : quotients a bs = .ok (a.tdiv bs.prod) := by
  induction bs generalizing a with
  | nil => simp [quotients]
  | cons b bs ih =>
    rw [List.mem_cons, not_or] at nonzero
    rw [unwrapped, List.mem_cons, not_or] at within
    have next : InRange (a.tdiv b) := inRange_tdiv inRange (Ne.symm within.1)
    rw [wrap_of_inRange next] at within
    rw [quotients_cons, if_neg (Ne.symm nonzero.1), wrap_of_inRange next,
      ih next nonzero.2 within.2, List.prod_cons, tdiv_tdiv]

example : quotients least [-1, 2] = .ok (-2 ^ 62) ∧ least.tdiv (-1 * 2) = 2 ^ 62 := by decide

/-- A ratio fails exactly if there is a zero among the divisors. -/
theorem ratio_of_zero_mem {ns : List Int} (zero : 0 ∈ divisors ns) :
    ratio ns = .error .divisionByZero := by
  match ns with
  | [] => simp [divisors] at zero
  | [b] => exact quotients_of_zero_mem zero 1
  | a :: b :: bs => exact quotients_of_zero_mem zero a

theorem exists_ratio_of_zero_not_mem {ns : List Int} (nonzero : 0 ∉ divisors ns) :
    ∃ q, ratio ns = .ok q := by
  match ns with
  | [] => exact ⟨1, rfl⟩
  | [b] => exact ⟨_, quotients_of_zero_not_mem nonzero 1⟩
  | a :: b :: bs => exact ⟨_, quotients_of_zero_not_mem nonzero a⟩

/-- The divisors among the operands are the divisors among their values. -/
theorem forall₂_divisors {α β : Type} {R : α → β → Prop} {as : List α} {bs : List β}
    (related : List.Forall₂ R as bs) : List.Forall₂ R (divisors as) (divisors bs) := by
  cases related with
  | nil => exact .nil
  | cons first rest =>
    cases rest with
    | nil => exact .cons first .nil
    | cons second rest => exact .cons second rest

end Arithmetic

/-! ## The operator -/

namespace Primitive

open Arithmetic

variable {s : Store} {args : List Ref} {ns : List Int}

theorem call_div (nonempty : args ≠ []) :
    Primitive.div.call args = Primitive.div.compute ratio args :=
  bind_atLeastOne nonempty _

/-- An operand that is no integer is the error, whatever the others are. -/
theorem call_div_of_none (other : s.integers? args = none) :
    Primitive.div.call args s = .error (.error (.numbersExpected .div)) s := by
  rw [call_div (by rintro rfl; cases other), compute_of_none other]

theorem gives_div (nonempty : args ≠ []) (operands : s.integers? args = some ns) {q : Int}
    (divided : ratio ns = .ok q) : Primitive.div.Gives s args q := by
  rw [Gives, call_div nonempty, compute_of_ok operands divided]

/-- A divisor is zero among the operands if one is among their values. -/
theorem exists_zero_divisor_iff (operands : s.integers? args = some ns) :
    (∃ r ∈ divisors args, s.integer? r = some 0) ↔ 0 ∈ divisors ns := by
  have related := forall₂_divisors (Store.integers?_eq_some_iff.1 operands)
  generalize divisors args = rs at related
  generalize divisors ns = ms at related
  induction related with
  | nil => simp
  | cons first _ ih =>
    rw [List.exists_mem_cons_iff, List.mem_cons, first, Option.some.injEq, eq_comm]
    exact or_congr_right ih

/-- Either the operands cannot be divided, which is an error of runtime, or they are. -/
theorem call_div_cases (s : Store) (args : List Ref) :
    (args = [] ∨ (∃ r ∈ args, s.integer? r = none) ∨ ∃ r ∈ divisors args, s.integer? r = some 0) ∧
        (∃ e, Primitive.div.call args s = .error (.error e) s ∧ e.category = .runtime) ∨
      ¬(args = [] ∨ (∃ r ∈ args, s.integer? r = none) ∨
          ∃ r ∈ divisors args, s.integer? r = some 0) ∧
        ∃ q, Primitive.div.Gives s args q := by
  by_cases empty : args = []
  · subst empty
    exact .inl ⟨.inl rfl, _, rfl, rfl⟩
  rw [← Store.integers?_eq_none_iff]
  cases operands : s.integers? args with
  | none => exact .inl ⟨.inr (.inl rfl), _, call_div_of_none operands, rfl⟩
  | some ns =>
    rw [exists_zero_divisor_iff operands]
    by_cases zero : 0 ∈ divisors ns
    · refine .inl ⟨.inr (.inr zero), .divisionByZero, ?_, rfl⟩
      rw [call_div empty, compute_of_error operands (ratio_of_zero_mem zero)]
    · obtain ⟨q, divided⟩ := exists_ratio_of_zero_not_mem zero
      exact .inr ⟨by simp [empty, zero], q, gives_div empty operands divided⟩

end Primitive

open Arithmetic Integer64 in
/-- **Division.**  Applied to any operands, `/` fails exactly if there is none, or one is no
integer, or a divisor is zero; the error is one of runtime and leaves the store as it is, and an
operand that is no integer is the error wherever it stands.  Otherwise, if the operands are in
range, each step divides, rounding toward zero, except that it gives the least integer in range
where the quotient is `2 ^ 63`, which takes the least integer divided by minus one; and if no step
does that, the result is the quotient of the first operand by the product of the others, rounded
toward zero. -/
theorem division_laws (s : Store) (args : List Ref) :
    ((∃ fault s', Primitive.div.call args s = .error fault s') ↔
      args = [] ∨ (∃ r ∈ args, s.integer? r = none) ∨
        ∃ r ∈ divisors args, s.integer? r = some 0) ∧
      (∀ fault s', Primitive.div.call args s = .error fault s' →
        s' = s ∧ ∃ e, fault = .error e ∧ e.category = .runtime) ∧
      ((∃ r ∈ args, s.integer? r = none) →
        Primitive.div.call args s = .error (.error (.numbersExpected .div)) s) ∧
      (∀ ns, s.integers? args = some ns → (∀ n ∈ ns, InRange n) → 0 ∉ divisors ns →
        (∀ b, ns = [b] → Primitive.div.Gives s args (Int.tdiv 1 b)) ∧
          ∀ a b bs, ns = a :: b :: bs →
            Primitive.div.Gives s args ((b :: bs).foldl divide a) ∧
              (2 ^ 63 ∉ unwrapped a (b :: bs) →
                Primitive.div.Gives s args (a.tdiv (b :: bs).prod))) ∧
      ∀ a b : Int, InRange a → (a.tdiv b = 2 ^ 63 ↔ a = least ∧ b = -1) := by
  refine ⟨?_, ?_, fun other => Primitive.call_div_of_none (Store.integers?_eq_none_iff.2 other), ?_,
    fun a b inRange => tdiv_eq_two_pow_iff inRange b⟩
  · rcases Primitive.call_div_cases s args with ⟨faulty, e, failed, -⟩ | ⟨sound, q, gives⟩
    · exact iff_of_true ⟨_, _, failed⟩ faulty
    · refine iff_of_false ?_ sound
      rintro ⟨fault, s', failed⟩
      rw [gives] at failed
      cases failed
  · intro fault s' stopped
    rcases Primitive.call_div_cases s args with ⟨-, e, failed, runtime⟩ | ⟨-, q, gives⟩
    · rw [failed] at stopped
      cases stopped
      exact ⟨rfl, e, rfl, runtime⟩
    · rw [gives] at stopped
      cases stopped
  · intro ns operands inRange nonzero
    have nonempty {n : Int} {rest : List Int} (split : ns = n :: rest) : args ≠ [] := by
      rintro rfl
      cases operands
      cases split
    refine ⟨?_, ?_⟩
    · rintro b rfl
      have within : 2 ^ 63 ∉ unwrapped 1 [b] := by
        rw [unwrapped, unwrapped, List.mem_singleton, eq_comm, tdiv_eq_two_pow_iff (by decide)]
        simp [least]
      have divided : ratio [b] = .ok (Int.tdiv 1 [b].prod) :=
        quotients_eq_tdiv (by decide) nonzero within
      rw [List.prod_singleton] at divided
      exact Primitive.gives_div (nonempty rfl) operands divided
    · rintro a b bs rfl
      have first : InRange a := inRange a (by simp)
      refine ⟨?_, fun within => ?_⟩
      · exact Primitive.gives_div (nonempty rfl) operands (quotients_eq_foldl first nonzero)
      · exact Primitive.gives_div (nonempty rfl) operands (quotients_eq_tdiv first nonzero within)

open Integer64 in
/-- The least integer divided by minus one is wrapped before the division goes on.  Halves are
rounded toward zero, one divided by two is zero, and of two operands that are at fault the one that
is no integer is told of. -/
theorem division_laws_least :
    let s : Store :=
      { cells := #[{ node := .integer least }, { node := .integer (-1) }, { node := .integer 2 },
          { node := .integer (-7) }, { node := .integer 0 }, { node := .boolean true }]
        registry := [5, 4, 3, 2, 1, 0], allocations := 6 }
    Primitive.div.Gives s [.cell 0, .cell 1, .cell 2] (-2 ^ 62) ∧
      Primitive.div.Gives s [.cell 3, .cell 2, .cell 2] (-1) ∧ Primitive.div.Gives s [.cell 2] 0 ∧
      (∃ e, Primitive.div.call [.cell 2, .cell 4] s = .error (.error e) s ∧
        e.category = .runtime) ∧
      Primitive.div.call [.cell 2, .cell 4, .cell 5] s =
        .error (.error (.numbersExpected .div)) s := by
  intro s
  obtain ⟨-, -, -, wrapped, -⟩ := division_laws s [.cell 0, .cell 1, .cell 2]
  obtain ⟨-, -, -, exact, -⟩ := division_laws s [.cell 3, .cell 2, .cell 2]
  obtain ⟨-, -, -, single, -⟩ := division_laws s [.cell 2]
  obtain ⟨fails, faults, -⟩ := division_laws s [.cell 2, .cell 4]
  obtain ⟨-, -, other, -⟩ := division_laws s [.cell 2, .cell 4, .cell 5]
  refine ⟨?_, ?_, ?_, ?_, other ⟨.cell 5, by decide, rfl⟩⟩
  · exact ((wrapped [least, -1, 2] (by decide) (by decide) (by decide)).2 _ _ _ rfl).1
  · exact ((exact [-7, 2, 2] (by decide) (by decide) (by decide)).2 _ _ _ rfl).2 (by decide)
  · exact (single [2] (by decide) (by decide) (by decide)).1 2 rfl
  · obtain ⟨fault, s', failed⟩ := fails.2 (.inr (.inr ⟨.cell 4, by decide, rfl⟩))
    obtain ⟨rfl, e, rfl, runtime⟩ := faults fault s' failed
    exact ⟨e, failed, runtime⟩

end LittleScheme
