import LittleScheme.Evaluation.Arithmetic

/-!
# Results of arithmetic

Whatever integers they are applied to, `fold`, `difference`, `magnitude` and `ratio` give results in
the signed 64-bit range: each step is wrapped, and an operator that is applied to too few operands
to make a step gives a constant.  The first operand of a difference or a ratio is not wrapped
itself, but it is never the result.  A ratio fails for no reason but a divisor that is zero.
-/

namespace LittleScheme.Arithmetic

open Integer64

theorem inRange_fold (f : Int → Int → Int) {start : Int} (inRange : InRange start)
    (ns : List Int) : InRange (fold f start ns) := by
  induction ns generalizing start with
  | nil => exact inRange
  | cons n ns ih => exact ih (inRange_wrap _)

theorem inRange_difference (ns : List Int) : InRange (difference ns) := by
  match ns with
  | [] => decide
  | [n] => exact inRange_wrap _
  | n :: m :: ns => exact inRange_fold _ (inRange_wrap (n - m)) ns

theorem inRange_magnitude (ns : List Int) : InRange (magnitude ns) := by
  cases ns with
  | nil => decide
  | cons n ns => exact inRange_wrap _

/-- Dividing by one more integer either fails, since it is zero, or goes on from a wrapped
quotient. -/
theorem quotients_cons (a b : Int) (bs : List Int) :
    quotients a (b :: bs) =
      if b = 0 then .error .divisionByZero else quotients (wrap (a.tdiv b)) bs := by
  by_cases zero : b = 0 <;>
    simp [quotients, quotient, truncated_eq_tdiv, zero, Bind.bind, Except.bind]

theorem inRange_quotients {a : Int} (inRange : InRange a) {bs : List Int} {q : Int}
    (divided : quotients a bs = .ok q) : InRange q := by
  induction bs generalizing a with
  | nil =>
    cases divided
    exact inRange
  | cons b bs ih =>
    rw [quotients_cons] at divided
    split at divided
    · cases divided
    · exact ih (inRange_wrap _) divided

theorem inRange_ratio {ns : List Int} {q : Int} (divided : ratio ns = .ok q) : InRange q := by
  match ns with
  | [] =>
    cases divided
    decide
  | [n] => exact inRange_quotients (by decide) divided
  | n :: m :: ns =>
    rw [ratio, quotients_cons] at divided
    · split at divided
      · cases divided
      · exact inRange_quotients (inRange_wrap _) divided
    · simp

theorem quotients_error {a : Int} {bs : List Int} {e : Error}
    (failed : quotients a bs = .error e) : e = .divisionByZero := by
  induction bs generalizing a with
  | nil => cases failed
  | cons b bs ih =>
    rw [quotients_cons] at failed
    split at failed
    · cases failed
      rfl
    · exact ih failed

/-- A ratio fails for no reason but a divisor that is zero. -/
theorem ratio_error {ns : List Int} {e : Error} (failed : ratio ns = .error e) :
    e = .divisionByZero := by
  rw [ratio.eq_def] at failed
  split at failed
  · cases failed
  · exact quotients_error failed
  · exact quotients_error failed

end LittleScheme.Arithmetic
