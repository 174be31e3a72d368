import LittleScheme.Fault
import LittleScheme.Integer64

/-!
# Arithmetic and comparison

`+`, `*`, `max` and `min` are `Arithmetic.fold`, a left fold from a neutral element; `-`, `/` and
`abs` are `difference`, `ratio` and `magnitude`; the comparisons are `ordered`, which tests
neighbours.  Each step of arithmetic is wrapped into the signed 64-bit range.

Division is computed from absolute values: `truncated a b` is `|a| / |b|`, negated if the signs of
`a` and `b` differ.  By `truncated_eq_tdiv` this is `Int.tdiv`, which the proofs use.
-/

namespace LittleScheme.Arithmetic

open Integer64

/-- Combine integers from the left, beginning with `start`, wrapping each result. -/
def fold (f : Int → Int → Int) (start : Int) (ns : List Int) : Int :=
  ns.foldl (fun result n => wrap (f result n)) start

/-- Subtract all further integers from the first; a single one is subtracted from zero. -/
def difference : List Int → Int
  | [] => 0
  | [n] => wrap (0 - n)
  | n :: ns => fold (· - ·) n ns

/-- The absolute value of the first integer. -/
def magnitude : List Int → Int
  | [] => 0
  | n :: _ => wrap n.natAbs

/-- The quotient of the absolute values, with the sign that the quotient has. -/
def truncated (a b : Int) : Int :=
  let q : Nat := a.natAbs / b.natAbs
  if (a < 0 ↔ b < 0) then q else -q

/-- Division truncates toward zero. -/
theorem truncated_eq_tdiv (a b : Int) : truncated a b = a.tdiv b := by
  have sign (n : Nat) : ¬(n : Int) < 0 := by omega
  match a, b with
  | .ofNat m, .ofNat n | .ofNat m, .negSucc n | .negSucc m, .ofNat n | .negSucc m, .negSucc n =>
    simp [truncated, Int.tdiv, sign]

/-- The quotient rounded toward zero. -/
def quotient (a b : Int) : Except Error Int :=
  if b = 0 then .error .divisionByZero else .ok (truncated a b)

/-- Divide by one integer after the other, wrapping each result. -/
def quotients (a : Int) : List Int → Except Error Int
  | [] => .ok a
  | b :: bs => do
    let q ← quotient a b
    quotients (wrap q) bs

/-- Divide the first integer by all further ones; a single one divides one. -/
def ratio : List Int → Except Error Int
  | [] => .ok 1
  | [n] => quotients 1 [n]
  | n :: ns => quotients n ns

/-- The test holds between all neighbours. -/
def ordered (test : Int → Int → Bool) : List Int → Bool
  | a :: b :: ns => test a b && ordered test (b :: ns)
  | _ => true

end LittleScheme.Arithmetic
