/-!
# Signed 64-bit integers

Integers of the language are mathematical integers in the signed 64-bit range.  `wrap n` brings a
result into the range by `(n - least) % 2 ^ 64 + least`, which is the balanced remainder `Int.bmod`;
a literal outside of the range is refused.
-/

namespace LittleScheme.Integer64

/-- The number of integers in range, `2 ^ 64`. -/
def modulus : Nat := 18446744073709551616

/-- The least integer in range, `-2 ^ 63`. -/
def least : Int := -9223372036854775808

/-- The greatest integer in range, `2 ^ 63 - 1`. -/
def greatest : Int := 9223372036854775807

/-- `n` lies between `least` and `greatest`. -/
def InRange (n : Int) : Prop := least ≤ n ∧ n ≤ greatest

instance (n : Int) : Decidable (InRange n) := inferInstanceAs (Decidable (_ ∧ _))

/-- Reduce modulo `2 ^ 64` into the signed range. -/
def wrap (n : Int) : Int := (n - least) % modulus + least

/-- Wrapping is taking the balanced remainder. -/
theorem wrap_eq_bmod (n : Int) : wrap n = n.bmod modulus := by
  rw [wrap, least, modulus, Int.bmod]
  omega

/-- The result of wrapping is in range. -/
theorem inRange_wrap (n : Int) : InRange (wrap n) := by
  have lower := Int.le_bmod (x := n) (m := modulus) (by decide)
  have upper := Int.bmod_lt (x := n) (m := modulus) (by decide)
  rw [InRange, wrap_eq_bmod, least, greatest]
  rw [modulus] at lower upper ⊢
  omega

/-- Wrapping keeps an integer that is in range. -/
theorem wrap_of_inRange {n : Int} (h : InRange n) : wrap n = n := by
  rw [InRange, least, greatest] at h
  rw [wrap_eq_bmod, modulus]
  exact Int.bmod_eq_of_le (by omega) (by omega)

end LittleScheme.Integer64
