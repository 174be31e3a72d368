import LittleScheme.Proofs.Evaluation.Arithmetic
import LittleScheme.Proofs.Evaluation.Operands
import Mathlib.Algebra.BigOperators.Group.List.Basic
import Mathlib.Data.Int.ModEq

/-!
# Wrapping once

Each step of `+`, `*` and `-` is wrapped, which changes an integer by a multiple of `2 ^ 64`.  Sums,
differences and products do not notice, so it is the same to compute exactly and to wrap once in the
end.  Hence the operands of `+` or `*` can be put in any order, and any of them can be put together
and be summed or multiplied on their own (`Grouping`).

The greatest and the least of operands in range are in range, so no step of `max` or `min` is
wrapped; the integer that these begin with is at the end of the range and never stands out.
-/

namespace LittleScheme

namespace Integer64

/-- The wrapped integer is the only one in range that is congruent. -/
theorem wrap_eq_iff {n m : Int} : wrap n = m ↔ InRange m ∧ m ≡ n [ZMOD 2 ^ 64] := by
  have half : ((modulus : Int) / 2 = 2 ^ 63) ∧ ((modulus : Int) + 1) / 2 = 2 ^ 63 := by decide
  have whole : (modulus : Int) = 2 ^ 64 := by decide
  rw [wrap_eq_bmod, Int.bmod_eq_iff (by decide), half.1, half.2, whole, ← Int.modEq_iff_dvd,
    Int.modEq_comm, InRange, least, greatest]
  constructor
  · rintro ⟨lower, upper, congruent⟩
    exact ⟨⟨by omega, by omega⟩, congruent⟩
  · rintro ⟨⟨lower, upper⟩, congruent⟩
    exact ⟨by omega, by omega, congruent⟩

theorem wrap_modEq (n : Int) : wrap n ≡ n [ZMOD 2 ^ 64] := (wrap_eq_iff.1 rfl).2

theorem wrap_eq_wrap_iff {a b : Int} : wrap a = wrap b ↔ a ≡ b [ZMOD 2 ^ 64] := by
  rw [wrap_eq_iff]
  constructor
  · rintro ⟨-, congruent⟩
    exact congruent.symm.trans (wrap_modEq b)
  · intro congruent
    exact ⟨inRange_wrap b, (wrap_modEq b).trans congruent.symm⟩

end Integer64

open Integer64

/-! ## Folds -/

namespace Arithmetic

/-- A fold that wraps each step is congruent to one that wraps none, if the steps do not notice
multiples of `2 ^ 64`. -/
theorem fold_modEq {f : Int → Int → Int}
    (respects : ∀ {a b : Int} (n : Int), a ≡ b [ZMOD 2 ^ 64] → f a n ≡ f b n [ZMOD 2 ^ 64])
    (ns : List Int) {a b : Int} (congruent : a ≡ b [ZMOD 2 ^ 64]) :
    fold f a ns ≡ ns.foldl f b [ZMOD 2 ^ 64] := by
  induction ns generalizing a b with
  | nil => exact congruent
  | cons n ns ih => exact ih ((wrap_modEq _).trans (respects n congruent))

theorem fold_eq_wrap {f : Int → Int → Int}
    (respects : ∀ {a b : Int} (n : Int), a ≡ b [ZMOD 2 ^ 64] → f a n ≡ f b n [ZMOD 2 ^ 64])
    {start : Int} (inRange : InRange start) (ns : List Int) :
    fold f start ns = wrap (ns.foldl f start) := by
  rw [← wrap_of_inRange (inRange_fold f inRange ns), wrap_eq_wrap_iff]
  exact fold_modEq respects ns rfl

theorem fold_add (ns : List Int) : fold (· + ·) 0 ns = wrap ns.sum := by
  rw [fold_eq_wrap (fun n congruent => congruent.add_right n) (by decide), List.sum_eq_foldl]

theorem fold_mul (ns : List Int) : fold (· * ·) 1 ns = wrap ns.prod := by
  rw [fold_eq_wrap (fun n congruent => congruent.mul_right n) (by decide), List.prod_eq_foldl]

/-- The first integer need not be in range, since there is a step behind it. -/
theorem difference_eq_wrap (a b : Int) (rest : List Int) :
    difference (a :: b :: rest) = wrap ((b :: rest).foldl (· - ·) a) := by
  rw [← wrap_of_inRange (inRange_difference _), wrap_eq_wrap_iff]
  exact fold_modEq (fun n congruent => congruent.sub_right n) (b :: rest) rfl

/-- Steps that stay in range are not changed by wrapping. -/
theorem fold_eq_foldl {f : Int → Int → Int}
    (closed : ∀ {a b : Int}, InRange a → InRange b → InRange (f a b)) {start : Int}
    (inRange : InRange start) {ns : List Int} (operands : ∀ n ∈ ns, InRange n) :
    fold f start ns = ns.foldl f start := by
  induction ns generalizing start with
  | nil => rfl
  | cons n ns ih =>
    have next : InRange (f start n) := closed inRange (operands n (by simp))
    have unchanged : fold f start (n :: ns) = fold f (f start n) ns := by
      simp only [fold, List.foldl_cons, wrap_of_inRange next]
    rw [unchanged, List.foldl_cons]
    exact ih next fun m member => operands m (by simp [member])

theorem max?_eq_fold {n : Int} {ns : List Int} (operands : ∀ m ∈ n :: ns, InRange m) :
    (n :: ns).max? = some (fold max least (n :: ns)) := by
  have closed {a b : Int} (left : InRange a) (right : InRange b) : InRange (max a b) := by
    simp only [InRange] at *
    omega
  have above : max least n = n := Int.max_eq_right (operands n (by simp)).1
  rw [fold_eq_foldl closed (by decide) operands, List.foldl_cons, above, List.max?_cons']

theorem min?_eq_fold {n : Int} {ns : List Int} (operands : ∀ m ∈ n :: ns, InRange m) :
    (n :: ns).min? = some (fold min greatest (n :: ns)) := by
  have closed {a b : Int} (left : InRange a) (right : InRange b) : InRange (min a b) := by
    simp only [InRange] at *
    omega
  have below : min greatest n = n := Int.min_eq_right (operands n (by simp)).2
  rw [fold_eq_foldl closed (by decide) operands, List.foldl_cons, below, List.min?_cons']

end Arithmetic

/-! ## Totals in any grouping -/

/-- Operands of an operator, of which some are put together in groups that the operator is applied
to on their own. -/
inductive Grouping
  | none
  | operand (r : Ref) (rest : Grouping)
  | group (inner rest : Grouping)

namespace Grouping

/-- All operands, from left to right. -/
def operands : Grouping → List Ref
  | .none => []
  | .operand r rest => r :: rest.operands
  | .group inner rest => inner.operands ++ rest.operands

/-- The operands, where the result of the operator stands for each group. -/
def values (p : Primitive) : Grouping → StoreM (List Ref)
  | .none => return []
  | .operand r rest => do
    let rs ← rest.values p
    return r :: rs
  | .group inner rest => do
    let args ← inner.values p
    let r ← p.call args
    let rs ← rest.values p
    return r :: rs

/-- Apply the operator to each group, and to what stands for them in the end. -/
def call (p : Primitive) (g : Grouping) : StoreM Ref := do
  let args ← g.values p
  p.call args

/-- Applied to groups of operands, the operator gives the integer in the end. -/
def Gives (p : Primitive) (s : Store) (g : Grouping) (n : Int) : Prop :=
  ∃ r s', g.call p s = .ok r s' ∧ s'.integer? r = some n

end Grouping

namespace Primitive

/-- The primitive computes a total of its operands exactly and wraps it.  The total depends on the
order of the operands no more than on multiples of `2 ^ 64`. -/
structure Totals (p : Primitive) (total : List Int → Int) : Prop where
  gives : ∀ {s : Store} {args : List Ref} {ns : List Int}, s.integers? args = some ns →
    p.Gives s args (wrap (total ns))
  single : ∀ n, total [n] = n
  append : ∀ {xs xs' ys ys' : List Int}, total xs ≡ total xs' [ZMOD 2 ^ 64] →
    total ys ≡ total ys' [ZMOD 2 ^ 64] → total (xs ++ ys) ≡ total (xs' ++ ys') [ZMOD 2 ^ 64]
  perm : ∀ {xs ys : List Int}, xs.Perm ys → total xs = total ys

theorem totals_add : Primitive.add.Totals List.sum where
  gives operands := by
    rw [Gives, call, compute_of_ok operands rfl, Arithmetic.fold_add]
  single n := by simp
  append left right := by
    rw [List.sum_append, List.sum_append]
    exact left.add right
  perm same := same.sum_eq

theorem totals_mul : Primitive.mul.Totals List.prod where
  gives operands := by
    rw [Gives, call, compute_of_ok operands rfl, Arithmetic.fold_mul]
  single n := by simp
  append left right := by
    rw [List.prod_append, List.prod_append]
    exact left.mul right
  perm same := same.prod_eq

variable {p : Primitive} {total : List Int → Int} {s : Store} {args : List Ref} {ns : List Int}

/-- What stands for the groups has the same total as the operands, up to multiples of `2 ^ 64`. -/
theorem Totals.values_grouping (totals : p.Totals total) (g : Grouping)
    (operands : s.integers? g.operands = some ns) :
    ∃ rs s' ms, g.values p s = .ok rs s' ∧ s.Extended s' ∧ s'.integers? rs = some ms ∧
      total ms ≡ total ns [ZMOD 2 ^ 64] := by
  induction g generalizing s ns with
  | none =>
    cases operands
    exact ⟨[], s, [], rfl, .refl s, rfl, rfl⟩
  | operand r rest ih =>
    obtain ⟨n, ns, found, others, rfl⟩ :=
      List.forall₂_cons_left_iff.1 (Store.integers?_eq_some_iff.1 operands)
    obtain ⟨rs, s', ms, ended, extended, found', congruent⟩ :=
      ih (Store.integers?_eq_some_iff.2 others)
    have alone : total [n] ≡ total [n] [ZMOD 2 ^ 64] := rfl
    refine ⟨r :: rs, s', n :: ms, ?_, extended, ?_, totals.append alone congruent⟩
    · rw [Grouping.values, StoreM.bind_ok ended]
      rfl
    · exact Store.integers?_eq_some_iff.2
        (.cons (extended.integer? found) (Store.integers?_eq_some_iff.1 found'))
  | group inner rest ihInner ihRest =>
    obtain ⟨ns₁, ns₂, first, second, rfl⟩ := Store.exists_integers?_of_append operands
    obtain ⟨args, s₁, ms₁, ended₁, extended₁, found₁, congruent₁⟩ := ihInner first
    have called := totals.gives found₁
    have registered := s₁.extended_register (.integer (wrap (total ms₁)))
    obtain ⟨rs, s₂, ms₂, ended₂, extended₂, found₂, congruent₂⟩ :=
      ihRest ((extended₁.trans registered).integers? second)
    -- the result of the group stands for the operands in it
    have stands : total [wrap (total ms₁)] ≡ total ns₁ [ZMOD 2 ^ 64] := by
      rw [totals.single]
      exact (wrap_modEq _).trans congruent₁
    refine ⟨.cell s₁.size :: rs, s₂, wrap (total ms₁) :: ms₂, ?_,
      (extended₁.trans registered).trans extended₂, ?_, totals.append stands congruent₂⟩
    · rw [Grouping.values, StoreM.bind_ok ended₁, StoreM.bind_ok called, StoreM.bind_ok ended₂]
      rfl
    · exact Store.integers?_eq_some_iff.2 (.cons
        (extended₂.integer? (s₁.integer?_register _)) (Store.integers?_eq_some_iff.1 found₂))

/-- A total is the same for all groupings of the operands, in any order. -/
theorem Totals.call_grouping (totals : p.Totals total) (operands : s.integers? args = some ns)
    {g : Grouping} (perm : g.operands.Perm args) : g.Gives p s (wrap (total ns)) := by
  obtain ⟨ns', operands', perm'⟩ := Store.exists_integers?_of_perm operands perm
  obtain ⟨rs, s', ms, ended, -, found, congruent⟩ := totals.values_grouping g operands'
  have called := totals.gives found
  have same : wrap (total ms) = wrap (total ns) := by
    rw [wrap_eq_wrap_iff, ← totals.perm perm']
    exact congruent
  refine ⟨_, _, (StoreM.bind_ok ended p.call).trans called, ?_⟩
  rw [s'.integer?_register, same]

end Primitive

open Primitive in
/-- **Wrapping each step is wrapping once.**  Applied to integers, `+` gives the sum, `*` the
product and `-` the difference, each computed exactly and wrapped, where the wrapped integer is the
only one from `-2 ^ 63` to `2 ^ 63 - 1` that is congruent modulo `2 ^ 64`.  So `+` and `*` give the
same for the operands in any order and in any grouping.  Applied to integers in range, `max` gives
the greatest and `min` the least of them. -/
theorem wrapped_once {s : Store} {args : List Ref} {ns : List Int}
    (operands : s.integers? args = some ns) :
    Gives .add s args (wrap ns.sum) ∧ Gives .mul s args (wrap ns.prod) ∧
      (∀ a, ns = [a] → Gives .sub s args (wrap (-a))) ∧
      (∀ a b rest, ns = a :: b :: rest →
        Gives .sub s args (wrap ((b :: rest).foldl (· - ·) a))) ∧
      (∀ n m : Int, wrap n = m ↔ (-2 ^ 63 ≤ m ∧ m ≤ 2 ^ 63 - 1) ∧ m ≡ n [ZMOD 2 ^ 64]) ∧
      (∀ g : Grouping, g.operands.Perm args →
        g.Gives .add s (wrap ns.sum) ∧ g.Gives .mul s (wrap ns.prod)) ∧
      (ns ≠ [] → (∀ n ∈ ns, InRange n) →
        (∃ top, Gives .max s args top ∧ top ∈ ns ∧ ∀ n ∈ ns, n ≤ top) ∧
          ∃ bottom, Gives .min s args bottom ∧ bottom ∈ ns ∧ ∀ n ∈ ns, bottom ≤ n) := by
  have some (n : Int) (rest : List Int) (split : ns = n :: rest) : args ≠ [] := by
    rintro rfl
    cases operands
    cases split
  refine ⟨totals_add.gives operands, totals_mul.gives operands, ?_, ?_, fun n m => wrap_eq_iff,
    fun g perm => ⟨totals_add.call_grouping operands perm, totals_mul.call_grouping operands perm⟩,
    ?_⟩
  · rintro a rfl
    rw [Gives, call, bind_atLeastOne (some _ _ rfl), compute_of_ok operands rfl,
      Arithmetic.difference, Int.zero_sub]
  · rintro a b rest rfl
    rw [Gives, call, bind_atLeastOne (some _ _ rfl), compute_of_ok operands rfl,
      Arithmetic.difference_eq_wrap]
  · intro nonempty inRange
    obtain ⟨n, rest, rfl⟩ := List.exists_cons_of_ne_nil nonempty
    have top := List.max?_eq_some_iff.1 (Arithmetic.max?_eq_fold inRange)
    have bottom := List.min?_eq_some_iff.1 (Arithmetic.min?_eq_fold inRange)
    refine ⟨⟨_, ?_, top⟩, ⟨_, ?_, bottom⟩⟩
    · rw [Gives, call, bind_atLeastOne (some _ _ rfl), compute_of_ok operands rfl]
    · rw [Gives, call, bind_atLeastOne (some _ _ rfl), compute_of_ok operands rfl]

open Primitive in
/-- The greatest integer in range, one and two: the sum and the product leave the range, also if the
last two are put in front and together. -/
theorem wrapped_once_greatest :
    let s : Store :=
      { cells := #[{ node := .integer greatest }, { node := .integer 1 }, { node := .integer 2 }]
        registry := [2, 1, 0], allocations := 3 }
    let args : List Ref := [.cell 0, .cell 1, .cell 2]
    let g : Grouping := .group (.operand (.cell 2) (.operand (.cell 1) .none))
      (.operand (.cell 0) .none)
    s.integers? args = some [greatest, 1, 2] ∧ Gives .add s args (least + 2) ∧
      Gives .mul s args (-2) ∧ Gives .sub s args (greatest - 3) ∧ g.Gives .add s (least + 2) ∧
      g.Gives .mul s (-2) ∧ Gives .max s args greatest ∧ Gives .min s args 1 := by
  intro s args g
  have operands : s.integers? args = some [greatest, 1, 2] := by decide
  obtain ⟨sum, product, -, difference, -, grouped, extremes⟩ := wrapped_once operands
  obtain ⟨⟨top, givesTop, top_mem, above⟩, bottom, givesBottom, bottom_mem, below⟩ :=
    extremes (by simp) (by decide)
  obtain rfl : top = greatest := by
    have least_above := above greatest (by simp)
    simp only [greatest, List.mem_cons, List.not_mem_nil, or_false] at *
    omega
  obtain rfl : bottom = 1 := by
    have greatest_below := below 1 (by simp)
    simp only [greatest, List.mem_cons, List.not_mem_nil, or_false] at *
    omega
  obtain ⟨groupedSum, groupedProduct⟩ := grouped g (by decide)
  exact ⟨operands, sum, product, difference _ _ _ rfl, groupedSum, groupedProduct, givesTop,
    givesBottom⟩

end LittleScheme
