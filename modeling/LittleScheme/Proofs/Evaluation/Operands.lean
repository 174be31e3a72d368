import LittleScheme.Evaluation.Primitive
import LittleScheme.Proofs.Store.Extension
import Mathlib.Data.List.Perm.Basic

/-!
# Operands of arithmetic

The numeric operators look at all operands before they compute.  If one of them is no integer,
wherever it stands, that is the error; otherwise the integers decide about the result, which is put
into a new cell, or the error.  `Primitive.Gives` says this of one primitive, and nothing that is in
the store is changed.
-/

namespace LittleScheme

/-! ## Integers among the operands -/

namespace Store

variable {s s' : Store} {args : List Ref} {ns : List Int}

theorem integer?_eq_some {r : Ref} {n : Int} :
    s.integer? r = some n ↔ s.node? r = some (.integer n) := by
  rw [integer?]
  split <;> simp_all

theorem Extended.integer? (extended : s.Extended s') {r : Ref} {n : Int}
    (found : s.integer? r = some n) : s'.integer? r = some n :=
  integer?_eq_some.2 (extended.node? (integer?_eq_some.1 found))

/-- A new integer is an integer. -/
theorem integer?_register (s : Store) (n : Int) :
    (s.register (.integer n)).integer? (.cell s.size) = some n := by
  rw [integer?_eq_some, node?_register, if_pos rfl]

/-- The operands are integers one by one. -/
theorem integers?_eq_some_iff :
    s.integers? args = some ns ↔ List.Forall₂ (fun r n => s.integer? r = some n) args ns := by
  induction args generalizing ns with
  | nil => simp [integers?, eq_comm]
  | cons r rs ih =>
    cases found : s.integer? r with
    | none => simp [integers?, found, List.forall₂_cons_left_iff]
    | some n =>
      simp only [integers?, found, Option.bind_eq_bind, Option.bind_some, Option.bind_eq_some_iff,
        Option.pure_def, Option.some.injEq, List.forall₂_cons_left_iff, ih]
      constructor
      · rintro ⟨ms, rest, rfl⟩
        exact ⟨n, ms, rfl, rest, rfl⟩
      · rintro ⟨n', ms, rfl, rest, rfl⟩
        exact ⟨ms, rest, rfl⟩

/-- One operand that is no integer is enough. -/
theorem integers?_eq_none_iff : s.integers? args = none ↔ ∃ r ∈ args, s.integer? r = none := by
  induction args with
  | nil => simp [integers?]
  | cons r rs ih =>
    cases found : s.integer? r with
    | none => simp [integers?, found]
    | some n =>
      cases rest : s.integers? rs with
      | none =>
        obtain ⟨r', member, other⟩ := ih.1 rest
        simp only [integers?, found, rest]
        exact iff_of_true rfl ⟨r', List.mem_cons_of_mem _ member, other⟩
      | some ms =>
        have none : ¬∃ r' ∈ rs, s.integer? r' = none := fun other => by simp [ih.2 other] at rest
        simp_all [integers?]

theorem Extended.integers? (extended : s.Extended s') (found : s.integers? args = some ns) :
    s'.integers? args = some ns :=
  integers?_eq_some_iff.2 ((integers?_eq_some_iff.1 found).imp fun _ _ => extended.integer?)

/-- The operands of two lists are the integers of both. -/
theorem exists_integers?_of_append {args' : List Ref}
    (found : s.integers? (args ++ args') = some ns) :
    ∃ ms ms', s.integers? args = some ms ∧ s.integers? args' = some ms' ∧ ns = ms ++ ms' := by
  simp only [integers?_eq_some_iff] at found ⊢
  exact ⟨ns.take args.length, ns.drop args.length,
    by simpa using List.forall₂_take args.length found,
    by simpa using List.forall₂_drop args.length found, (List.take_append_drop _ _).symm⟩

/-- The operands in another order are the integers in another order. -/
theorem exists_integers?_of_perm (found : s.integers? args = some ns) {args' : List Ref}
    (perm : args'.Perm args) : ∃ ns', s.integers? args' = some ns' ∧ ns'.Perm ns := by
  obtain ⟨ns', found', perm'⟩ := List.perm_comp_forall₂ perm (integers?_eq_some_iff.1 found)
  exact ⟨ns', integers?_eq_some_iff.2 found', perm'⟩

end Store

/-! ## Results -/

namespace Primitive

variable {p : Primitive} {s : Store} {args : List Ref} {ns : List Int}
  {f : List Int → Except Error Int}

/-- Applied to the operands, the primitive gives the integer, in a new cell and with no other
change. -/
def Gives (p : Primitive) (s : Store) (args : List Ref) (n : Int) : Prop :=
  p.call args s = .ok (.cell s.size) (s.register (.integer n))

theorem integers_eq (p : Primitive) (s : Store) (args : List Ref) :
    p.integers args s =
      match s.integers? args with
      | some ns => .ok ns s
      | none => .error (.error (.numbersExpected p)) s := by
  change (match s.integers? args with
    | some ns => (pure ns : StoreM (List Int))
    | none => fail (.numbersExpected p)) s = _
  cases s.integers? args <;> rfl

theorem compute_of_ok (operands : s.integers? args = some ns) {n : Int} (computed : f ns = .ok n) :
    p.compute f args s = .ok (.cell s.size) (s.register (.integer n)) := by
  have taken : p.integers args s = .ok ns s := by rw [integers_eq, operands]
  rw [compute, StoreM.bind_ok taken, computed]
  rfl

theorem compute_of_error (operands : s.integers? args = some ns) {e : Error}
    (failed : f ns = .error e) : p.compute f args s = .error (.error e) s := by
  have taken : p.integers args s = .ok ns s := by rw [integers_eq, operands]
  rw [compute, StoreM.bind_ok taken, failed]
  rfl

theorem compute_of_none (other : s.integers? args = none) :
    p.compute f args s = .error (.error (.numbersExpected p)) s := by
  have refused : p.integers args s = .error (.error (.numbersExpected p)) s := by
    rw [integers_eq, other]
  rw [compute, StoreM.bind_error refused]

/-- Operands that are there are enough for an operator that asks for one. -/
theorem bind_atLeastOne {α : Type} (some : args ≠ []) (next : List Ref → StoreM α) :
    (p.atLeastOne args >>= next) = next args := by
  cases args with
  | nil => exact absurd rfl some
  | cons r rs => exact pure_bind _ _

end Primitive

end LittleScheme
