import LittleScheme.Evaluation.Arithmetic
import LittleScheme.Store.Chain

/-!
# Primitives

`Primitive.call` is what the primitives do with operands that have been evaluated.  It looks at the
number of operands first, then at their kinds from left to right, then at their values.
-/

namespace LittleScheme

/-! ## Operands -/

namespace Store

/-- The values of integers; nothing if one of the references leads to something else. -/
def integers? (s : Store) : List Ref → Option (List Int)
  | [] => some []
  | r :: rs => do
    let n ← s.integer? r
    let ns ← s.integers? rs
    return n :: ns

/-- Follow `second` for `k` steps; nothing if a step does not start at a pair. -/
def drop? (s : Store) : Nat → Ref → Option Ref
  | 0, r => some r
  | k + 1, r =>
    match s.pair? r with
    | some (_, second) => s.drop? k second
    | none => none

end Store

namespace Primitive

variable (p : Primitive)

/-- There must be exactly one operand. -/
def exactlyOne : List Ref → StoreM Ref
  | [r] => return r
  | args => fail (.wrongCount (.op (.primitive p)) 1 args.length)

/-- There must be exactly two operands. -/
def exactlyTwo : List Ref → StoreM (Ref × Ref)
  | [r, r'] => return (r, r')
  | args => fail (.wrongCount (.op (.primitive p)) 2 args.length)

/-- There must be at least one operand. -/
def atLeastOne : List Ref → StoreM (List Ref)
  | [] => fail (.tooFew (.op (.primitive p)) 1 0)
  | args => return args

/-- All operands must be integers. -/
def integers (args : List Ref) : StoreM (List Int) := do
  let s ← get
  match s.integers? args with
  | some ns => return ns
  | none => fail (.numbersExpected p)

/-- The operand must be a pair. -/
def fields (r : Ref) : StoreM (Ref × Ref) := do
  let s ← get
  match s.pair? r with
  | some fields => return fields
  | none => fail (.pairExpected (.primitive p))

/-- The operand must be an integer, to be used as an index. -/
def index (r : Ref) : StoreM Int := do
  let s ← get
  match s.integer? r with
  | some k => return k
  | none => fail (.indexExpected p)

/-! ## Results -/

/-- A boolean that says whether the single operand has a property. -/
def test (property : Store → Ref → Bool) (args : List Ref) : StoreM Ref := do
  let r ← p.exactlyOne args
  let s ← get
  make (.boolean (property s r))

/-- A boolean that says whether all neighbours are in a relation. -/
def relate (relation : Int → Int → Bool) (args : List Ref) : StoreM Ref := do
  let ns ← p.integers args
  make (.boolean (Arithmetic.ordered relation ns))

/-- The integer computed from all operands. -/
def compute (f : List Int → Except Error Int) (args : List Ref) : StoreM Ref := do
  let ns ← p.integers args
  match f ns with
  | .ok n => make (.integer n)
  | .error e => fail e

/-- The item of a proper list at an index, counted from zero. -/
def item (args : List Ref) : StoreM Ref := do
  let (r, k) ← p.exactlyTwo args
  let items ← listItems .runtime r
  let k ← p.index k
  match if k < 0 then none else items[k.toNat]? with
  | some item => return item
  | none => fail (.indexOutOfRange k)

/-- The chain behind a number of pairs. -/
def rest (args : List Ref) : StoreM Ref := do
  let (r, k) ← p.exactlyTwo args
  let k ← p.index k
  let s ← get
  match s.drop? k.toNat r with
  | some rest => return rest
  | none => fail (.pairExpected (.primitive p))

open Arithmetic Integer64 in
/-- Apply a primitive to evaluated operands. -/
def call (p : Primitive) (args : List Ref) : StoreM Ref :=
  match p with
  | .add => p.compute (fun ns => .ok (fold (· + ·) 0 ns)) args
  | .mul => p.compute (fun ns => .ok (fold (· * ·) 1 ns)) args
  | .sub => do p.compute (fun ns => .ok (difference ns)) (← p.atLeastOne args)
  | .div => do p.compute ratio (← p.atLeastOne args)
  | .max => do p.compute (fun ns => .ok (fold Max.max least ns)) (← p.atLeastOne args)
  | .min => do p.compute (fun ns => .ok (fold Min.min greatest ns)) (← p.atLeastOne args)
  | .abs => do p.compute (fun ns => .ok (magnitude ns)) [← p.exactlyOne args]
  | .eq => p.relate (· == ·) args
  | .lt => p.relate (· < ·) args
  | .gt => p.relate (· > ·) args
  | .le => p.relate (· ≤ ·) args
  | .ge => p.relate (· ≥ ·) args
  | .isPair => p.test (fun s r => (s.pair? r).isSome) args
  | .isNull => p.test (fun _ r => r == .nil) args
  | .isList => p.test (fun s r => s.isProperList r) args
  | .isNumber => p.test (fun s r => (s.integer? r).isSome) args
  | .isBoolean => p.test (fun s r => (s.boolean? r).isSome) args
  | .isSymbol => p.test (fun s r => (s.symbolName? r).isSome) args
  | .not => p.test (fun s r => !s.isTruthy r) args
  | .list => makeList args .nil
  | .cons => do
    let (first, second) ← p.exactlyTwo args
    make (.pair first second)
  | .car => do
    let (first, _) ← p.fields (← p.exactlyOne args)
    return first
  | .cdr => do
    let (_, second) ← p.fields (← p.exactlyOne args)
    return second
  | .listRef => p.item args
  | .listTail => p.rest args

end Primitive

end LittleScheme
