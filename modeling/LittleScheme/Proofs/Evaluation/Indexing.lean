import LittleScheme.Proofs.Evaluation.Operands
import LittleScheme.Proofs.Evaluation.Storing
import LittleScheme.Proofs.Store.Spine

/-!
# Counting along a chain

`list-ref` reads off the items of a chain first, so it asks for a proper list and for an index
inside of it.  `list-tail` follows `second` as often as it is told to and does not care how the
chain goes on, so it may go round in circles.  On a list they agree: the item at `k` is the first
field of what `list-tail` leaves at `k`.
-/

namespace LittleScheme

/-! ## Items and what is left -/

/-- The item behind some pairs is the first field of the pair that they lead to. -/
theorem Store.Spine.getElem?_items {s : Store} {r r' : Ref} {links : List (Loc × Ref)}
    (spine : s.Spine r links r') (ends : s.pair? r' = none) (k : Nat) :
    (links.map (·.2))[k]? = ((s.drop? k r).bind s.pair?).map (·.1) := by
  induction spine generalizing k with
  | here => cases k <;> simp [Store.drop?, ends]
  | pair found _ ih => cases k <;> simp [Store.drop?, found, ih ends]

namespace Primitive

variable {p : Primitive} {s : Store} {l i : Ref} {k : Int}

theorem index_eq (p : Primitive) (i : Ref) (s : Store) :
    p.index i s =
      match s.integer? i with
      | some k => .ok k s
      | none => .error (.error (.indexExpected p)) s := by
  change (match s.integer? i with
    | some k => (pure k : StoreM Int)
    | none => fail (.indexExpected p)) s = _
  cases s.integer? i <;> rfl

/-- The item of a list at an index. -/
theorem call_listRef (index : s.integer? i = some k) :
    Primitive.listRef.call [l, i] s =
      match s.toList? l with
      | none => .error (.error (.improperList .runtime)) s
      | some items =>
        match if k < 0 then none else items[k.toNat]? with
        | some item => .ok item s
        | none => .error (.error (.indexOutOfRange k)) s := by
  have taken : Primitive.listRef.index i s = .ok k s := by rw [index_eq, index]
  have listed := listItems_eq .runtime l s
  change (listItems .runtime l >>= _) s = _
  cases found : s.toList? l with
  | none =>
    rw [found] at listed
    rw [StoreM.bind_error listed]
  | some items =>
    rw [found] at listed
    rw [StoreM.bind_ok listed, StoreM.bind_ok taken]
    cases here : if k < 0 then none else items[k.toNat]? <;> simp only [here] <;> rfl

theorem call_listRef_eq_ok_iff (index : s.integer? i = some k) {v : Ref} {s' : Store} :
    Primitive.listRef.call [l, i] s = .ok v s' ↔
      s' = s ∧ 0 ≤ k ∧ ∃ items, s.toList? l = some items ∧ items[k.toNat]? = some v := by
  rw [call_listRef index]
  cases s.toList? l with
  | none => simp
  | some items =>
    by_cases negative : k < 0
    · simp [negative]
    · cases here : items[k.toNat]? with
      | none => simp [negative, here]
      | some item => simp [negative, here, Int.not_lt.1 negative, eq_comm, and_comm]

/-- What is left behind a number of pairs. -/
theorem call_listTail (index : s.integer? i = some k) :
    Primitive.listTail.call [l, i] s =
      match s.drop? k.toNat l with
      | some r => .ok r s
      | none => .error (.error (.pairExpected (.primitive .listTail))) s := by
  have taken : Primitive.listTail.index i s = .ok k s := by rw [index_eq, index]
  change (Primitive.listTail.index i >>= _) s = _
  rw [StoreM.bind_ok taken]
  change (match s.drop? k.toNat l with
    | some r => (pure r : StoreM Ref)
    | none => fail (.pairExpected (.primitive .listTail))) s = _
  cases s.drop? k.toNat l <;> rfl

end Primitive

open Primitive in
/-- **Counting along a chain.**  Applied to any value and an index, `list-ref` gives an item exactly
if the value is a list, the index is inside of it, and `list-tail` gives a pair with that item as
its first field.

A chain comes to an end, or it goes round in circles.  In the first case `list-tail` succeeds
exactly if the index does not exceed the number of pairs, in the second case always.  For an index
that is not positive it gives the value itself, and for natural indices one after the other it does
the same as for their sum, also when it fails.  Neither operator changes the store. -/
theorem indexing_laws {s : Store} {l i : Ref} {k : Int} (index : s.integer? i = some k) :
    (∀ v s', Primitive.listRef.call [l, i] s = .ok v s' ↔ s' = s ∧
      ∃ links, s.Spine l links .nil ∧ 0 ≤ k ∧ k < links.length ∧
        ∃ r second, Primitive.listTail.call [l, i] s = .ok r s ∧ s.pair? r = some (v, second)) ∧
    ((∃ links r, s.Spine l links r ∧ s.pair? r = none) ∨ s.Circles l) ∧
    (∀ links r, s.Spine l links r → s.pair? r = none →
      ((∃ r' s', Primitive.listTail.call [l, i] s = .ok r' s') ↔ k ≤ links.length)) ∧
    (s.Circles l → ∃ r', Primitive.listTail.call [l, i] s = .ok r' s) ∧
    (k ≤ 0 → Primitive.listTail.call [l, i] s = .ok l s) ∧
    ∀ i₁ i₂ k₁ k₂, s.integer? i₁ = some k₁ → s.integer? i₂ = some k₂ → 0 ≤ k₁ → 0 ≤ k₂ →
      k = k₁ + k₂ →
        (do Primitive.listTail.call [← Primitive.listTail.call [l, i₁], i₂]) s =
          Primitive.listTail.call [l, i] s := by
  refine ⟨?_, s.ends_or_circles l, ?_, ?_, ?_, ?_⟩
  · intro v s'
    rw [call_listRef_eq_ok_iff index, call_listTail index]
    constructor
    · rintro ⟨same, natural, items, listed, here⟩
      obtain ⟨links, spine, rfl⟩ := Store.toList?_eq_some_iff.1 listed
      have inside := (List.getElem?_eq_some_iff.1 here).1
      rw [List.length_map] at inside
      rw [spine.getElem?_items rfl, Option.map_eq_some_iff] at here
      obtain ⟨⟨first, second⟩, found, rfl⟩ := here
      obtain ⟨r, dropped, found⟩ := Option.bind_eq_some_iff.1 found
      exact ⟨same, links, spine, natural, by omega, r, second, by rw [dropped], found⟩
    · rintro ⟨same, links, spine, natural, inside, r, second, left, found⟩
      refine ⟨same, natural, _, Store.toList?_eq_some_iff.2 ⟨links, spine, rfl⟩, ?_⟩
      rw [spine.getElem?_items rfl]
      cases dropped : s.drop? k.toNat l with
      | none => simp [dropped] at left
      | some r' =>
        rw [dropped] at left
        cases left
        simp [found]
  · intro links r spine ends
    rw [call_listTail index, ← Int.toNat_le, ← spine.drop?_isSome_iff ends]
    cases s.drop? k.toNat l <;> simp
  · intro circles
    obtain ⟨r', dropped⟩ := circles.exists_drop? k.toNat
    exact ⟨r', by rw [call_listTail index, dropped]⟩
  · intro negative
    rw [call_listTail index, Int.toNat_of_nonpos negative]
    rfl
  · intro i₁ i₂ k₁ k₂ index₁ index₂ natural₁ natural₂ sum
    have dropped := s.drop?_add k₁.toNat k₂.toNat l
    rw [← Int.toNat_add natural₁ natural₂, ← sum] at dropped
    have first := call_listTail (l := l) index₁
    cases left : s.drop? k₁.toNat l with
    | none =>
      rw [left] at first dropped
      rw [StoreM.bind_error first, call_listTail index, dropped]
      rfl
    | some r =>
      rw [left] at first dropped
      rw [StoreM.bind_ok first, call_listTail index, call_listTail index₂, dropped]
      rfl

/-- A list of two items, and a pair that comes behind itself: from the pair one can go on, but it is
no list. -/
theorem indexing_laws_circle :
    let s : Store :=
      { cells := #[{ node := .pair (.cell 3) (.cell 1) }, { node := .pair (.cell 4) .nil },
          { node := .pair (.cell 3) (.cell 2) }, { node := .integer 7 }, { node := .integer 1 },
          { node := .integer 5 }]
        registry := [5, 4, 3, 2, 1, 0], allocations := 6 }
    s.integer? (.cell 4) = some 1 ∧ s.integer? (.cell 5) = some 5 ∧
      Primitive.listRef.call [.cell 0, .cell 4] s = .ok (.cell 4) s ∧
      (∃ r, Primitive.listTail.call [.cell 2, .cell 5] s = .ok r s) ∧
      ∀ v s', Primitive.listRef.call [.cell 2, .cell 4] s ≠ .ok v s' := by
  intro s
  have one : s.integer? (.cell 4) = some 1 := rfl
  have five : s.integer? (.cell 5) = some 5 := rfl
  have pair₀ : s.pair? (.cell 0) = some (.cell 3, .cell 1) := rfl
  have pair₁ : s.pair? (.cell 1) = some (.cell 4, .nil) := rfl
  have pair₂ : s.pair? (.cell 2) = some (.cell 3, .cell 2) := rfl
  have circles : s.Circles (.cell 2) := ⟨_, _, _, .here _, .pair pair₂ (.here _), by simp⟩
  obtain ⟨onList, -⟩ := indexing_laws (l := .cell 0) one
  obtain ⟨onPair, -⟩ := indexing_laws (l := .cell 2) one
  obtain ⟨-, -, -, around, -⟩ := indexing_laws (l := .cell 2) five
  refine ⟨one, five, (onList _ _).2 ⟨rfl, _, .pair pair₀ (.pair pair₁ (.here _)), by decide,
    by decide, .cell 1, .nil, rfl, pair₁⟩, around circles, ?_⟩
  intro v s' ended
  obtain ⟨-, links, spine, -⟩ := (onPair v s').1 ended
  exact spine.not_circles rfl circles

end LittleScheme
