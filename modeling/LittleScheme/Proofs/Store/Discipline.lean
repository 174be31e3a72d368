import LittleScheme.Store.Copy
import Mathlib.Tactic.Common

/-!
# Disciplines of stores

A `Discipline` says what a store satisfies, which references count as values in it, and which frames
count as scopes.  A computation `Runs` under it if from a sound store it leads to a sound store,
however it ends, and if values and scopes stay what they are.
-/

namespace LittleScheme

/-- What is asked of a store, of the values and of the scopes in it. -/
structure Discipline where
  /-- What a store satisfies between two steps. -/
  Sound : Store → Prop
  /-- What is asked of a reference that is evaluated, stored or returned. -/
  Value : Store → Ref → Prop
  /-- What is asked of a frame in which expressions are evaluated. -/
  Scope : Store → Loc → Prop
  /-- What is asked of a frame that a procedure has captured. -/
  Captured : Store → Loc → Prop

namespace Discipline

/-- From `s` to `s'`, soundness is kept, and what was a value, a scope or a captured frame still is
one. -/
structure Keeps (d : Discipline) (s s' : Store) : Prop where
  sound : d.Sound s'
  value : ∀ {r}, d.Value s r → d.Value s' r
  scope : ∀ {env}, d.Scope s env → d.Scope s' env
  captured : ∀ {env}, d.Captured s env → d.Captured s' env

/-- From `s`, a computation keeps to the discipline however it ends, and its result is as asked. -/
structure Runs (d : Discipline) {α : Type} (action : StoreM α) (s : Store)
    (post : α → Store → Prop) : Prop where
  ok : ∀ {a s'}, action s = .ok a s' → d.Keeps s s' ∧ post a s'
  error : ∀ {fault s'}, action s = .error fault s' → d.Keeps s s'

/-- The result is a value. -/
def Result (d : Discipline) (r : Ref) (s : Store) : Prop := d.Value s r

/-- The results are values. -/
def Results (d : Discipline) (rs : List Ref) (s : Store) : Prop := ∀ r ∈ rs, d.Value s r

/-! ## Composing computations -/

section Compose

variable {d : Discipline} {s s' s'' : Store} {α β : Type} {post : α → Store → Prop}

theorem Keeps.refl (sound : d.Sound s) : d.Keeps s s := ⟨sound, id, id, id⟩

theorem Keeps.trans (first : d.Keeps s s') (second : d.Keeps s' s'') : d.Keeps s s'' :=
  ⟨second.sound, second.value ∘ first.value, second.scope ∘ first.scope,
    second.captured ∘ first.captured⟩

theorem Keeps.values (kept : d.Keeps s s') {rs : List Ref} (values : d.Results rs s) :
    d.Results rs s' :=
  fun r member => kept.value (values r member)

theorem Runs.of_ok {action : StoreM α} {a : α} (ended : action s = .ok a s') (kept : d.Keeps s s')
    (h : post a s') : d.Runs action s post := by
  constructor
  · intro b s'' ended'
    rw [ended] at ended'
    cases ended'
    exact ⟨kept, h⟩
  · intro fault s'' ended'
    rw [ended] at ended'
    cases ended'

theorem Runs.of_error {action : StoreM α} {fault : Fault} (ended : action s = .error fault s')
    (kept : d.Keeps s s') : d.Runs action s post := by
  constructor
  · intro b s'' ended'
    rw [ended] at ended'
    cases ended'
  · intro fault' s'' ended'
    rw [ended] at ended'
    cases ended'
    exact kept

theorem Runs.pure {a : α} (sound : d.Sound s) (h : post a s) :
    d.Runs (Pure.pure a : StoreM α) s post :=
  .of_ok rfl (.refl sound) h

theorem Runs.throw {fault : Fault} (sound : d.Sound s) :
    d.Runs (MonadExcept.throw fault : StoreM α) s post :=
  .of_error rfl (.refl sound)

theorem Runs.fail {e : Error} (sound : d.Sound s) : d.Runs (LittleScheme.fail e) s post :=
  .throw sound

theorem Runs.bind {action : StoreM α} {next : α → StoreM β} {post' : β → Store → Prop}
    (first : d.Runs action s post)
    (second : ∀ a s', d.Keeps s s' → post a s' → d.Runs (next a) s' post') :
    d.Runs (action >>= next) s post' := by
  cases h : action s with
  | error fault s' => exact .of_error (StoreM.bind_error h next) (first.error h)
  | ok a s' =>
    obtain ⟨kept, asked⟩ := first.ok h
    have rest := second a s' kept asked
    constructor
    · intro b s'' ended
      rw [StoreM.bind_ok h] at ended
      obtain ⟨kept', asked'⟩ := rest.ok ended
      exact ⟨kept.trans kept', asked'⟩
    · intro fault s'' ended
      rw [StoreM.bind_ok h] at ended
      exact kept.trans (rest.error ended)

theorem Runs.imp {action : StoreM α} {post' : α → Store → Prop} (h : d.Runs action s post)
    (imp : ∀ a s', post a s' → post' a s') : d.Runs action s post' :=
  ⟨fun ended => (h.ok ended).imp_right (imp _ _), h.error⟩

/-- The store is there to be looked at. -/
theorem Runs.get {next : Store → StoreM α} (h : d.Runs (next s) s post) :
    d.Runs (MonadState.get >>= next) s post :=
  ⟨h.ok, h.error⟩

theorem Runs.look {r : Ref} {next : Option Node → StoreM α}
    (h : d.Runs (next (s.node? r)) s post) : d.Runs (LittleScheme.look r >>= next) s post :=
  ⟨h.ok, h.error⟩

theorem Runs.assoc {action : StoreM β} {γ : Type} {next : β → StoreM γ} {last : γ → StoreM α}
    (h : d.Runs ((action >>= next) >>= last) s post) :
    d.Runs (action >>= fun b => next b >>= last) s post := by
  rwa [← bind_assoc]

theorem Runs.discard {action : StoreM β} {post' : β → Store → Prop} (h : d.Runs action s post') :
    d.Runs (Functor.discard action) s (fun _ _ => True) := by
  rw [StoreM.discard_eq]
  exact h.bind fun _ _ kept _ => .pure kept.sound trivial

/-- Copies are taken one after the other, where `inv` is what each of them relies on besides. -/
theorem Runs.copyEach {copy : Ref → StoreM Ref} {inv : Store → Prop}
    (keep : ∀ {s s'}, d.Keeps s s' → inv s → inv s')
    (one : ∀ {s r}, d.Sound s → inv s → d.Value s r → d.Runs (copy r) s d.Result)
    (sound : d.Sound s) (holds : inv s) {rs : List Ref} (values : d.Results rs s) :
    d.Runs (LittleScheme.copyEach copy rs) s d.Results := by
  induction rs generalizing s with
  | nil => exact .pure sound (by simp [Results])
  | cons r rs ih =>
    refine (one sound holds (values r (by simp))).bind ?_
    intro c s₁ kept₁ result
    refine (ih kept₁.sound (keep kept₁ holds) fun r member =>
      kept₁.value (values r (by simp [member]))).bind ?_
    intro cs s₂ kept₂ results
    refine .pure kept₂.sound ?_
    intro r' member
    rcases List.mem_cons.1 member with rfl | later
    · exact kept₂.value result
    · exact results r' later

end Compose

end Discipline

end LittleScheme
