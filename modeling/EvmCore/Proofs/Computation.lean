import EvmCore.Step
import Mathlib

/-!
# Reasoning about computations

Everything the machine does is a computation on a state that ends with a value or with an error, and
in either case with a state. Three kinds of statement about one are used throughout.

* *Inversion*: what it means that a sequence `x >>= f` ended the way it did (`bind_ok_iff`,
  `bind_error_iff`), so that a run can be taken apart from the front.
* *Preservation*: `Keeps R x` says that `x`, where it ends with a value, leads from any state only
  to states that `R` relates to it. For a reflexive and transitive `R` this passes through sequences
  and branches, so it is proved once per primitive.
* *Answers*: `Yields P x` says that `P` holds of the value that `x` ends with, whatever the state.
-/

namespace EvmCore

section Inversion

variable {ε σ α β : Type} {s s' : σ} {a : α} {b : β} {e : ε}

/-- A sequence ends with a value exactly if both of its parts do. -/
theorem bind_ok_iff {x : EStateM ε σ α} {f : α → EStateM ε σ β} :
    (x >>= f) s = .ok b s' ↔ ∃ a s₁, x s = .ok a s₁ ∧ f a s₁ = .ok b s' := by
  -- sequencing is this case distinction by definition
  change (match x s with | .ok a s₁ => f a s₁ | .error e s₁ => .error e s₁) = _ ↔ _
  cases x s with
  | ok a s₁ => simp
  | error e s₁ => simp

/-- A sequence ends with an error exactly if its first part does, or the second does after it. -/
theorem bind_error_iff {x : EStateM ε σ α} {f : α → EStateM ε σ β} :
    (x >>= f) s = .error e s' ↔
      x s = .error e s' ∨ ∃ a s₁, x s = .ok a s₁ ∧ f a s₁ = .error e s' := by
  change (match x s with | .ok a s₁ => f a s₁ | .error e s₁ => .error e s₁) = _ ↔ _
  cases x s with
  | ok a s₁ => simp
  | error e s₁ => simp

/-- After a first part that ended with a value, a sequence is its second part. -/
theorem bind_of_ok {x : EStateM ε σ α} {f : α → EStateM ε σ β} {s₁ : σ} (h : x s = .ok a s₁) :
    (x >>= f) s = f a s₁ := by
  change EStateM.bind x f s = _
  rw [EStateM.bind, h]

theorem pure_ok_iff {a' : α} : (pure a : EStateM ε σ α) s = .ok a' s' ↔ a = a' ∧ s = s' := by
  change EStateM.Result.ok a s = _ ↔ _
  simp

theorem pure_ne_error : (pure a : EStateM ε σ α) s ≠ .error e s' := nofun

theorem throw_ne_ok : (throw e : EStateM ε σ α) s ≠ .ok a s' := nofun

/-- What `throw` ends with: its error, in the state that it started in. -/
theorem throw_error_iff {e' : ε} :
    (throw e : EStateM ε σ α) s = .error e' s' ↔ e = e' ∧ s = s' := by
  change EStateM.Result.error e s = _ ↔ _
  simp

theorem get_ok_iff {s₁ : σ} : (get : EStateM ε σ σ) s = .ok s₁ s' ↔ s = s₁ ∧ s = s' := by
  change EStateM.Result.ok s s = _ ↔ _
  simp

theorem get_bind {f : σ → EStateM ε σ β} : (get >>= f) s = f s s := rfl

theorem get_ne_error {s₁ : σ} : (get : EStateM ε σ σ) s₁ ≠ .error e s' := nofun

/-- Changing the state never fails, and ends in what the change makes of it. -/
theorem modify_ok_iff {f : σ → σ} {u : PUnit} :
    (modify f : EStateM ε σ PUnit) s = .ok u s' ↔ f s = s' := by
  change EStateM.Result.ok _ (f s) = _ ↔ _
  simp

theorem modify_ne_error {f : σ → σ} : (modify f : EStateM ε σ PUnit) s ≠ .error e s' := nofun

/-- A computation whose value is not used is one that is followed by nothing. -/
theorem discard_eq (x : EStateM ε σ α) : discard x = x >>= fun _ => pure () :=
  map_eq_pure_bind _ x

/-- The state that a computation ended in, with a value or with an error. -/
def ended : EStateM.Result ε σ α → σ
  | .ok _ s => s
  | .error _ s => s

/-- Whether a computation ended with a value that passes a test. -/
def endsWith (test : α → σ → Bool) : EStateM.Result ε σ α → Bool
  | .ok a s => test a s
  | .error _ _ => false

/-- A test of how a computation ended that is passed says that it ended with a value. This is how
concrete runs are established: the test is evaluated, and the value is then taken as it comes. -/
theorem endsWith_iff {test : α → σ → Bool} {r : EStateM.Result ε σ α} :
    endsWith test r = true ↔ ∃ a s, r = .ok a s ∧ test a s = true := by
  cases r with
  | ok a s => simp [endsWith]
  | error e s => simp [endsWith]

/-- Whether a computation ended with an error that passes a test. -/
def failsWith (test : ε → σ → Bool) : EStateM.Result ε σ α → Bool
  | .ok _ _ => false
  | .error e s => test e s

/-- The same for a computation that ended with an error. -/
theorem failsWith_iff {test : ε → σ → Bool} {r : EStateM.Result ε σ α} :
    failsWith test r = true ↔ ∃ e s, r = .error e s ∧ test e s = true := by
  cases r with
  | ok a s => simp [failsWith]
  | error e s => simp [failsWith]

end Inversion

/-! ### Computations on a part of a state -/

section Part

variable {ε ε' σ τ α : Type} {g : ε → ε'} {put : σ → τ} {r : EStateM.Result ε σ α} {a : α} {e : ε'}
  {t : τ}

/-- What a computation on a part of a state ends with, for the whole of it. -/
def mapResult (g : ε → ε') (put : σ → τ) : EStateM.Result ε σ α → EStateM.Result ε' τ α
  | .ok a s => .ok a (put s)
  | .error e s => .error (g e) (put s)

/-- The whole ended with a value exactly if the part did, and holds what the part left. -/
theorem mapResult_ok_iff : mapResult g put r = .ok a t ↔ ∃ s, r = .ok a s ∧ t = put s := by
  cases r with
  | ok b s => simp [mapResult, eq_comm]
  | error e s => simp [mapResult]

/-- The same for errors, which are translated. -/
theorem mapResult_error_iff :
    mapResult g put r = .error e t ↔ ∃ e' s, r = .error e' s ∧ e = g e' ∧ t = put s := by
  cases r with
  | ok b s => simp [mapResult]
  | error e' s => simp [mapResult, eq_comm]

/-- However the part ended, its state is in the state of the whole. -/
theorem ended_mapResult : ended (mapResult g put r) = put (ended r) := by
  cases r with
  | ok b s => rfl
  | error e' s => rfl

end Part

/-! ### Preservation -/

/-- Whenever `x` ends with a value, `R` relates the state it started in to the state it ended in. -/
def Keeps {ε σ α : Type} (R : σ → σ → Prop) (x : EStateM ε σ α) : Prop :=
  ∀ ⦃s : σ⦄ ⦃a : α⦄ ⦃s' : σ⦄, x s = .ok a s' → R s s'

namespace Keeps

variable {ε σ α β : Type} {R : σ → σ → Prop} {x y : EStateM ε σ α}

theorem throw (e : ε) : Keeps R (throw e : EStateM ε σ α) := fun _ _ _ hx => absurd hx throw_ne_ok

/-- **Sequences keep** what their parts keep, if that is transitive. -/
theorem bind [IsTrans σ R] {f : α → EStateM ε σ β} (hx : Keeps R x) (hf : ∀ a, Keeps R (f a)) :
    Keeps R (x >>= f) := by
  intro s b s' h
  obtain ⟨a, s₁, h₁, h₂⟩ := bind_ok_iff.mp h
  exact IsTrans.trans s s₁ s' (hx h₁) (hf a h₂)

theorem ite {c : Prop} [Decidable c] (hx : Keeps R x) (hy : Keeps R y) :
    Keeps R (if c then x else y) := by
  split
  · exact hx
  · exact hy

variable [Std.Refl R]

theorem pure (a : α) : Keeps R (pure a : EStateM ε σ α) := by
  intro s a' s' hx
  obtain ⟨-, rfl⟩ := pure_ok_iff.mp hx
  exact Std.Refl.refl s

theorem get : Keeps R (get : EStateM ε σ σ) := by
  intro s s₁ s' hx
  obtain ⟨-, rfl⟩ := get_ok_iff.mp hx
  exact Std.Refl.refl s

theorem discard [IsTrans σ R] (hx : Keeps R x) : Keeps R (discard x) := by
  rw [discard_eq]
  exact hx.bind fun _ => pure ()

/-- **Loops keep** what every round of them keeps. -/
theorem forM_of_mem [IsTrans σ R] {l : List α} {f : α → EStateM ε σ PUnit}
    (hf : ∀ a ∈ l, Keeps R (f a)) : Keeps R (l.forM f) := by
  induction l with
  | nil => exact pure _
  | cons a l ih =>
    -- a loop over a list is its first round and a loop over what is left
    change Keeps R (f a >>= fun _ => l.forM f)
    exact (hf a List.mem_cons_self).bind fun _ => ih fun b hb => hf b (List.mem_cons_of_mem a hb)

theorem forM [IsTrans σ R] {l : List α} {f : α → EStateM ε σ PUnit} (hf : ∀ a, Keeps R (f a)) :
    Keeps R (l.forM f) :=
  forM_of_mem fun a _ => hf a

end Keeps

/-! ### Answers -/

/-- Whenever `x` ends with a value, `P` holds of the value. -/
def Yields {ε σ α : Type} (P : α → Prop) (x : EStateM ε σ α) : Prop :=
  ∀ ⦃s : σ⦄ ⦃a : α⦄ ⦃s' : σ⦄, x s = .ok a s' → P a

namespace Yields

variable {ε σ α β : Type} {P : α → Prop} {Q : β → Prop} {x y : EStateM ε σ α}

theorem any (x : EStateM ε σ α) : Yields (fun _ => True) x := fun _ _ _ _ => trivial

theorem pure {a : α} (h : P a) : Yields P (pure a : EStateM ε σ α) := by
  intro s a' s' hx
  obtain ⟨rfl, -⟩ := pure_ok_iff.mp hx
  exact h

/-- **Sequences yield** what the second part yields, given what is known of the first value. -/
theorem bind {f : α → EStateM ε σ β} (hx : Yields P x) (hf : ∀ a, P a → Yields Q (f a)) :
    Yields Q (x >>= f) := by
  intro s b s' h
  obtain ⟨a, s₁, h₁, h₂⟩ := bind_ok_iff.mp h
  exact hf a (hx h₁) h₂

theorem ite {c : Prop} [Decidable c] (hx : Yields P x) (hy : Yields P y) :
    Yields P (if c then x else y) := by
  split
  · exact hx
  · exact hy

end Yields

/-! ### Values that need no state -/

section Lift

variable {α : Type} {s s' : State} {a : α} {e : Fault}

/-- The first of two values in sequence is there if the last one is. -/
theorem except_bind_ok {β : Type} {x : Except Fault α} {g : α → Except Fault β} {b : β}
    (h : (x >>= g) = .ok b) : ∃ a, x = .ok a ∧ g a = .ok b := by
  cases x with
  | ok a => exact ⟨a, rfl, h⟩
  | error e => cases h

/-- A value that needs no state is lifted to a computation that leaves the state alone. -/
theorem Action.liftExcept_ok_iff {x : Except Fault α} :
    (liftM x : Action α) s = .ok a s' ↔ x = .ok a ∧ s = s' := by
  cases x with
  | ok b =>
    change (Pure.pure b : Action α) s = _ ↔ _
    rw [pure_ok_iff]
    simp
  | error f =>
    change (MonadExcept.throw f : Action α) s = _ ↔ _
    simp [throw_ne_ok]

/-- Such a computation keeps whatever is reflexive. -/
theorem Action.keeps_liftExcept {R : State → State → Prop} [Std.Refl R] (x : Except Fault α) :
    Keeps R (liftM x : Action α) := by
  cases x with
  -- an error is thrown, so that there is no end to be related to the start
  | ok b => exact Keeps.pure b
  | error f => exact Keeps.throw f

theorem Action.yields_liftExcept {P : α → Prop} {x : Except Fault α} (h : ∀ a, x = .ok a → P a) :
    Yields P (liftM x : Action α) := by
  intro s a s' hx
  exact h a (Action.liftExcept_ok_iff.mp hx).1

end Lift

end EvmCore
