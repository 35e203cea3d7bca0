import EvmCore.Proofs.Phase
import Mathlib

/-!
# How a computation may end

`Keeps` says what a computation does where it ends with a value. `Upholds g I E x` says something of
every end: `g` of the state is what it was, also where `x` ends with an error, and from a state that
`I` holds of, `x` ends in one that `I` holds of or with an error that `E` admits. It passes through
sequences and branches, so one pass through the machine serves for what no computation touches, for
what holds between any two of them and for the errors that occur.
-/

namespace EvmCore

/-- However `x` ends, `g` of the state is what it was. -/
def Fixes {ε σ γ α : Type} (g : σ → γ) (x : EStateM ε σ α) : Prop := ∀ s, g (ended (x s)) = g s

namespace Fixes

variable {ε σ γ α : Type} {g : σ → γ} {x : EStateM ε σ α} {s s' : σ}

theorem ok {a : α} (h : Fixes g x) (hx : x s = .ok a s') : g s' = g s := by
  have hs := h s
  rwa [hx] at hs

theorem error {e : ε} (h : Fixes g x) (hx : x s = .error e s') : g s' = g s := by
  have hs := h s
  rwa [hx] at hs

end Fixes

/-- However `x` ends, `g` of the state is what it was; and from a state that `I` holds of, it ends
in one that `I` holds of or with an error that `E` admits. -/
def Upholds {ε σ γ α : Type} (g : σ → γ) (I : σ → Prop) (E : ε → Prop) (x : EStateM ε σ α) : Prop :=
  ∀ s, match x s with
    | .ok _ s' => g s' = g s ∧ (I s → I s')
    | .error e s' => g s' = g s ∧ (I s → E e)

namespace Upholds

variable {ε σ γ α β : Type} {g : σ → γ} {I : σ → Prop} {E : ε → Prop} {x y : EStateM ε σ α}
  {s s' : σ}

/-- What is upheld fixes `g`, in particular. -/
theorem fixes (h : Upholds g I E x) : Fixes g x := by
  intro s
  have hs := h s
  cases hx : x s with
  | ok a s' =>
    rw [hx] at hs
    exact hs.1
  | error e s' =>
    rw [hx] at hs
    exact hs.1

theorem ok {a : α} (h : Upholds g I E x) (hs : I s) (hx : x s = .ok a s') : I s' := by
  have hresult := h s
  rw [hx] at hresult
  exact hresult.2 hs

theorem error {e : ε} (h : Upholds g I E x) (hs : I s) (hx : x s = .error e s') : E e := by
  have hresult := h s
  rw [hx] at hresult
  exact hresult.2 hs

/-- What `x` does may depend on the state that it is started from. -/
theorem of_forall (h : ∀ s, ∃ y, Upholds g I E y ∧ x s = y s) : Upholds g I E x := by
  intro s
  obtain ⟨y, hy, hxy⟩ := h s
  rw [hxy]
  exact hy s

/-- The errors alone. -/
theorem forget (h : Upholds g I E x) : Upholds (fun _ => ()) I E x := by
  intro s
  cases hx : x s with
  | ok a s' => exact ⟨rfl, fun hs => h.ok hs hx⟩
  | error e s' => exact ⟨rfl, fun hs => h.error hs hx⟩

theorem pure (a : α) : Upholds g I E (pure a : EStateM ε σ α) := fun _ => ⟨rfl, id⟩

theorem throw {e : ε} (h : E e) : Upholds g I E (throw e : EStateM ε σ α) :=
  fun _ => ⟨rfl, fun _ => h⟩

theorem get : Upholds g I E (get : EStateM ε σ σ) := fun _ => ⟨rfl, id⟩

theorem modify {f : σ → σ} (hg : ∀ s, g (f s) = g s) (hI : ∀ s, I s → I (f s)) :
    Upholds g I E (modify f : EStateM ε σ PUnit) := fun s => ⟨hg s, hI s⟩

/-- **Sequences uphold** what their parts do. -/
theorem bind {f : α → EStateM ε σ β} (hx : Upholds g I E x) (hf : ∀ a, Upholds g I E (f a)) :
    Upholds g I E (x >>= f) := by
  intro s
  cases h : x s with
  | ok a s₁ =>
    have hfixes : g s₁ = g s := hx.fixes.ok h
    rw [bind_of_ok h]
    -- the second part starts from where the first one has left the invariant
    cases h' : f a s₁ with
    | ok b s₂ => exact ⟨((hf a).fixes.ok h').trans hfixes, fun hs => (hf a).ok (hx.ok hs h) h'⟩
    | error e s₂ =>
      exact ⟨((hf a).fixes.error h').trans hfixes, fun hs => (hf a).error (hx.ok hs h) h'⟩
  -- the second part is not reached
  | error e s₁ =>
    rw [bind_error_iff.mpr (.inl h)]
    exact ⟨hx.fixes.error h, fun hs => hx.error hs h⟩

theorem ite {c : Prop} [Decidable c] (hx : Upholds g I E x) (hy : Upholds g I E y) :
    Upholds g I E (if c then x else y) := by
  split
  · exact hx
  · exact hy

theorem discard (hx : Upholds g I E x) : Upholds g I E (discard x) := by
  rw [discard_eq]
  exact hx.bind fun _ => pure ()

theorem forM {f : β → EStateM ε σ PUnit} {l : List β} (hf : ∀ b, Upholds g I E (f b)) :
    Upholds g I E (l.forM f) := by
  -- by induction on the list
  induction l with
  | nil => exact pure _
  | cons b l ih => exact (hf b).bind fun _ => ih

end Upholds

/-- What only fixes `g` upholds it with no invariant. -/
theorem Fixes.upholds {ε σ γ α : Type} {g : σ → γ} {x : EStateM ε σ α} (h : Fixes g x) :
    Upholds g (fun _ => True) (fun _ => True) x := by
  intro s
  cases hx : x s with
  | ok a s' => exact ⟨h.ok hx, id⟩
  | error e s' => exact ⟨h.error hx, id⟩

/-! ### Operations on the state -/

/-- The source that a state reads from. -/
def State.source (s : State) : Source := s.world.source

section Actions

variable {α : Type} {I : View → Prop} {E : Fault → Prop} {x : Action α} {y : ViewM α}

/-- An operation on accounts or on the substate reads from the same source afterwards. -/
theorem Mirrors.fixes (h : Mirrors x y) : Fixes State.source x := by
  intro s
  cases hx : x s with
  | ok a s' => exact (h.ok hx).1.source
  | error e s' => exact (h.error hx).1.source

/-- So does what only looks. -/
theorem Looks.fixes (h : Looks E x) : Fixes State.source x := by
  intro s
  cases hx : x s with
  | ok a s' => exact (h.quiet hx).source
  | error e s' => exact (h.error hx).1.source

/-- What holds of an operation on what is shown holds on the state, where the
source may fail to read. -/
theorem Mirrors.upholds (h : Mirrors x y) (hread : ∀ a, E (.unreadable a))
    (hy : Upholds (fun _ => ()) I E y) :
    Upholds State.source (fun s => I s.view) E x := by
  intro s
  cases hx : x s with
  | ok a s' => exact ⟨h.fixes.ok hx, fun hs => hy.ok hs (h.ok hx).2⟩
  | error e s' =>
    refine ⟨h.fixes.error hx, fun hs => ?_⟩
    -- the operation itself has failed, or the source could not be read
    obtain ⟨-, hview | ⟨a, -, rfl⟩⟩ := h.error hx
    · exact hy.error hs hview
    · exact hread a

/-- What only looks upholds whatever holds of what is shown. -/
theorem Looks.upholds {F : Fault → Prop} (h : Looks F x) (hread : ∀ a, E (.unreadable a))
    (hF : ∀ {e : Fault}, F e → E e) : Upholds State.source (fun s => I s.view) E x := by
  intro s
  cases hx : x s with
  | ok a s' =>
    refine ⟨h.fixes.ok hx, fun hs => ?_⟩
    -- what is shown has not changed
    change I s'.view
    rw [(h.quiet hx).view_eq]
    exact hs
  | error e s' =>
    refine ⟨h.fixes.error hx, fun _ => ?_⟩
    obtain ⟨-, he | ⟨a, -, rfl⟩⟩ := h.error hx
    · exact hF he
    · exact hread a

/-- Asking changes no view. -/
theorem View.reads_upholds (f : View → α) : Upholds (fun _ => ()) I E (View.reads f) :=
  fun _ => ⟨rfl, id⟩

/-- A change upholds what it keeps. -/
theorem View.writes_upholds {f : View → View} (h : ∀ v, I v → I (f v)) :
    Upholds (fun _ => ()) I E (View.writes f) := fun v => ⟨rfl, h v⟩

/-- Setting a balance upholds what the new balance keeps, and may be refused. -/
theorem View.setBalance_upholds {a : Address} {b : Int} (hE : E .negativeBalance)
    (hI : ∀ v, I v → I (v.update a ({ · with balance := b }))) :
    Upholds (fun _ => ()) I E (View.setBalance a b) := by
  intro v
  -- whether it is refused depends on the balance alone
  by_cases hb : b < 0
  · rw [View.setBalance, if_pos hb]
    exact ⟨rfl, fun _ => hE⟩
  · rw [View.setBalance, if_neg hb]
    exact ⟨rfl, hI v⟩

/-- What reads the accounts and changes none. -/
theorem Mirrors.reads_upholds {f : View → α} (h : Mirrors x (View.reads f))
    (hread : ∀ a, E (.unreadable a)) : Upholds State.source (fun s => I s.view) E x :=
  h.upholds hread (View.reads_upholds f)

theorem Upholds.liftExcept {γ : Type} {g : State → γ} {I : State → Prop} {value : Except Fault α}
    (h : ∀ {e : Fault}, value = .error e → E e) : Upholds g I E (liftM value : Action α) := by
  cases value with
  | ok a => exact .pure a
  | error e => exact .throw (h rfl)

end Actions

end EvmCore
