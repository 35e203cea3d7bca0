import EvmCore.Proofs.Phase
import Mathlib

/-!
# What a cold account or slot costs more

Accounts and storage slots are cold until they are accessed for the first time. The dynamic cost
of an instruction is found by a computation that also warms, so that one and the same look
decides the price and changes what decides it. To say which part of a charge is due to a cold
place, the same computation is run twice, once on a state and once on that state with the place
warm, and the answers are compared.

`Heeds place R x` is what comes out: either `x` does not access the place, and the two runs
agree, or it accesses it, the two runs end in one state, in which the place is warm, and `R`
relates the answers. For `Gas.dynamic` the relation is `DynamicCost.Dearer`, which has the
amounts (`Gas.dynamic_heeds`).
-/

namespace EvmCore

/-- What is cold until it is accessed. -/
inductive Place where
  | account (a : Address)
  | slot (slot : Slot)
  deriving DecidableEq

namespace State

variable {s : State} {place other : Place}

/-- Whether a place was accessed. -/
def Warm (s : State) : Place → Prop
  | .account a => a ∈ s.substate.warmAccounts
  | .slot slot => slot ∈ s.substate.warmSlots

/-- The state with a place warm. -/
def warmed (s : State) : Place → State
  | .account a =>
    { s with substate := { s.substate with warmAccounts := s.substate.warmAccounts.insert a } }
  | .slot slot =>
    { s with substate := { s.substate with warmSlots := s.substate.warmSlots.insert slot } }

/-- What is warm after a place was warmed. -/
theorem warm_warmed_iff : (s.warmed place).Warm other ↔ place = other ∨ s.Warm other := by
  cases place with
  -- accounts and slots are kept apart, so only two of the four cases are about one set
  | account a =>
    cases other with
    | account b =>
      simp only [warmed, Warm, Std.ExtTreeSet.mem_insert, Std.compare_eq_iff_eq,
        Place.account.injEq]
    | slot slot => simp [warmed, Warm]
  | slot slot =>
    cases other with
    | account b => simp [warmed, Warm]
    | slot slot' =>
      simp only [warmed, Warm, Std.ExtTreeSet.mem_insert, Std.compare_eq_iff_eq, Place.slot.injEq]

/-- A place that was warmed is warm. -/
theorem warm_warmed (s : State) (place : Place) : (s.warmed place).Warm place :=
  warm_warmed_iff.mpr (.inl rfl)

/-- To warm a warm place changes nothing. -/
theorem warmed_of_warm (h : s.Warm place) : s.warmed place = s := by
  cases place with
  | account a =>
    have hinsert : s.substate.warmAccounts.insert a = s.substate.warmAccounts :=
      ExtTreeSet.insert_of_mem h
    rw [warmed, hinsert]
  | slot slot =>
    have hinsert : s.substate.warmSlots.insert slot = s.substate.warmSlots :=
      ExtTreeSet.insert_of_mem h
    rw [warmed, hinsert]

/-- And where it changes nothing the place was warm. -/
theorem warm_of_warmed (h : s.warmed place = s) : s.Warm place := h ▸ warm_warmed s place

/-- Places can be warmed in any order. -/
theorem warmed_comm (s : State) (place other : Place) :
    (s.warmed place).warmed other = (s.warmed other).warmed place := by
  cases place with
  | account a =>
    cases other with
    | account b => simp only [warmed, ExtTreeSet.insert_comm s.substate.warmAccounts a b]
    | slot slot => rfl
  | slot slot =>
    cases other with
    | account b => rfl
    | slot slot' => simp only [warmed, ExtTreeSet.insert_comm s.substate.warmSlots slot slot']

/-- Warming leaves the accounts alone. -/
theorem warmed_world (s : State) (place : Place) : (s.warmed place).world = s.world := by
  cases place <;> rfl

/-- So the accounts can be changed before or after. -/
theorem warmed_set_world (s : State) (place : Place) (w : World) :
    { s.warmed place with world := w } = { s with world := w }.warmed place := by
  cases place <;> rfl

end State

/-- What was accessed stays accessed. -/
theorem Retains.warm {s s' : State} {place : Place} (h : Retains s s') (hwarm : s.Warm place) :
    s'.Warm place := by
  cases place with
  | account a => exact h.warmAccounts a hwarm
  | slot slot => exact h.warmSlots slot hwarm

/-! ### Computations that do not ask what is warm -/

/-- `x` neither asks what is warm nor warms anything: one more warm place makes
no difference to it. -/
def Blind {α : Type} (x : Action α) : Prop :=
  ∀ (place : Place) (s : State), x (s.warmed place) = mapResult id (State.warmed · place) (x s)

namespace Blind

variable {α β : Type} {x y : Action α} {place : Place} {s s' : State}

theorem ok {a : α} (h : Blind x) (hx : x s = .ok a s') :
    x (s.warmed place) = .ok a (s'.warmed place) := by
  rw [h place s, hx]
  rfl

theorem error {e : Fault} (h : Blind x) (hx : x s = .error e s') :
    x (s.warmed place) = .error e (s'.warmed place) := by
  rw [h place s, hx]
  rfl

/-- A place that is warm at the start is warm at the end. -/
theorem warm {a : α} (h : Blind x) (hs : s.Warm place) (hx : x s = .ok a s') : s'.Warm place := by
  -- to warm a warm place is to do nothing, so the two runs are one
  have hwarmed : x s = .ok a (s'.warmed place) := by
    rw [← h.ok hx, State.warmed_of_warm hs]
  rw [hx] at hwarmed
  injection hwarmed with _ hs'
  exact State.warm_of_warmed hs'.symm

theorem pure (a : α) : Blind (pure a : Action α) := fun _ _ => rfl

/-- A sequence is blind if its parts are. -/
theorem bind {f : α → Action β} (hx : Blind x) (hf : ∀ a, Blind (f a)) : Blind (x >>= f) := by
  intro place s
  cases h : x s with
  | ok a s₁ => rw [bind_of_ok h, bind_of_ok (hx.ok h), hf a place s₁]
  | error e s₁ =>
    rw [bind_error_iff.mpr (.inl h), bind_error_iff.mpr (.inl (hx.error h))]
    rfl

theorem ite {c : Prop} [Decidable c] (hx : Blind x) (hy : Blind y) :
    Blind (if c then x else y) := by
  split
  · exact hx
  · exact hy

theorem liftExcept (x : Except Fault α) : Blind (liftM x : Action α) := by
  intro place s
  cases x with
  | ok a => rfl
  | error e => rfl

/-- **Loading** an account looks at the cache and at the source. -/
theorem load (a : Address) : Blind (World.load a) := by
  intro place s
  rw [World.load, get_bind, get_bind, State.warmed_world]
  -- only what is cached changes, beside what is warm
  cases s.world.cache[a]? with
  | some entry => rfl
  | none =>
    cases s.world.source.read a with
    | error e => rfl
    | ok account =>
      exact congrArg (EStateM.Result.ok account) (State.warmed_set_world s place _)

theorem account (a : Address) : Blind (World.account a) := (load a).bind fun _ => pure _

theorem isEmpty (a : Address) : Blind (World.isEmpty a) := (account a).bind fun _ => pure _

theorem balance (a : Address) : Blind (World.balance a) := (account a).bind fun _ => pure _

theorem storage (a : Address) (key : Word) : Blind (World.storage a key) :=
  (account a).bind fun _ => pure _

/-- The initial word of a slot, which is read off the cache. -/
theorem initial (a : Address) (key : Word) : Blind (World.initial a key) := by
  have hload : Blind (discard (World.load a)) := by
    rw [discard_eq]
    exact (load a).bind fun _ => pure _
  refine hload.bind fun _ place s => ?_
  rw [get_bind, get_bind, State.warmed_world]
  rfl

end Blind

/-! ### Comparing answers -/

/-- Two computations ended alike: with values that `Q` relates, together with the states that they
ended in, or with one and the same error. -/
def EndAlike {α : Type} (Q : α → State → α → State → Prop) :
    EStateM.Result Fault State α → EStateM.Result Fault State α → Prop
  | .ok a s, .ok b t => Q a s b t
  | .error e _, .error e' _ => e' = e
  | _, _ => False

/-- What is known of two ends that are alike may be weakened. -/
theorem EndAlike.imp {α : Type} {Q Q' : α → State → α → State → Prop}
    {r r' : EStateM.Result Fault State α} (h : EndAlike Q r r')
    (himp : ∀ {a b : α} {s t : State}, r = .ok a s → Q a s b t → Q' a s b t) :
    EndAlike Q' r r' := by
  -- two ends of different kinds are not alike
  cases r with
  | ok a s =>
    cases r' with
    | ok b t => exact himp rfl h
    | error e t => exact h
  | error e s =>
    cases r' with
    | ok b t => exact h
    | error e' t => exact h

/-- Two computations that do the same to every state, with answers related by `R`. -/
def Alike {α : Type} (R : α → α → Prop) (x y : Action α) : Prop :=
  ∀ s, EndAlike (fun a s₁ b s₂ => R a b ∧ s₂ = s₁) (x s) (y s)

namespace Alike

variable {α β : Type} {R : β → β → Prop} {x y x' y' : Action β}

theorem pure {a b : β} (h : R a b) : Alike R (pure a) (pure b) := fun _ => ⟨h, rfl⟩

/-- A common start, with an answer that both go on from. -/
theorem bind {z : Action α} {f g : α → Action β} (h : ∀ a, Alike R (f a) (g a)) :
    Alike R (z >>= f) (z >>= g) := by
  intro s
  cases hz : z s with
  | ok a s₁ =>
    rw [bind_of_ok hz, bind_of_ok hz]
    exact h a s₁
  | error e s₁ =>
    rw [bind_error_iff.mpr (.inl hz), bind_error_iff.mpr (.inl hz)]
    exact rfl

theorem ite {c : Prop} [Decidable c] (h : Alike R x y) (h' : Alike R x' y') :
    Alike R (if c then x else x') (if c then y else y') := by
  split
  · exact h
  · exact h'

end Alike

/-- `x` on a state and on that state with `place` warm: it does not access the place and
there is no difference, or it does, ends in one and the same state, in which the place is
warm, and `R` relates the answers. -/
def Heeds {α : Type} (place : Place) (R : α → α → Prop) (x : Action α) : Prop :=
  ∀ s, EndAlike (fun a s₁ b s₂ => b = a ∧ s₂ = s₁.warmed place ∨ R a b ∧ s₂ = s₁ ∧ s₁.Warm place)
    (x s) (x (s.warmed place))

namespace Heeds

variable {α β : Type} {place : Place} {R : β → β → Prop} {x : Action β}

/-- What is blind heeds nothing. -/
theorem of_blind (h : Blind x) : Heeds place R x := by
  intro s
  cases hx : x s with
  | ok b s₁ =>
    rw [h.ok hx]
    exact .inl ⟨rfl, rfl⟩
  | error e s₁ =>
    rw [h.error hx]
    exact rfl

theorem pure (b : β) : Heeds place R (pure b : Action β) := of_blind (.pure b)

/-- A blind start, with an answer that both runs share. -/
theorem bind {z : Action α} {f : α → Action β} (hz : Blind z) (hf : ∀ a, Heeds place R (f a)) :
    Heeds place R (z >>= f) := by
  intro s
  cases h : z s with
  | ok a s₁ =>
    rw [bind_of_ok h, bind_of_ok (hz.ok h)]
    exact hf a s₁
  -- an error of the start is one of both runs
  | error e s₁ =>
    rw [bind_error_iff.mpr (.inl h), bind_error_iff.mpr (.inl (hz.error h))]
    exact rfl

end Heeds

/-- Accesses a place; the result is whether it was warm already. -/
def Place.visit : Place → Action Bool
  | .account a => Substate.warmAccount a
  | .slot target => Substate.warmSlot target

/-- A visit warms its place, and tells whether that was warm before. -/
theorem Place.visit_ok (place : Place) (s : State) :
    ∃ warm, place.visit s = .ok warm (s.warmed place) ∧ (warm = true ↔ s.Warm place) := by
  cases place with
  | account a => exact ⟨_, rfl, Std.ExtTreeSet.contains_iff_mem⟩
  | slot slot => exact ⟨_, rfl, Std.ExtTreeSet.contains_iff_mem⟩

/-- The only way in which answers come to differ: a place is visited, and what comes after it looks
at the result of the visit alone. -/
theorem Heeds.visit {α : Type} {place : Place} (other : Place) {R : α → α → Prop}
    {f : Bool → Action α} (hblind : ∀ warm, Blind (f warm))
    (hf : other = place → Alike R (f false) (f true)) :
    Heeds place R (other.visit >>= f) := by
  intro s
  obtain ⟨warm, hvisit, hwarm⟩ := other.visit_ok s
  obtain ⟨warm', hvisit', hwarm'⟩ := other.visit_ok (s.warmed place)
  rw [bind_of_ok hvisit, bind_of_ok hvisit', State.warmed_comm s place other]
  rw [State.warm_warmed_iff] at hwarm'
  by_cases hsame : warm' = warm
  · rw [hsame]
    exact Heeds.of_blind (hblind warm) _
  · -- A visit that comes out differently was to a place that was cold, and to
    -- the one that was made warm.
    have hcold : warm = false := by
      cases warm with
      | false => rfl
      | true => exact absurd (hwarm'.mpr (.inr (hwarm.mp rfl))) hsame
    have hheated : warm' = true := by
      cases warm' with
      | false => exact absurd hcold.symm hsame
      | true => rfl
    subst hcold hheated
    have hother : place = other := by
      rcases hwarm'.mp rfl with h | h
      · exact h
      · cases hwarm.mpr h
    subst hother
    have hvisited : (s.warmed place).Warm place := State.warm_warmed s place
    rw [State.warmed_of_warm hvisited]
    -- From here on both runs are in the same state, and what is left depends on
    -- the answer of the visit only.
    exact (hf rfl (s.warmed place)).imp fun hrun ⟨hrelated, hstate⟩ =>
      .inr ⟨hrelated, hstate, (hblind false).warm hvisited hrun⟩

/-! ### The dynamic cost -/

/-- What the frame itself pays, beyond the gas that goes to a callee. -/
def Gas.Charge.own (charge : Gas.Charge) : Int := charge.gas - charge.forwarded

/-- A charge, if there is one, against a cheaper one: there is one too, and it
is lower by `amount`. -/
def Gas.DearerBy (amount : Int) (cold warm : Option Gas.Charge) : Prop :=
  ∀ charge ∈ cold, ∃ charge' ∈ warm, charge.own = charge'.own + amount

/-- How much more an instruction is charged for a cold place. Loading a slot has two prices instead
of a price and a surcharge. -/
def DynamicCost.Dearer (cost : DynamicCost) : Place → Option Gas.Charge → Option Gas.Charge → Prop
  | .account _, cold, warm =>
    Gas.DearerBy
      (if cost = .selfDestruct then Gas.coldAccount else Gas.coldAccount - Gas.warmAccess)
      cold warm
  | .slot _, cold, warm =>
    cost = .storageLoad ∧ cold = some ⟨Gas.coldSlot, 0⟩ ∧ warm = some ⟨Gas.warmAccess, 0⟩ ∨
      cost = .storageStore ∧ Gas.DearerBy Gas.coldSlot cold warm

namespace Gas

variable {amount : Int}

/-- Two charges that forward nothing. -/
theorem DearerBy.some {gas gas' : Int} (h : gas = gas' + amount) :
    DearerBy amount (.some ⟨gas, 0⟩) (.some ⟨gas', 0⟩) := by
  intro charge hcharge
  cases hcharge
  refine ⟨_, rfl, ?_⟩
  rw [Charge.own, Charge.own, Int.sub_zero, Int.sub_zero, h]

/-- Where there is no charge there is nothing to compare. -/
theorem DearerBy.none (warm : Option Charge) : DearerBy amount .none warm := nofun

/-- Whoever can pay for a call at the higher price can pay for it at the lower one. -/
theorem callCharge_alike (frame : Frame) {base base' : Int} (hamount : 0 ≤ amount)
    (h : base = base' + amount) :
    Alike (DearerBy amount) (callCharge frame base) (callCharge frame base') := by
  refine Alike.bind fun requested => Alike.pure fun charge hcharge => ?_
  rw [Option.mem_def, Option.map_eq_some_iff] at hcharge
  obtain ⟨gas, hgas, rfl⟩ := hcharge
  -- the charge was found, so there was gas for the higher price
  have hpaid : ¬frame.gas < base := by
    intro hlt
    rw [callGas?, if_pos hlt] at hgas
    cases hgas
  have hpaid' : ¬frame.gas < base' := by omega
  cases hgas' : callGas? frame.gas base' requested with
  | none =>
    rw [callGas?, if_neg hpaid'] at hgas'
    cases hgas'
  | some gas' =>
    refine ⟨_, rfl, ?_⟩
    rw [Charge.own, Charge.own, add_sub_cancel_right, add_sub_cancel_right, h]

/-- What is forwarded does not depend on what is warm. -/
theorem callCharge_blind (frame : Frame) (base : Int) : Blind (callCharge frame base) :=
  (Blind.liftExcept _).bind fun _ => .pure _

/-- Nor does a price per word. -/
theorem perWordCost_blind (frame : Frame) (size price : Int) (length : Nat) :
    Blind (perWordCost frame size price length) := by
  rw [perWordCost]
  split
  · exact (Blind.liftExcept _).bind fun _ => .pure _
  · exact .pure _

/-- The surcharge for an account is found by a visit. -/
theorem accountSurcharge_bind {α : Type} (a : Address) (f : Int → Action α) :
    accountSurcharge a >>= f =
      (Place.account a).visit >>= fun warm => f (if warm then 0 else coldAccount - warmAccess) := by
  rw [accountSurcharge, bind_assoc]
  rfl

/-- A cold slot adds its surcharge to every price of a store. -/
theorem store_cost_cold (initial current value : Int) :
    (store initial current value true).cost = (store initial current value false).cost +
      coldSlot := by
  -- whichever price it is, the surcharge is added to it
  simp only [store]
  split
  · exact add_comm _ _
  · split
    · split <;> exact add_comm _ _
    · exact add_comm _ _

/-- **What a cold place adds to a charge**, for every instruction. -/
theorem dynamic_heeds (cost : DynamicCost) (frame : Frame) (size : Int) (place : Place) :
    Heeds place (cost.Dearer place) (dynamic cost frame size) := by
  cases cost with
  -- prices that visit nothing
  | none => exact .pure _
  | memory => exact .pure _
  | perWord price length =>
    exact .of_blind ((perWordCost_blind frame size price length).bind fun _ => .pure _)
  | exp => exact .of_blind ((Blind.liftExcept _).bind fun _ => .pure _)
  | log topics =>
    rw [dynamic]
    split
    · exact .of_blind ((Blind.liftExcept _).bind fun _ => .pure _)
    · exact .pure _
  -- the account is visited once, and its surcharge is added to the price
  | account =>
    refine Heeds.bind (.liftExcept _) fun a => ?_
    rw [accountSurcharge_bind]
    refine Heeds.visit _ (fun _ => .pure _) ?_
    rintro rfl
    exact .pure (DearerBy.some rfl)
  | accountCodeCopy =>
    refine Heeds.bind (perWordCost_blind frame size copyWord 3) fun gas? => ?_
    split
    · next gas =>
      refine Heeds.bind (.liftExcept _) fun a => ?_
      rw [accountSurcharge_bind]
      refine Heeds.visit _ (fun _ => .pure _) ?_
      rintro rfl
      exact .pure (DearerBy.some (by simp))
    · exact .pure _
  -- the slot is visited once
  | storageLoad =>
    refine Heeds.bind (.liftExcept _) fun key => ?_
    refine Heeds.visit (.slot _) (fun _ => .pure _) ?_
    rintro rfl
    exact .pure (.inl ⟨rfl, rfl, rfl⟩)
  | storageStore =>
    rw [dynamic]
    split
    · exact .pure _
    · refine Heeds.bind (.liftExcept _) fun key => Heeds.bind (.liftExcept _) fun value => ?_
      refine Heeds.visit (.slot _)
        (fun _ => (Blind.storage _ key).bind fun _ => (Blind.initial _ key).bind
          fun _ => .pure _) ?_
      rintro rfl
      refine .bind fun current => .bind fun initial => .pure (.inr ⟨rfl, .some ?_⟩)
      exact store_cost_cold initial current value
  | selfDestruct =>
    -- The beneficiary is looked at again after the visit, whether it is empty,
    -- but not whether it was warm.
    refine Heeds.bind (.liftExcept _) fun beneficiary => ?_
    refine Heeds.visit (.account _) (fun warm => (Blind.isEmpty _).bind fun empty => ?_) ?_
    · dsimp only
      exact .ite ((Blind.balance _).bind fun _ => .ite (.pure _) (.pure _)) (.pure _)
    · rintro rfl
      refine .bind fun empty => ?_
      dsimp only
      refine .ite (.bind fun balance => .ite (.pure (.some ?_)) (.pure (.some ?_)))
        (.pure (.some ?_))
      · simp; ring
      · simp
      · simp
  | call kind =>
    -- Only the surcharge for the callee depends on what is warm, and it is
    -- part of the base of the call.
    cases kind with
    | call =>
      refine Heeds.bind (.liftExcept _) fun callee => Heeds.bind (.liftExcept _) fun value => ?_
      rw [accountSurcharge_bind]
      cases hmemory : growth? frame size with
      | none =>
        refine Heeds.visit _ (fun warm => ?_) ?_
        · exact .ite ((Blind.isEmpty _).bind fun _ => (Blind.pure _).bind fun _ => .pure _)
            ((Blind.pure _).bind fun _ => .pure _)
        · rintro rfl
          exact .ite (.bind fun _ => .bind fun _ => .pure (.none _))
            (.bind fun _ => .pure (.none _))
      | some memory =>
        refine Heeds.visit _ (fun warm => ?_) ?_
        · exact .ite ((Blind.isEmpty _).bind fun _ => (Blind.pure _).bind
            fun _ => callCharge_blind _ _) ((Blind.pure _).bind fun _ => callCharge_blind _ _)
        · rintro rfl
          refine .ite (.bind fun _ => .bind fun _ => ?_) (.bind fun _ => ?_)
          · exact callCharge_alike frame (by decide) (by simp; ring)
          · exact callCharge_alike frame (by decide) (by simp; ring)
    | callCode =>
      refine Heeds.bind (.liftExcept _) fun callee => ?_
      rw [accountSurcharge_bind]
      cases hmemory : growth? frame size with
      | none =>
        refine Heeds.visit _ (fun warm => .pure _) ?_
        rintro rfl
        exact .pure (.none _)
      | some memory =>
        refine Heeds.visit _
          (fun warm => (Blind.liftExcept _).bind fun _ => callCharge_blind _ _) ?_
        rintro rfl
        refine .bind fun value => ?_
        exact callCharge_alike frame (by decide) (by simp; ring)
    | delegateCall | staticCall =>
      refine Heeds.bind (.liftExcept _) fun callee => ?_
      rw [accountSurcharge_bind]
      cases hmemory : growth? frame size with
      | none =>
        refine Heeds.visit _ (fun warm => .pure _) ?_
        rintro rfl
        exact .pure (.none _)
      | some memory =>
        refine Heeds.visit _ (fun warm => callCharge_blind _ _) ?_
        rintro rfl
        exact callCharge_alike frame (by decide) (by simp; ring)

end Gas

end EvmCore
