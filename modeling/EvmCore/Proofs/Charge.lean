import EvmCore.Proofs.NonNegative
import Mathlib

/-!
# What instructions cost at least

The cost of an instruction is split over two places: a constant that the table of operations holds,
and a part that depends on the operands. Neither is positive on its own, since the table charges
nothing for access to storage and for logs, and the other part is zero for most instructions.
Besides, a call that transfers value gives its callee a stipend that nobody paid as such.

`DynamicCost.least` is what the second part amounts to at least, beyond the gas that goes to a
callee. Together with the constant it is positive for every instruction that does not end its frame
(`Opcode.cost_pos`), and it covers the stipend (`Step.callRequest_gas_le`).
-/

namespace EvmCore

namespace Gas

/-! ### Memory -/

/-- More memory does not cost less. -/
theorem memoryCost_mono {m n : Int} (hm : 0 ≤ m) (h : m ≤ n) : memoryCost m ≤ memoryCost n := by
  -- both parts of the price grow with the number of words
  have hsquare : m * m ≤ n * n := mul_self_le_mul_self hm h
  have hquadratic : m * m / quadraticDivisor ≤ n * n / quadraticDivisor :=
    Int.ediv_le_ediv (by decide) hsquare
  have hlinear : m * memoryWord ≤ n * memoryWord := Int.mul_le_mul_of_nonneg_right h (by decide)
  exact Int.add_le_add hlinear hquadratic

/-- Memory that was paid for is never paid back. -/
theorem expansion?_nonneg {activeWords : Nat} {size gas : Int}
    (h : expansion? activeWords size = some gas) : 0 ≤ gas := by
  unfold expansion? at h
  -- nothing is needed, too much is needed, or the words are compared
  split at h
  · cases h
    exact le_rfl
  · split at h
    · cases h
    · extract_lets words at h
      split at h
      · cases h
        exact le_rfl
      · next hwords =>
        cases h
        have hmono : memoryCost activeWords ≤ memoryCost words :=
          memoryCost_mono (Int.natCast_nonneg _) (le_of_not_ge hwords)
        exact sub_nonneg.mpr hmono

/-- Nor is it paid back to a frame. -/
theorem growth?_nonneg {frame : Frame} {size gas : Int} (h : growth? frame size = some gas) :
    0 ≤ gas :=
  expansion?_nonneg h

/-- A size that is not negative takes a number of words that is not. -/
theorem wordCount_nonneg {size : Int} (h : 0 ≤ size) : 0 ≤ wordCount size :=
  Int.ediv_nonneg (by omega) (by decide)

/-! ### Charges -/

/-- A charge that covers what goes to a callee and `least` besides. -/
structure Charge.Covers (least : Int) (charge : Charge) : Prop where
  forwarded : 0 ≤ charge.forwarded
  gas : charge.forwarded + least ≤ charge.gas

/-- Whenever `x` finds a charge, it covers `least`. -/
def Charges (least : Int) (x : Action (Option Charge)) : Prop :=
  Yields (fun charge? => ∀ charge ∈ charge?, charge.Covers least) x

namespace Charges

variable {least gas : Int}

/-- Where no charge is found there is nothing to cover. -/
theorem none : Charges least (pure .none) :=
  Yields.pure fun charge hcharge => absurd hcharge (Option.not_mem_none charge)

/-- A charge of which nothing goes to a callee. -/
theorem some (h : least ≤ gas) : Charges least (pure (.some ⟨gas, 0⟩)) := by
  refine Yields.pure fun charge hcharge => ?_
  cases hcharge
  exact ⟨le_rfl, (Int.zero_add least).trans_le h⟩

/-- The same for an amount that there may not be. -/
theorem map {gas? : Option Int} (h : ∀ gas ∈ gas?, least ≤ gas) :
    Charges least (pure (gas?.map fun gas => ⟨gas, 0⟩)) := by
  cases gas? with
  | none => exact none
  | some gas => exact some (h gas rfl)

end Charges

/-- What a call that transfers value costs for that. -/
def transferCost (value : Int) : Int := if value ≠ 0 then callValueTransfer else 0

/-- The price of a transfer is not negative. -/
theorem transferCost_nonneg (value : Int) : 0 ≤ transferCost value := by
  unfold transferCost
  split
  · exact (by decide)
  · exact le_rfl

end Gas

/-- What the dynamic cost amounts to at least, beyond the gas that goes to a callee. -/
def DynamicCost.least (stack : Stack) : DynamicCost → Int
  | .log _ => Gas.log
  | .storageLoad | .storageStore => Gas.warmAccess
  | .call .call | .call .callCode =>
    match stack.back 2 with
    | .ok value => Gas.transferCost value
    | .error _ => 0
  | _ => 0

/-- The price per word, if there is one. -/
def DynamicCost.price : DynamicCost → Int
  | .perWord price _ => price
  | _ => 0

namespace Gas

variable {frame : Frame} {size : Int}

/-- What an account costs for being cold is not negative. -/
theorem accountSurcharge_nonneg (a : Address) : Yields (0 ≤ ·) (accountSurcharge a) := by
  refine (Yields.any _).bind fun warm _ => Yields.pure ?_
  cases warm with
  | true => exact le_rfl
  | false => exact (by decide)

/-- A word that is looked at is not negative. -/
theorem back_nonneg (hstack : ∀ w ∈ frame.stack, 0 ≤ w) (n : Nat) :
    Yields (0 ≤ ·) (liftM (frame.stack.back n) : Action Word) :=
  Action.yields_liftExcept fun w hw => hstack w (Stack.mem_of_back hw)

/-- A cost per word is not negative, with the growth of memory included. -/
theorem perWordCost_nonneg {price : Int} (hprice : 0 ≤ price) (hstack : ∀ w ∈ frame.stack, 0 ≤ w)
    (length : Nat) : Yields (fun gas? => ∀ gas ∈ gas?, 0 ≤ gas)
    (perWordCost frame size price length) := by
  rw [perWordCost]
  split
  · next gas hgas =>
    refine (back_nonneg hstack length).bind fun w hw => Yields.pure ?_
    intro total htotal
    cases htotal
    have hgrowth : 0 ≤ gas := growth?_nonneg hgas
    have hwords : 0 ≤ wordCount w * price := Int.mul_nonneg (wordCount_nonneg hw) hprice
    exact Int.add_nonneg hgrowth hwords
  · exact Yields.pure fun gas hgas => absurd hgas (Option.not_mem_none gas)

/-- What a callee is given is not negative. -/
theorem callGas?_nonneg {available base requested gas : Int} (hrequested : 0 ≤ requested)
    (h : callGas? available base requested = some gas) : 0 ≤ gas := by
  rw [callGas?] at h
  split at h
  · cases h
  · next havailable =>
    cases h
    have hrest : 0 ≤ available - base := sub_nonneg.mpr (not_lt.mp havailable)
    exact le_min (by omega) hrequested

/-- The callee gets no more than is charged, and the base cost is charged besides. -/
theorem callCharge_charges {base least : Int} (hbase : least ≤ base)
    (hstack : ∀ w ∈ frame.stack, 0 ≤ w) :
    Charges least (callCharge frame base) := by
  refine (back_nonneg hstack 0).bind fun requested hrequested => Yields.pure ?_
  intro charge hcharge
  obtain ⟨gas, hgas, rfl⟩ := Option.map_eq_some_iff.mp hcharge
  refine ⟨callGas?_nonneg hrequested hgas, ?_⟩
  calc gas + least ≤ gas + base := Int.add_le_add_left hbase gas
    _ = base + gas := Int.add_comm gas base

/-- A write to storage costs a warm access at least. -/
theorem store_cost (initial current value : Int) (cold : Bool) :
    warmAccess ≤ (store initial current value cold).cost := by
  have haccess : 0 ≤ if cold then coldSlot else 0 := by
    split
    · exact (by decide)
    · exact le_rfl
  -- whichever price it is, it is no less, and the surcharge comes on top
  unfold store
  extract_lets access
  split
  · exact le_add_of_nonneg_left haccess
  · split
    · split
      · exact Int.le_trans (show warmAccess ≤ storeSet by decide) (le_add_of_nonneg_left haccess)
      · exact Int.le_trans (show warmAccess ≤ storeReset by decide) (le_add_of_nonneg_left haccess)
    · exact le_add_of_nonneg_left haccess

/-- A log costs its base price at least. -/
theorem log_cost {gas length : Int} (hgas : 0 ≤ gas) (topics : Nat) (hlength : 0 ≤ length) :
    log ≤ gas + log + topics * logTopic + length * logByte := by
  have htopics : 0 ≤ (topics : Int) * logTopic := Int.mul_nonneg (Int.natCast_nonneg _) (by decide)
  have hdata : 0 ≤ length * logByte := Int.mul_nonneg hlength (by decide)
  omega

/-- A call of any kind costs what it gives to the callee, and what it costs to transfer value. -/
theorem dynamic_call_charges (kind : CallKind) (hstack : ∀ w ∈ frame.stack, 0 ≤ w) :
    Charges ((DynamicCost.call kind).least frame.stack) (dynamic (.call kind) frame size) := by
  cases kind with
  | call =>
    refine (Yields.any _).bind fun callee _ => ?_
    refine Yields.bind (Action.yields_liftExcept fun value hvalue => hvalue) fun value hvalue => ?_
    refine (accountSurcharge_nonneg callee).bind fun access haccess => ?_
    have hleast : (DynamicCost.call .call).least frame.stack = transferCost value := by
      rw [DynamicCost.least, hvalue]
    rw [hleast]
    -- the memory decides what comes after the look at the callee
    cases hmemory : growth? frame size with
    | none =>
      dsimp only
      refine Yields.ite ?_ ?_
      · exact (Yields.any _).bind fun empty _ => (Yields.any _).bind fun _ _ => Charges.none
      · exact (Yields.any _).bind fun _ _ => Charges.none
    | some memory =>
      have hgrowth : 0 ≤ memory := growth?_nonneg hmemory
      have hcall (newAccount : Int) (hnew : 0 ≤ newAccount) : Charges (transferCost value)
          (callCharge frame (access + newAccount + memory + transferCost value)) :=
        callCharge_charges (by omega) hstack
      dsimp only
      refine Yields.ite ?_ ?_
      · refine (Yields.any _).bind fun empty _ => Yields.bind (Yields.pure ?_) hcall
        split
        · exact (by decide)
        · exact le_rfl
      · exact Yields.bind (Yields.pure le_rfl) hcall
  | callCode =>
    refine (Yields.any _).bind fun callee _ => ?_
    refine (accountSurcharge_nonneg callee).bind fun access haccess => ?_
    split
    · next memory hmemory =>
      refine Yields.bind (Action.yields_liftExcept fun value hvalue => hvalue)
        fun value hvalue => ?_
      have hleast : (DynamicCost.call .callCode).least frame.stack = transferCost value := by
        rw [DynamicCost.least, hvalue]
      rw [hleast]
      have hmemory := growth?_nonneg hmemory
      exact callCharge_charges (le_add_of_nonneg_left (Int.add_nonneg haccess hmemory)) hstack
    · exact Charges.none
  | delegateCall | staticCall =>
    refine (Yields.any _).bind fun callee _ => ?_
    refine (accountSurcharge_nonneg callee).bind fun access haccess => ?_
    split
    · next memory hmemory =>
      exact callCharge_charges (Int.add_nonneg haccess (growth?_nonneg hmemory)) hstack
    · exact Charges.none

/-- **What the dynamic cost amounts to at least**, if no operand is negative. -/
theorem dynamic_charges {cost : DynamicCost} (hprice : 0 ≤ cost.price)
    (hstack : ∀ w ∈ frame.stack, 0 ≤ w) :
    Charges (cost.least frame.stack) (dynamic cost frame size) := by
  cases cost with
  | none => exact Charges.some le_rfl
  | memory => exact Charges.map fun gas hgas => growth?_nonneg hgas
  | perWord price length =>
    exact (perWordCost_nonneg hprice hstack length).bind fun gas? hgas => Charges.map hgas
  -- Costs that the operands and the memory settle, without the state.
  | exp =>
    refine (Yields.any _).bind fun exponent _ => Charges.some ?_
    exact Int.mul_nonneg (Int.natCast_nonneg _) (by decide)
  | log topics =>
    rw [dynamic]
    split
    · next gas hgas =>
      refine (back_nonneg hstack 1).bind fun length hlength => Charges.some ?_
      exact log_cost (growth?_nonneg hgas) topics hlength
    · exact Charges.none
  -- Costs with a surcharge for what is touched for the first time: the answers of the state are
  -- arbitrary, and no answer makes the surcharge negative.
  | account =>
    refine (Yields.any _).bind fun a _ => (accountSurcharge_nonneg a).bind fun gas hgas => ?_
    exact Charges.some hgas
  | accountCodeCopy =>
    have hprice : 0 ≤ copyWord := by decide
    refine (perWordCost_nonneg hprice hstack 3).bind fun gas? hgas => ?_
    split
    · next gas =>
      refine (Yields.any _).bind fun a _ =>
        (accountSurcharge_nonneg a).bind fun access haccess => ?_
      exact Charges.some (Int.add_nonneg (hgas gas rfl) haccess)
    · exact Charges.none
  | storageLoad =>
    refine (Yields.any _).bind fun key _ => (Yields.any _).bind fun warm _ => Charges.some ?_
    cases warm with
    | true => exact le_rfl
    | false => exact (show warmAccess ≤ coldSlot by decide)
  -- Writing a slot is refused when no more than the stipend is left, and else
  -- costs a warm access or more.
  | storageStore =>
    rw [dynamic]
    split
    · exact Charges.none
    · refine (Yields.any _).bind fun key _ => (Yields.any _).bind fun value _ =>
        (Yields.any _).bind fun warm _ => (Yields.any _).bind fun current _ =>
        (Yields.any _).bind fun initial _ => Charges.some ?_
      exact store_cost initial current value !warm
  | selfDestruct =>
    refine (Yields.any _).bind fun beneficiary _ => (Yields.any _).bind fun warm _ =>
      (Yields.any _).bind fun empty _ => ?_
    have haccess : 0 ≤ if warm then 0 else coldAccount := by
      split
      · exact le_rfl
      · exact (by decide)
    dsimp only
    split
    · refine (Yields.any _).bind fun balance _ => ?_
      split
      · exact Charges.some (Int.add_nonneg haccess (by decide))
      · exact Charges.some haccess
    · exact Charges.some haccess
  | call kind => exact dynamic_call_charges kind hstack

end Gas

/-! ### The table -/

/-- Whether an instruction ends its frame. -/
def Opcode.ends : Opcode → Bool
  | .stop | .return | .revert | .selfDestruct => true
  | _ => false

/-- The least cost is not negative. -/
theorem DynamicCost.least_nonneg (cost : DynamicCost) (stack : Stack) : 0 ≤ cost.least stack := by
  unfold least
  -- one case for each cost that is listed
  split
  · exact (by decide)
  · exact (by decide)
  · exact (by decide)
  · split
    · exact Gas.transferCost_nonneg _
    · exact le_rfl
  · split
    · exact Gas.transferCost_nonneg _
    · exact le_rfl
  · exact le_rfl

/-- No entry of the table has a negative constant or price. -/
theorem Opcode.operation_nonneg {op : Opcode} {operation : Operation}
    (h : op.operation? = some operation) :
    0 ≤ operation.constantGas ∧ 0 ≤ operation.dynamic.price := by
  -- the table, entry by entry
  cases op with
  | binary op => cases op <;> (cases h; exact of_decide_eq_true rfl)
  | create kind => cases kind <;> (cases h; exact of_decide_eq_true rfl)
  | call kind => cases kind <;> (cases h; exact of_decide_eq_true rfl)
  | invalid => cases h
  | _ => cases h; exact of_decide_eq_true rfl

/-- **Every instruction costs something**, unless it ends its frame: what the table charges nothing
for has a dynamic cost. -/
theorem Opcode.cost_pos {op : Opcode} {operation : Operation} (h : op.operation? = some operation)
    (hends : op.ends = false) (stack : Stack) :
    0 < operation.constantGas + operation.dynamic.least stack := by
  have hleast : 0 ≤ operation.dynamic.least stack := DynamicCost.least_nonneg _ _
  have hconstant (hpos : 0 < operation.constantGas) :
      0 < operation.constantGas + operation.dynamic.least stack :=
    Int.add_pos_of_pos_of_nonneg hpos hleast
  cases op with
  -- free of a constant
  | storageLoad | storageStore | log => cases h; exact of_decide_eq_true rfl
  | stop | «return» | revert | selfDestruct => cases hends
  | invalid => cases h
  -- all others
  | binary op => cases op <;> (cases h; exact hconstant (of_decide_eq_true rfl))
  | create kind => cases kind <;> (cases h; exact hconstant (of_decide_eq_true rfl))
  | call kind => cases kind <;> (cases h; exact hconstant (of_decide_eq_true rfl))
  | _ => cases h; exact hconstant (of_decide_eq_true rfl)

/-! ### Instructions that are about to run -/

namespace Prepared

variable {f f₁ : Frame} {s s₁ : State} {op : Opcode} {operation : Operation} {charge : Gas.Charge}

/-- What was charged covers what goes to a callee, and the least cost besides. -/
theorem covers (h : Prepared f s op operation charge f₁ s₁) (hf : f.NonNegative) :
    charge.Covers (operation.dynamic.least f.stack) := by
  obtain ⟨size, s₀, -, -, hdynamic, -⟩ := h.charged
  have hprice : 0 ≤ operation.dynamic.price := (Opcode.operation_nonneg h.isAt.operation?).2
  have hstack : ∀ w ∈ (f.spent operation.constantGas size).stack, 0 ≤ w := hf.stack
  exact Gas.dynamic_charges hprice hstack hdynamic charge rfl

/-- What is left of the gas, what goes to a callee and what an instruction costs at least are all
paid from what there was. -/
theorem gas_add_le (h : Prepared f s op operation charge f₁ s₁) (hf : f.NonNegative) :
    f₁.gas + charge.forwarded + (operation.constantGas + operation.dynamic.least f.stack) ≤
      f.gas := by
  have hcharge : charge.forwarded + operation.dynamic.least f.stack ≤ charge.gas :=
    (h.covers hf).gas
  have hgas : f₁.gas = f.gas - operation.constantGas - charge.gas := h.gas
  omega

/-- Preparing an instruction leaves no negative number in its frame. -/
theorem nonNegative (h : Prepared f s op operation charge f₁ s₁) (hf : f.NonNegative) :
    f₁.NonNegative where
  gas := by
    have hpaid := h.paid
    rw [h.gas]
    omega
  value := h.message ▸ hf.value
  pc := h.pc ▸ hf.pc
  stack := h.stack ▸ hf.stack
  call := h.mode ▸ hf.call
  create := h.mode ▸ hf.create

end Prepared

/-- **The stipend is paid for.** A call requests no more for its callee than is forwarded to it and
charged for the transfer. -/
theorem Step.callRequest_gas_le {kind : CallKind} {f : Frame} {forwarded : Int} {r : CallRequest}
    (h : callRequest kind f forwarded = .ok r) :
    r.gas ≤ forwarded + (DynamicCost.call kind).least f.stack := by
  obtain ⟨-, -, -, -, ⟨hkind, hvalue, hgas, -⟩ | ⟨-, -, hgas, -⟩⟩ := callRequest_cases h
  · have hleast : (DynamicCost.call kind).least f.stack = Gas.transferCost r.value := by
      rcases hkind with rfl | rfl
      · rw [DynamicCost.least, hvalue]
      · rw [DynamicCost.least, hvalue]
    have hstipend : Gas.callStipend ≤ Gas.callValueTransfer := by decide
    rw [hleast, hgas, Gas.transferCost]
    split
    · exact Int.add_le_add_left hstipend forwarded
    · exact (Int.add_zero forwarded).ge
  · have hleast : 0 ≤ (DynamicCost.call kind).least f.stack := DynamicCost.least_nonneg _ _
    omega

end EvmCore
