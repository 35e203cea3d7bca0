import EvmCore.Proofs.Course
import EvmCore.Proofs.MemoryRegion
import EvmCore.Proofs.Warming
import Mathlib

/-!
# Memory is paid for once

A step that gets as far as the growth of memory has paid for it: `Step.bill?` tells how many
words the step needs and what part of its cost is for the growth. The bills of all steps of a
frame add up to what the words of its memory cost at once, whatever the steps were
(`Frame.PaidOnce`): only the highest word matters.

For this the memory has to be as large as the words that were paid for. An instruction that is given
a negative offset can insert bytes rather than overwrite them, and then there is more memory than
was paid for. What remains true is said by `Frame.PaidFor`.
-/

namespace EvmCore

/-! ### The growth of memory as a part of the cost -/

namespace Gas

variable {cost : DynamicCost} {f : Frame} {size growth : Int} {s s' : State} {charge : Charge}

/-- Where no memory is needed nothing is paid for it. -/
theorem growth?_zero (f : Frame) : growth? f 0 = some 0 := rfl

/-- A price per word, with and without the growth of memory. -/
theorem perWordCost_growth {price gas : Int} {length : Nat} (hgrowth : growth? f size = some growth)
    (h : perWordCost f size price length s = .ok (some gas) s') :
    perWordCost f 0 price length s = .ok (some (gas - growth)) s' := by
  rw [perWordCost, hgrowth] at h
  obtain ⟨w, s₁, hw, h⟩ := bind_ok_iff.mp h
  rw [perWordCost, growth?_zero]
  obtain ⟨hgas, rfl⟩ := pure_ok_iff.mp h
  refine bind_ok_iff.mpr ⟨w, s₁, hw, pure_ok_iff.mpr ⟨?_, rfl⟩⟩
  obtain rfl := Option.some.inj hgas
  congr 1
  omega

/-- The charge for a call, with and without the growth of memory. -/
theorem callCharge_growth {base r : Int} (hbase : base = r + growth) (hgrowth : 0 ≤ growth)
    (h : callCharge f base s = .ok (some charge) s') : ∃ free : Charge,
      callCharge f r s = .ok (some free) s' ∧
      charge.gas - charge.forwarded = growth + (free.gas - free.forwarded) := by
  obtain ⟨requested, s₁, hrequested, h⟩ := bind_ok_iff.mp h
  obtain ⟨hcharge, rfl⟩ := pure_ok_iff.mp h
  rw [callGas?] at hcharge
  split at hcharge
  · cases hcharge
  · next havailable =>
    obtain rfl := Option.some.inj hcharge
    -- without the growth there is more gas left to share, so that the callee may get more; what is
    -- paid beside it is as much less
    let forwarded := min (f.gas - r - (f.gas - r) / 64) requested
    refine ⟨⟨r + forwarded, forwarded⟩, bind_ok_iff.mpr ⟨requested, s₁, hrequested, ?_⟩, ?_⟩
    · rw [callGas?, if_neg (by omega)]
      rfl
    · dsimp only
      omega

/-- What a call pays for memory is a part of its cost beside the gas for the callee. -/
theorem dynamic_call_growth {kind : CallKind} (hgrowth : growth? f size = some growth)
    (h : dynamic (.call kind) f size s = .ok (some charge) s') : ∃ free : Charge,
      dynamic (.call kind) f 0 s = .ok (some free) s' ∧
      charge.gas - charge.forwarded = growth + (free.gas - free.forwarded) := by
  have hnonneg := growth?_nonneg hgrowth
  cases kind with
  | call =>
    obtain ⟨callee, s₁, hcallee, h⟩ := bind_ok_iff.mp h
    obtain ⟨value, s₂, hvalue, h⟩ := bind_ok_iff.mp h
    obtain ⟨access, s₃, haccess, h⟩ := bind_ok_iff.mp h
    rw [hgrowth] at h
    -- whether the callee is looked at depends on the value, not on the memory
    suffices hfree : ∃ free : Charge, _ ∧
      charge.gas - charge.forwarded = growth + (free.gas - free.forwarded) by
      obtain ⟨free, hfree, hgas⟩ := hfree
      exact ⟨free, bind_ok_iff.mpr ⟨callee, s₁, hcallee, bind_ok_iff.mpr ⟨value, s₂, hvalue,
        bind_ok_iff.mpr ⟨access, s₃, haccess, hfree⟩⟩⟩, hgas⟩
    rw [growth?_zero]
    -- only a call that sends value looks whether there is an account to send it to
    by_cases hzero : value ≠ 0
    · simp only [if_pos hzero] at h ⊢
      obtain ⟨empty, s₄, hempty, h⟩ := bind_ok_iff.mp h
      obtain ⟨free, hfree, hgas⟩ := callCharge_growth
        (r := access + (if empty = true then callNewAccount else 0) + 0 + callValueTransfer)
          (by ring) hnonneg h
      exact ⟨free, bind_ok_iff.mpr ⟨empty, s₄, hempty, hfree⟩, hgas⟩
    · simp only [if_neg hzero] at h ⊢
      exact callCharge_growth (r := access + 0 + 0 + 0) (by ring) hnonneg h
  | callCode =>
    obtain ⟨callee, s₁, hcallee, h⟩ := bind_ok_iff.mp h
    obtain ⟨access, s₂, haccess, h⟩ := bind_ok_iff.mp h
    rw [hgrowth] at h
    obtain ⟨value, s₃, hvalue, h⟩ := bind_ok_iff.mp h
    obtain ⟨free, hfree, hgas⟩ :=
      callCharge_growth (r := access + 0 + if value ≠ 0 then callValueTransfer else 0)
        (by ring) hnonneg h
    exact ⟨free, bind_ok_iff.mpr ⟨callee, s₁, hcallee, bind_ok_iff.mpr ⟨access, s₂, haccess,
      bind_ok_iff.mpr ⟨value, s₃, hvalue, hfree⟩⟩⟩, hgas⟩
  -- these send no value
  | delegateCall | staticCall =>
    obtain ⟨callee, s₁, hcallee, h⟩ := bind_ok_iff.mp h
    obtain ⟨access, s₂, haccess, h⟩ := bind_ok_iff.mp h
    rw [hgrowth] at h
    obtain ⟨free, hfree, hgas⟩ := callCharge_growth (r := access + 0) (by ring) hnonneg h
    exact ⟨free, bind_ok_iff.mpr
      ⟨callee, s₁, hcallee, bind_ok_iff.mpr ⟨access, s₂, haccess, hfree⟩⟩, hgas⟩

/-- **The growth of memory is a part of the dynamic cost**: without it, there
is as much less to pay. -/
theorem dynamic_growth (hgrows : cost.grows = true) (hgrowth : growth? f size = some growth)
    (h : dynamic cost f size s = .ok (some charge) s') : ∃ free : Charge,
      dynamic cost f 0 s = .ok (some free) s' ∧
      charge.gas - charge.forwarded = growth + (free.gas - free.forwarded) := by
  -- one case for each cost that has a part for memory
  cases cost with
  | memory =>
    rw [dynamic, hgrowth] at h
    obtain ⟨hcharge, rfl⟩ := pure_ok_iff.mp h
    obtain rfl := Option.some.inj hcharge
    refine ⟨⟨0, 0⟩, rfl, ?_⟩
    dsimp only
    omega
  | perWord price length =>
    obtain ⟨gas?, s₁, hgas, h⟩ := bind_ok_iff.mp h
    obtain ⟨hcharge, rfl⟩ := pure_ok_iff.mp h
    cases gas? with
    | none => cases hcharge
    | some gas =>
      obtain rfl := Option.some.inj hcharge
      refine ⟨⟨gas - growth, 0⟩,
        bind_ok_iff.mpr ⟨_, s₁, perWordCost_growth hgrowth hgas, rfl⟩, ?_⟩
      dsimp only
      omega
  | log topics =>
    rw [dynamic, hgrowth] at h
    obtain ⟨length, s₁, hlength, h⟩ := bind_ok_iff.mp h
    obtain ⟨hcharge, rfl⟩ := pure_ok_iff.mp h
    obtain rfl := Option.some.inj hcharge
    refine ⟨⟨0 + log + topics * logTopic + length * logByte, 0⟩,
      bind_ok_iff.mpr ⟨length, s₁, hlength, rfl⟩, ?_⟩
    dsimp only
    omega
  | accountCodeCopy =>
    obtain ⟨gas?, s₁, hgas, h⟩ := bind_ok_iff.mp h
    cases gas? with
    | none =>
      obtain ⟨hcharge, -⟩ := pure_ok_iff.mp h
      cases hcharge
    | some gas =>
      obtain ⟨a, s₂, ha, h⟩ := bind_ok_iff.mp h
      obtain ⟨surcharge, s₃, hsurcharge, h⟩ := bind_ok_iff.mp h
      obtain ⟨hcharge, rfl⟩ := pure_ok_iff.mp h
      obtain rfl := Option.some.inj hcharge
      refine ⟨⟨gas - growth + surcharge, 0⟩,
        bind_ok_iff.mpr ⟨_, s₁, perWordCost_growth hgrowth hgas,
          bind_ok_iff.mpr ⟨a, s₂, ha, bind_ok_iff.mpr ⟨surcharge, s₃, hsurcharge, rfl⟩⟩⟩, ?_⟩
      dsimp only
      omega
  | call kind => exact dynamic_call_growth hgrowth h
  | _ => cases hgrows

end Gas

/-! ### Bills -/

/-- What a step needs of memory, in words, and what it pays for the growth. -/
structure MemoryBill where
  words : Nat
  gas : Int

namespace Step

variable {ctx : Context} {op : Opcode} {operation : Operation} {f f₁ f' : Frame} {s s₁ s' : State}

/-- The phases up to the growth of memory. The result is the gas for a callee, and
what was paid for the growth. -/
def updateMemory (op : Opcode) (operation : Operation) : StepM (Int × Int) := do
  costing op operation
  let frame ← getFrame
  let forwarded ← payDynamic operation
  growMemory
  return (forwarded, (Gas.growth? frame frame.memoryDesired).getD 0)

/-- A step is its phases up to the growth of memory, and then the instruction. -/
theorem phases_eq_updateMemory (h : f.IsAt op operation) :
    phases ctx ⟨f, s⟩ = (updateMemory op operation >>= fun paid => run ctx paid.1 op) ⟨f, s⟩ := by
  rw [phases_eq_costing h, updateMemory, bind_assoc]
  cases hcosting : costing op operation ⟨f, s⟩ with
  | error e a => rw [bind_error_iff.mpr (.inl hcosting), bind_error_iff.mpr (.inl hcosting)]
  | ok u a =>
    rw [bind_of_ok hcosting, bind_of_ok hcosting]
    simp only [bind_assoc, pure_bind]
    rfl

/-- What a step needs of memory and pays for it; nothing if it fails before the memory is grown. -/
def bill? (f : Frame) (s : State) : Option MemoryBill :=
  match (fetch? f.message.code.bytes f.pc).bind lookup with
  | none => none
  | some (op, operation) =>
    match updateMemory op operation ⟨f, s⟩ with
    | .ok (_, gas) a => some ⟨(a.frame.memoryDesired / 32).toNat, gas⟩
    | .error _ _ => none

/-- The bill of a step that is at an instruction. -/
theorem bill?_of_isAt (h : f.IsAt op operation) (s : State) : bill? f s =
    match updateMemory op operation ⟨f, s⟩ with
    | .ok (_, gas) a => some ⟨(a.frame.memoryDesired / 32).toNat, gas⟩
    | .error _ _ => none := by
  obtain ⟨byte, hfetch, hlookup⟩ := h
  rw [bill?, hfetch]
  dsimp only [Option.bind]
  rw [hlookup]

/-- At no instruction there is no bill. -/
theorem bill?_of_not_isAt (h : ∀ op operation, ¬f.IsAt op operation) (s : State) :
    bill? f s = none := by
  rw [bill?]
  split
  · rfl
  · next op operation hentry =>
    obtain ⟨byte, hfetch, hlookup⟩ := Option.bind_eq_some_iff.mp hentry
    exact absurd ⟨byte, hfetch, hlookup⟩ (h op operation)

/-- A step that got to the growth of memory: it needs `size` bytes, and paid `gas` for the growth
along with the rest of its dynamic cost. -/
structure Updates (f : Frame) (s : State) (op : Opcode) (operation : Operation)
    (charge : Gas.Charge) (size gas : Int) (f₁ : Frame) (s₁ : State) : Prop where
  prepared : Prepared f s op operation charge f₁ s₁
  needed : operation.memory.size? f.stack = .ok (some size)
  growth : Gas.growth? f (Gas.wordCount size * 32) = some gas
  paid : ∃ s₀, costing op operation ⟨f, s⟩ = .ok () ⟨f.spent operation.constantGas size, s₀⟩ ∧
    payDynamic operation ⟨f.spent operation.constantGas size, s₀⟩ =
      .ok charge.forwarded ⟨(f.spent operation.constantGas size).spent charge.gas size, s₁⟩ ∧
    Gas.dynamic operation.dynamic (f.spent operation.constantGas size)
      (Gas.wordCount size * 32) s₀ = .ok (some charge) s₁
  frame : f₁ = ((f.spent operation.constantGas size).spent charge.gas size).grown

/-- **What a step has done** when the memory is grown. -/
theorem updates_of_updateMemory {forwarded gas : Int} (hat : f.IsAt op operation)
    (h : updateMemory op operation ⟨f, s⟩ = .ok (forwarded, gas) ⟨f₁, s₁⟩) :
    ∃ charge size, forwarded = charge.forwarded ∧
      Updates f s op operation charge size gas f₁ s₁ := by
  -- the phases in their order; each success says what the next one starts from
  obtain ⟨_, a, hcosting, h⟩ := bind_ok_iff.mp h
  obtain ⟨_, a₁, hrecord, hrest⟩ := bind_ok_iff.mp hcosting
  obtain ⟨s₀, hquiet, rfl⟩ := recordStep_ok hrecord
  obtain ⟨_, a₂, hstack, hrest⟩ := bind_ok_iff.mp hrest
  obtain ⟨hmin, hmax, rfl⟩ := checkStack_ok hstack
  obtain ⟨_, a₃, hread, hrest⟩ := bind_ok_iff.mp hrest
  obtain ⟨hallowed, rfl⟩ := checkReadOnly_ok hread
  obtain ⟨_, a₄, hgas, hrest⟩ := bind_ok_iff.mp hrest
  obtain ⟨hconstant, rfl⟩ := useGas_ok_iff.mp hgas
  obtain ⟨size, hsize, rfl⟩ := findMemorySize_ok hrest
  rw [getFrame_bind] at h
  obtain ⟨paid, a₅, hpay, h⟩ := bind_ok_iff.mp h
  obtain ⟨charge, s₂, hdynamic, hpaid, rfl, rfl⟩ := payDynamic_ok hpay
  obtain ⟨_, a₆, hgrow, h⟩ := bind_ok_iff.mp h
  obtain rfl := growMemory_ok hgrow
  obtain ⟨hresult, hf₁⟩ := pure_ok_iff.mp h
  cases hresult
  cases hf₁
  -- an instruction whose cost has no part for memory needs none
  have hgrowth : ∃ growth, Gas.growth? f (Gas.wordCount size * 32) = some growth := by
    rcases Opcode.grows_of_memory hat.operation? with hnone | hgrows
    · rw [hnone] at hsize
      obtain rfl : 0 = size := Option.some.inj (Except.ok.inj hsize)
      exact ⟨0, rfl⟩
    · cases hgrowth : Gas.growth? f (Gas.wordCount size * 32) with
      | some growth => exact ⟨growth, rfl⟩
      | none =>
        -- the constant cost changes neither the memory nor the words that were paid for
        have hnone : Gas.growth? (f.spent operation.constantGas size) (Gas.wordCount size * 32) =
            none := hgrowth
        cases Gas.dynamic_yields_none hgrows hnone hdynamic
  obtain ⟨growth, hgrowth⟩ := hgrowth
  refine ⟨charge, size, rfl,
    ⟨hat, hmin, hmax, hallowed, hconstant, ⟨size, s₀, hsize, hquiet, hdynamic, rfl⟩, hpaid⟩, hsize,
    ?_, ⟨s₀, hcosting, hpay, hdynamic⟩, rfl⟩
  -- the growth is found for the frame after the constant cost, whose memory is the same
  change _ = some ((Gas.growth? f (Gas.wordCount size * 32)).getD 0)
  rw [hgrowth]
  rfl

/-- Of the frame, only the gas and the memory size that was found may have changed. -/
def Meters (a a' : Activation) : Prop :=
  ∃ gas memoryDesired, a'.frame = { a.frame with gas, memoryDesired }

instance : IsTrans Activation Meters := by
  refine ⟨fun a₁ a₂ a₃ h h' => ?_⟩
  obtain ⟨gas, memoryDesired, h⟩ := h
  obtain ⟨gas', memoryDesired', h'⟩ := h'
  exact ⟨gas', memoryDesired', by rw [h', h]⟩

/-- A phase that may have warmed something has changed no more of the frame. -/
theorem Fails.meters {α : Type} {x : StepM α} (h : Fails Warmed x) : Fails Meters x :=
  fun _ _ _ hx => ⟨_, _, (h hx).frame⟩

/-- The phases up to the dynamic cost leave the memory alone where one of them fails. -/
theorem costing_fails (op : Opcode) (operation : Operation) :
    Fails Meters (costing op operation) := by
  refine (recordStep_neverFails op).fails.bind ?_ fun _ =>
    (checkStack_fails operation).meters.bind ?_ fun _ =>
    (checkReadOnly_fails op operation).meters.bind ?_ fun _ =>
    (useGas_fails _).meters.bind ?_ fun _ => (findMemorySize_fails operation).meters
  · -- each phase in turn, where it succeeds
    rintro ⟨f, s⟩ _ a h
    obtain ⟨s₀, -, rfl⟩ := recordStep_ok h
    exact ⟨_, _, rfl⟩
  · rintro ⟨f, s⟩ _ a h
    obtain ⟨-, -, rfl⟩ := checkStack_ok h
    exact ⟨_, _, rfl⟩
  · rintro ⟨f, s⟩ _ a h
    obtain ⟨-, rfl⟩ := checkReadOnly_ok h
    exact ⟨_, _, rfl⟩
  · rintro ⟨f, s⟩ _ a h
    obtain ⟨-, rfl⟩ := useGas_ok_iff.mp h
    exact ⟨_, _, rfl⟩

/-- They leave it alone where all of them succeed, as well. -/
theorem costing_meters (op : Opcode) (operation : Operation) :
    Keeps Meters (costing op operation) := by
  rintro ⟨f, s⟩ _ a h
  obtain ⟨_, a₁, hrecord, h⟩ := bind_ok_iff.mp h
  obtain ⟨s₀, -, rfl⟩ := recordStep_ok hrecord
  obtain ⟨_, a₂, hstack, h⟩ := bind_ok_iff.mp h
  obtain ⟨-, -, rfl⟩ := checkStack_ok hstack
  obtain ⟨_, a₃, hread, h⟩ := bind_ok_iff.mp h
  obtain ⟨-, rfl⟩ := checkReadOnly_ok hread
  obtain ⟨_, a₄, hgas, h⟩ := bind_ok_iff.mp h
  obtain ⟨-, rfl⟩ := useGas_ok_iff.mp hgas
  obtain ⟨size, -, rfl⟩ := findMemorySize_ok h
  exact ⟨_, _, rfl⟩

/-- A step that fails before the memory is grown leaves it alone. -/
theorem updateMemory_fails (op : Opcode) (operation : Operation) :
    Fails Meters (updateMemory op operation) := by
  refine (costing_fails op operation).bind (costing_meters op operation) fun _ => ?_
  rintro ⟨f, s⟩ e a h
  rw [getFrame_bind] at h
  -- of what comes after, only the payment can fail
  rcases bind_error_iff.mp h with hpay | ⟨_, a₁, -, h⟩
  · exact (payDynamic_fails operation).meters hpay
  · rcases bind_error_iff.mp h with hgrow | ⟨_, a₂, -, h⟩
    · exact (growMemory_neverFails hgrow).elim
    · exact (pure_ne_error h).elim

end Step

/-! ### The account of a frame -/

/-- What was billed covers the memory of a frame, and there is at least as much memory
as words that were paid for. -/
structure Frame.PaidFor (f : Frame) (bills : List MemoryBill) : Prop where
  held : 32 * f.activeWords ≤ f.memory.size
  covered : Gas.memoryCost f.activeWords ≤ (bills.map MemoryBill.gas).sum

/-- What was billed is just the price of the memory of a frame, which reaches up to the
highest word that was asked for. -/
structure Frame.PaidOnce (f : Frame) (bills : List MemoryBill) : Prop where
  held : f.memory.size = 32 * f.activeWords
  settled : (bills.map MemoryBill.gas).sum = Gas.memoryCost f.activeWords
  highest : f.activeWords = (bills.map MemoryBill.words).foldr max 0

/-- What growing the memory to `k` words does, in numbers. -/
theorem Gas.growth?_words {f : Frame} {k gas : Int} (h : growth? f (k * 32) = some gas) :
    (k ≤ f.activeWords → gas = 0) ∧
    (f.activeWords < k → gas = memoryCost k - memoryCost f.activeWords) := by
  have hcount : wordCount (k * 32) = k := by
    unfold wordCount
    omega
  rw [growth?, expansion?, hcount] at h
  -- nothing is needed, too much is needed, or it is compared with what is there
  split at h
  · cases h
    exact ⟨fun _ => rfl, fun _ => by omega⟩
  · split at h
    · cases h
    · dsimp only at h
      split at h
      · cases h
        exact ⟨fun _ => rfl, fun _ => by omega⟩
      · obtain rfl := Option.some.inj h
        exact ⟨fun hle => absurd hle ‹_›, fun _ => rfl⟩

namespace Frame

variable {f : Frame} {bills : List MemoryBill} {k gas : Int}

/-- The memory of a frame that was grown, in numbers. -/
theorem grown_words (hdesired : f.memoryDesired = k * 32) :
    ((f.memory.size : Int) < k * 32 → (f.grown.activeWords : Int) = k ∧
      (f.grown.memory.size : Int) = k * 32) ∧
    (¬(f.memory.size : Int) < k * 32 →
      f.grown.activeWords = f.activeWords ∧ f.grown.memory.size = f.memory.size) := by
  have hsize := f.size_grown_memory
  rw [hdesired] at hsize
  rw [grown, hdesired]
  refine ⟨fun hlt => ?_, fun hnot => ?_⟩
  · rw [if_pos hlt]
    refine ⟨?_, ?_⟩
    · dsimp only
      omega
    · dsimp only
      rw [Memory.size_grow]
      omega
  · rw [if_neg hnot]
    exact ⟨rfl, rfl⟩

/-- **What is billed covers what is added**, also where there is more memory than was paid for. -/
theorem PaidFor.grown (h : f.PaidFor bills) (hdesired : f.memoryDesired = k * 32)
    (hgrowth : Gas.growth? f (k * 32) = some gas) :
    f.grown.PaidFor (⟨k.toNat, gas⟩ :: bills) ∧ f.activeWords ≤ f.grown.activeWords := by
  obtain ⟨hzero, hcost⟩ := Gas.growth?_words hgrowth
  have hnonneg := Gas.growth?_nonneg hgrowth
  obtain ⟨hgrows, hstays⟩ := grown_words hdesired
  have hheld := h.held
  have hcovered := h.covered
  -- compared with the memory and not with the words that were paid for: there may be more of it
  by_cases hlt : (f.memory.size : Int) < k * 32
  · obtain ⟨hwords, hsize⟩ := hgrows hlt
    have hgas := hcost (by omega)
    refine ⟨⟨by omega, ?_⟩, by omega⟩
    rw [hwords, List.map_cons, List.sum_cons]
    dsimp only
    omega
  · -- the memory is there already, and nothing is added
    obtain ⟨hwords, hsize⟩ := hstays hlt
    refine ⟨⟨by omega, ?_⟩, by omega⟩
    rw [hwords, List.map_cons, List.sum_cons]
    dsimp only
    omega

/-- **Only the growth of memory is paid for**, up to the highest word so far. -/
theorem PaidOnce.grown (h : f.PaidOnce bills) (hdesired : f.memoryDesired = k * 32)
    (hgrowth : Gas.growth? f (k * 32) = some gas) : f.grown.PaidOnce (⟨k.toNat, gas⟩ :: bills) := by
  obtain ⟨hzero, hcost⟩ := Gas.growth?_words hgrowth
  obtain ⟨hgrows, hstays⟩ := grown_words hdesired
  have hheld := h.held
  have hsettled := h.settled
  have hhighest := h.highest
  -- here memory and words agree, so that growing and paying fall together
  by_cases hlt : (f.memory.size : Int) < k * 32
  · obtain ⟨hwords, hsize⟩ := hgrows hlt
    have hgas := hcost (by omega)
    refine ⟨by omega, ?_, ?_⟩
    · rw [hwords, List.map_cons, List.sum_cons]
      dsimp only
      omega
    · rw [List.map_cons, List.foldr_cons, ← hhighest]
      dsimp only
      omega
  · obtain ⟨hwords, hsize⟩ := hstays hlt
    have hgas := hzero (by omega)
    refine ⟨by omega, ?_, ?_⟩
    · rw [hwords, List.map_cons, List.sum_cons]
      dsimp only
      omega
    · rw [List.map_cons, List.foldr_cons, ← hhighest]
      dsimp only
      omega

/-- Memory that is written to may become larger, and never smaller. -/
theorem PaidFor.of_size {f' : Frame} (h : f.PaidFor bills) (hwords : f'.activeWords = f.activeWords)
    (hsize : f.memory.size ≤ f'.memory.size) : f'.PaidFor bills :=
  ⟨hwords ▸ h.held.trans hsize, hwords ▸ h.covered⟩

/-- The exact account needs the size to stay. -/
theorem PaidOnce.of_size {f' : Frame} (h : f.PaidOnce bills)
    (hwords : f'.activeWords = f.activeWords) (hsize : f'.memory.size = f.memory.size) :
    f'.PaidOnce bills :=
  ⟨hsize.trans (hwords ▸ h.held), hwords ▸ h.settled, hwords ▸ h.highest⟩

end Frame

/-! ### Memory never shrinks -/

/-- Whatever is written wherever, no byte is lost. -/
theorem Memory.size_le_overwrite (m : Memory) (offset : Int) (data : ByteArray) :
    m.size ≤ (m.overwrite offset data).size := by
  rw [overwrite]
  split
  · exact le_rfl
  · -- the end of the range is at most the data beyond its beginning
    have hlast := Bytes.position_add_le m.size offset (Int.natCast_nonneg data.size)
    unfold Bytes.splice
    dsimp only
    split
    · rw [ByteArray.copySlice_eq_append]
      simp only [ByteArray.size_append, ByteArray.size_extract, ByteArray.size_data]
      omega
    · simp only [ByteArray.size_append, ByteArray.size_extract]
      omega

section Turns

variable {ctx : Context} {forwarded : Int} {op : Opcode} {f f' : Frame} {s s' : State} {u : Unit}

/-- An instruction does not grow memory by itself. -/
theorem Executes.activeWords (h : Executes ctx forwarded op f s f' s') :
    f'.activeWords = f.activeWords := by
  cases h with
  | _ => rfl

/-- A copy loses no byte. -/
theorem CopiesPadded.size_le {bytes : ByteArray} {memoryOffset offset length : Int} {m m' : Memory}
    (h : CopiesPadded bytes memoryOffset offset length m m') : m.size ≤ m'.size := by
  unfold CopiesPadded at h
  split at h
  · obtain ⟨data, -, rfl⟩ := h
    exact m.size_le_overwrite memoryOffset data
  · exact h ▸ le_rfl

/-- Nor does any instruction. -/
theorem Executes.size_le (h : Executes ctx forwarded op f s f' s') :
    f.memory.size ≤ f'.memory.size := by
  -- only the instructions that write to memory can change its size
  cases h with
  | copy _ _ hcopies => exact hcopies.size_le
  | accountCodeCopy _ _ hcopies => exact hcopies.size_le
  | copyReturnData _ _ =>
    dsimp only
    exact Memory.size_le_overwrite _ _ _
  | memoryStore _ _ =>
    dsimp only
    exact Memory.size_le_overwrite _ _ _
  | memoryStoreByte => exact (Memory.size_setByte _ _ _).ge
  | _ => exact le_rfl

/-- What a frame does to its memory and its account, where `bills` is what it
is billed meanwhile. -/
structure Frame.Handles (f : Frame) (bills : List MemoryBill) (f' : Frame) : Prop where
  covers : ∀ {past : List MemoryBill}, f.PaidFor past →
    f'.PaidFor (bills ++ past) ∧ f.activeWords ≤ f'.activeWords
  settles : ∀ {past : List MemoryBill}, f.NaturalRegions → f.mode.Fits f.memory.size →
    f.PaidOnce past →
    f'.PaidOnce (bills ++ past) ∧ f'.mode.Fits f'.memory.size

/-- A frame that is billed for nothing, since it has not grown its memory. -/
theorem Frame.Handles.of_size (hwords : f'.activeWords = f.activeWords)
    (hle : f.memory.size ≤ f'.memory.size) (hfits : f.NaturalRegions → f.mode.Fits f.memory.size →
      f'.memory.size = f.memory.size ∧ f'.mode.Fits f'.memory.size) : f.Handles [] f' where
  covers h := ⟨h.of_size hwords hle, hwords.ge⟩
  settles hnatural hmode h := by
    obtain ⟨hsize, hfits⟩ := hfits hnatural hmode
    exact ⟨h.of_size hwords hsize, hfits⟩

/-- To begin a request is billed for nothing. -/
theorem Frame.handles_begin {start : Start} (h : f.begin ctx ⟨f, s⟩ = .ok start ⟨f', s'⟩) :
    f.Handles [] f' := by
  cases Frame.begins_of_begin h with
  | call => exact .of_size rfl le_rfl fun _ hfits => ⟨rfl, hfits⟩
  | create => exact .of_size rfl le_rfl fun _ hfits => ⟨rfl, hfits⟩

/-- So is going on with an outcome, the output of which is written where there is room for it. -/
theorem Frame.handles_resume {o : Outcome} (h : Frame.resume o f = .ok u f') : f.Handles [] f' := by
  cases Frame.goesOn_of_resume h with
  | create => exact .of_size rfl le_rfl fun _ _ => ⟨rfl, trivial⟩
  | @call request memory hmode hreturns hnone =>
    by_cases hout : (o.success || o.reverted) = true
    · obtain ⟨r, rfl, hreceives⟩ := hreturns hout
      refine .of_size rfl ?_ fun _ hfits => ⟨?_, trivial⟩
      · dsimp only
        rw [hreceives.overwritten]
        exact Memory.size_le_overwrite _ _ _
      · -- the region for the output was found when the call was made
        rw [hmode] at hfits
        exact hreceives.size_eq hfits.returnOffset
    · obtain rfl := hnone hout
      exact .of_size rfl le_rfl fun _ _ => ⟨rfl, trivial⟩

/-- The instruction itself does not add memory that was not found for it,
whether or not it fails. -/
theorem Prepared.size_of_run {operation : Operation} {charge : Gas.Charge} {f₁ : Frame} {s₁ : State}
    (hprepared : Prepared f s op operation charge f₁ s₁) (hmode : f.mode = .running)
    (h : Executes ctx charge.forwarded op f₁ s₁ f' s' ∨
      ∃ stack e, f' = { f₁ with stack, mode := .exited (.failed e) }) :
    f'.activeWords = f₁.activeWords ∧ f₁.memory.size ≤ f'.memory.size ∧
      (op.NaturalRegionsOn f.stack → f'.memory.size = f₁.memory.size ∧
        f'.mode.Fits f'.memory.size) := by
  obtain hexecutes | ⟨stack, e, rfl⟩ := h
  · refine ⟨hexecutes.activeWords, hexecutes.size_le, fun hnatural => ⟨?_, ?_⟩⟩
    · -- an instruction that is given no negative operand writes inside of what was found for it
      exact hexecutes.size_eq hprepared.isAt.operation? (hprepared.stack ▸ hprepared.within)
        (hprepared.stack ▸ hnatural)
    · exact hexecutes.mode_fits hprepared hmode hnatural
  · exact ⟨rfl, le_rfl, fun _ => ⟨rfl, trivial⟩⟩

/-- A step that got to the growth of memory ends as its instruction does. -/
theorem Step.run_of_step {forwarded gas : Int} {f₁ : Frame} {s₁ : State} {operation : Operation}
    (hat : f.IsAt op operation)
    (hupdate : updateMemory op operation ⟨f, s⟩ = .ok (forwarded, gas) ⟨f₁, s₁⟩)
    (h : EvmCore.step ctx ⟨f, s⟩ = .ok u ⟨f', s'⟩) :
    Executes ctx forwarded op f₁ s₁ f' s' ∨
    ∃ stack e, f' = { f₁ with stack, mode := .exited (.failed e) } := by
  rw [EvmCore.step, phases_eq_updateMemory hat, bind_of_ok hupdate] at h
  cases hrun : run ctx forwarded op ⟨f₁, s₁⟩ with
  | ok _ a =>
    rw [hrun] at h
    cases h
    exact .inl (executes_of_run hrun)
  | error e a =>
    rw [hrun] at h
    cases e with
    | fault e => cases h
    | failure e =>
      obtain ⟨stack, -, hframe⟩ := (run_fails ctx _ op hrun).frame
      cases h
      exact .inr ⟨stack, e, by rw [hframe]⟩

/-- A step that grew the memory is billed for what it added. -/
theorem Step.Updates.handles {operation : Operation} {charge : Gas.Charge} {size gas : Int}
    {f₁ : Frame} {s₁ : State} (h : Updates f s op operation charge size gas f₁ s₁)
    (hmode : f.mode = .running) (hrun : Executes ctx charge.forwarded op f₁ s₁ f' s' ∨
      ∃ stack e, f' = { f₁ with stack, mode := .exited (.failed e) }) :
    f.Handles [⟨(f₁.memoryDesired / 32).toNat, gas⟩] f' := by
  have hf₁ := h.frame
  -- the size is rounded up to words before it is looked at
  have hwords : (f₁.memoryDesired / 32).toNat = (Gas.wordCount size).toNat := by
    rw [hf₁, Frame.grown_eq]
    change (Gas.wordCount size * 32 / 32).toNat = _
    omega
  rw [hwords]
  obtain ⟨hactive, hle, hexact⟩ := h.prepared.size_of_run hmode hrun
  constructor
  · -- the account that holds on every run
    intro past hf
    have hspent : ((f.spent operation.constantGas size).spent charge.gas size).PaidFor past :=
      ⟨hf.held, hf.covered⟩
    obtain ⟨hpaid, hmono⟩ := hspent.grown rfl h.growth
    rw [← hf₁] at hpaid hmono
    exact ⟨hpaid.of_size hactive hle, hmono.trans hactive.ge⟩
  · -- the exact one, as long as operands are natural
    intro past hnatural _ hf
    have hspent : ((f.spent operation.constantGas size).spent charge.gas size).PaidOnce past :=
      ⟨hf.held, hf.settled, hf.highest⟩
    have hpaid := hspent.grown rfl h.growth
    rw [← hf₁] at hpaid
    obtain ⟨hsize, hfits⟩ := hexact (hnatural hmode op operation h.prepared.isAt)
    exact ⟨hpaid.of_size hactive hsize, hfits⟩

/-- **A step is billed for the memory that it adds**, and an instruction adds no more. -/
theorem Frame.handles_step (h : EvmCore.step ctx ⟨f, s⟩ = .ok u ⟨f', s'⟩)
    (hmode : f.mode = .running) :
    f.Handles (Step.bill? f s).toList f' := by
  by_cases hat : ∃ op operation, f.IsAt op operation
  · obtain ⟨op, operation, hat⟩ := hat
    rw [Step.bill?_of_isAt hat]
    cases hupdate : Step.updateMemory op operation ⟨f, s⟩ with
    | error e a =>
      -- it failed before memory was grown, and is billed for nothing
      rw [EvmCore.step, Step.phases_eq_updateMemory hat, bind_error_iff.mpr (.inl hupdate)] at h
      cases e with
      | fault e => cases h
      | failure e =>
        obtain ⟨gas, memoryDesired, hframe⟩ := Step.updateMemory_fails op operation hupdate
        obtain ⟨f₁, s₁⟩ := a
        dsimp only at hframe
        subst hframe
        cases h
        exact .of_size rfl le_rfl fun _ _ => ⟨rfl, trivial⟩
    | ok paid a =>
      obtain ⟨forwarded, gas⟩ := paid
      obtain ⟨f₁, s₁⟩ := a
      have hrun := Step.run_of_step hat hupdate h
      obtain ⟨charge, size, rfl, hupdates⟩ := Step.updates_of_updateMemory hat hupdate
      exact hupdates.handles hmode hrun
  · push Not at hat
    rw [Step.bill?_of_not_isAt hat]
    -- there is no instruction here, and nothing is billed
    obtain hphases | ⟨hphases, -⟩ := Step.phases_of_not_isAt ctx s hat
    · rw [EvmCore.step, hphases] at h
      cases h
      exact .of_size rfl le_rfl fun _ _ => ⟨rfl, trivial⟩
    · rw [EvmCore.step, hphases] at h
      cases h

/-- What is billed for nothing twice is billed for nothing. -/
theorem Frame.Handles.trans {f₁ : Frame} (h : f.Handles [] f₁) (h' : f₁.Handles [] f')
    (hnatural : f₁.NaturalRegions) : f.Handles [] f' where
  covers hf := by
    obtain ⟨hpaid, hle⟩ := h.covers hf
    exact ⟨(h'.covers hpaid).1, hle.trans (h'.covers hpaid).2⟩
  settles hf hfits hpaid := by
    obtain ⟨hpaid, hfits⟩ := h.settles hf hfits hpaid
    exact h'.settles hnatural hfits hpaid

end Turns

namespace Machine

variable {ctx : Context} {n : Nat} {m m' : Machine}

/-- What the frame that has `n` frames below it is billed by the next iteration. -/
def bill? (n : Nat) (m : Machine) : Option MemoryBill :=
  if m.waiting.length = n ∧ m.top.mode = .running then Step.bill? m.top m.state else none

/-- A frame that begins a request is billed for nothing. -/
theorem bill?_of_begin {start : Start} {a : Activation} (hn : m.waiting.length = n)
    (h : (m.frameAt n).begin ctx ⟨m.frameAt n, m.state⟩ = .ok start a) : m.bill? n = none := by
  rw [frameAt_length hn] at h
  rw [bill?, if_neg]
  exact fun hbill => (Frame.waits_of_begin h).ne_running hbill.2

/-- **A turn of a frame is billed for what it adds.** -/
theorem Turn.handles (h : Turn ctx n m m') :
    (m.frameAt n).Handles (m.bill? n).toList (m'.frameAt n) := by
  cases h with
  -- other frames take their turns
  | rest hn _ hframe =>
    rw [bill?, if_neg (fun hbill => hn.ne' hbill.1), hframe]
    exact .of_size rfl le_rfl fun _ hfits => ⟨rfl, hfits⟩
  | step hn _ hmode hstep =>
    have htop : m.frameAt n = m.top := frameAt_length hn
    rw [htop] at hmode hstep ⊢
    rw [bill?, if_pos ⟨hn, hmode⟩]
    exact Frame.handles_step hstep hmode
  | push hn _ hbegin =>
    rw [bill?_of_begin hn hbegin]
    exact Frame.handles_begin hbegin
  | @settle f o hn _ hbegin hresume =>
    rw [bill?_of_begin hn hbegin]
    -- the frame is not running in between, so that it is given no operand there
    refine (Frame.handles_begin hbegin).trans (Frame.handles_resume hresume) fun hmode => ?_
    exact absurd hmode (Frame.begins_of_begin hbegin).waits.ne_running
  | pop hn _ _ _ hresume =>
    rw [bill?, if_neg (fun hbill => absurd (hbill.1.symm.trans hn) (Nat.succ_ne_self n).symm)]
    exact Frame.handles_resume hresume

/-- The account of a frame along its course. -/
structure Accounted (n : Nat) (past : List Machine) (m : Machine) : Prop where
  mono : ∀ m₁ ∈ past, (m₁.frameAt n).activeWords ≤ (m.frameAt n).activeWords
  paidFor : (m.frameAt n).PaidFor (past.filterMap (bill? n))
  paidOnce : (∀ m₁ ∈ past, (m₁.frameAt n).NaturalRegions) →
    (m.frameAt n).PaidOnce (past.filterMap (bill? n)) ∧
    (m.frameAt n).mode.Fits (m.frameAt n).memory.size

/-- **The account is kept from turn to turn.** -/
theorem Turn.accounted {past : List Machine} (h : Turn ctx n m m') (hm : Accounted n past m) :
    Accounted n (m :: past) m' := by
  have hbills : (m :: past).filterMap (bill? n) = (m.bill? n).toList ++ past.filterMap
      (bill? n) := by
    rw [List.filterMap_cons]
    cases m.bill? n with
    | none => rfl
    | some bill => rfl
  obtain ⟨hpaid, hle⟩ := h.handles.covers hm.paidFor
  refine ⟨fun m₁ hm₁ => ?_, hbills ▸ hpaid, fun hnatural => ?_⟩
  · -- the words that were paid for become no fewer, in this turn or in one before
    obtain rfl | hm₁ := List.mem_cons.mp hm₁
    · exact hle
    · exact (hm.mono m₁ hm₁).trans hle
  · obtain ⟨hm₀, hpast⟩ := List.forall_mem_cons.mp hnatural
    obtain ⟨hpaid, hfits⟩ := hm.paidOnce hpast
    rw [hbills]
    exact h.handles.settles hm₀ hfits hpaid

/-- A frame that has just started owes nothing. -/
theorem accounted_start (hmemory : m.top.memory = .empty) (hwords : m.top.activeWords = 0)
    (hmode : m.top.mode = .running) : Accounted m.waiting.length [] m := by
  refine ⟨List.forall_mem_nil _, ?_, fun _ => ?_⟩
  · rw [frameAt_length rfl]
    exact ⟨by rw [hwords]; exact Nat.zero_le _, by rw [hwords]; exact le_rfl⟩
  · rw [frameAt_length rfl, hmode]
    exact ⟨⟨by rw [hmemory, hwords]; rfl, by rw [hwords]; rfl, hwords⟩, trivial⟩

end Machine

/-- A bill is a part of what a step pays beside its constant cost and the gas for a callee: if no
memory were needed, there would be as much less to pay. -/
def Step.Pays (f : Frame) (s : State) (bill : MemoryBill) : Prop :=
  ∃ (op : Opcode) (operation : Operation) (f₀ : Frame) (s₀ s₁ : State) (charge free : Gas.Charge),
    f.IsAt op operation ∧
    costing op operation ⟨f, s⟩ = .ok () ⟨f₀, s₀⟩ ∧
    payDynamic operation ⟨f₀, s₀⟩ =
      .ok charge.forwarded ⟨{ f₀ with gas := f₀.gas - charge.gas }, s₁⟩ ∧
    Gas.dynamic operation.dynamic f₀ f₀.memoryDesired s₀ = .ok (some charge) s₁ ∧
    Gas.dynamic operation.dynamic f₀ 0 s₀ = .ok (some free) s₁ ∧
    charge.gas - charge.forwarded = bill.gas + (free.gas - free.forwarded)

/-- **What is billed is paid**, as a part of the dynamic cost. -/
theorem Step.pays_of_bill? {f : Frame} {s : State} {bill : MemoryBill} (h : bill? f s = some bill) :
    Step.Pays f s bill := by
  by_cases hat : ∃ op operation, f.IsAt op operation
  · obtain ⟨op, operation, hat⟩ := hat
    rw [bill?_of_isAt hat] at h
    cases hupdate : updateMemory op operation ⟨f, s⟩ with
    | error e a =>
      rw [hupdate] at h
      cases h
    | ok paid a =>
      obtain ⟨forwarded, gas⟩ := paid
      obtain ⟨f₁, s₁⟩ := a
      rw [hupdate] at h
      obtain rfl := Option.some.inj h
      obtain ⟨charge, size, -, hupdates⟩ := updates_of_updateMemory hat hupdate
      obtain ⟨s₀, hcosting, hpay, hdynamic⟩ := hupdates.paid
      obtain ⟨free, hfree, hgas⟩ : ∃ free : Gas.Charge,
          Gas.dynamic operation.dynamic (f.spent operation.constantGas size) 0 s₀ =
            .ok (some free) s₁ ∧
          charge.gas - charge.forwarded = gas + (free.gas - free.forwarded) := by
        rcases Opcode.grows_of_memory hat.operation? with hnone | hgrows
        · -- where memory is no part of the cost, none is needed
          have hneeded := hupdates.needed
          rw [hnone] at hneeded
          obtain rfl : 0 = size := Option.some.inj (Except.ok.inj hneeded)
          obtain rfl : 0 = gas := Option.some.inj hupdates.growth
          exact ⟨charge, hdynamic, (Int.zero_add _).symm⟩
        · exact Gas.dynamic_growth hgrows (f := f.spent operation.constantGas size)
            hupdates.growth hdynamic
      exact ⟨op, operation, _, s₀, s₁, charge, free, hat, hcosting, hpay, hdynamic, hfree, hgas⟩
  · push Not at hat
    rw [bill?_of_not_isAt hat] at h
    cases h

/-- **Memory is paid for once.** Take a frame from where it starts, with empty memory, through any
run, and add up what its steps were billed for the growth of memory, which is what they paid for
it. The words that were paid for never become fewer; there is at least that much memory, and it is
never billed for less than it costs. As long as no instruction was given a negative offset or size
in memory, which cannot be where no number is negative to begin with, there is just that much
memory and it was billed for just what it costs, which depends on nothing but the highest word
that any step has asked for. -/
theorem memory_is_paid_for_once (ctx : Context) {m₀ m : Machine} {past : List Machine}
    (hmemory : m₀.top.memory = .empty) (hwords : m₀.top.activeWords = 0)
    (hmode : m₀.top.mode = .running) (h : Machine.Visits ctx m₀.waiting.length m₀ past m) :
    let n := m₀.waiting.length
    let f := m.frameAt n
    let bills := past.filterMap (Machine.bill? n)
    (∀ m₁ ∈ past, ∀ bill, m₁.bill? n = some bill → Step.Pays m₁.top m₁.state bill) ∧
    (∀ m₁ ∈ past, (m₁.frameAt n).activeWords ≤ f.activeWords) ∧
    32 * f.activeWords ≤ f.memory.size ∧
    3 * (f.activeWords : Int) + (f.activeWords : Int) ^ 2 / 512 ≤ (bills.map MemoryBill.gas).sum ∧
    ((∀ m₁ ∈ past, (m₁.frameAt n).NaturalRegions) →
      f.memory.size = 32 * f.activeWords ∧
      (bills.map MemoryBill.gas).sum = 3 * (f.activeWords : Int) + (f.activeWords : Int) ^ 2 / 512 ∧
      f.activeWords = (bills.map MemoryBill.words).foldr max 0) ∧
    (ctx.NonNegative → m₀.NonNegative → ∀ m₁ ∈ past, (m₁.frameAt n).NaturalRegions) := by
  intro n f bills
  have haccounted : Machine.Accounted n past m :=
    h.course le_rfl (Machine.accounted_start hmemory hwords hmode) fun _ => Machine.Turn.accounted
  have hcost : Gas.memoryCost f.activeWords =
      3 * (f.activeWords : Int) + (f.activeWords : Int) ^ 2 / 512 := by
    rw [Gas.memoryCost, mul_comm, pow_two]
    rfl
  refine ⟨fun m₁ _ bill hbill => ?_, haccounted.mono, haccounted.paidFor.held, ?_,
    fun hnatural => ?_, fun hctx hm₀ m₁ hm₁ => ?_⟩
  · rw [Machine.bill?] at hbill
    split at hbill
    · exact Step.pays_of_bill? hbill
    · cases hbill
  · exact hcost ▸ haccounted.paidFor.covered
  · obtain ⟨hpaid, -⟩ := haccounted.paidOnce hnatural
    exact ⟨hpaid.held, hpaid.settled.trans hcost, hpaid.highest⟩
  · exact (Frame.NonNegative.natural ((h.nonNegative hctx hm₀).2 m₁ hm₁).frameAt).naturalRegions

/-- Loading the word at 32 from empty memory is billed for two words. -/
theorem one_load_is_billed_for_two_words :
    let m₀ : Machine := .start
      { message :=
          { self := 1, caller := 2, codeAddress := 1, code := .ofBytes ⟨#[0x60, 0x20, 0x51]⟩ }
        gas := 100 } (.ofSource {})
    ∃ past m, Machine.Visits {} 0 m₀ past m ∧ (m.frameAt 0).memory.size = 64 ∧
      ((past.filterMap (Machine.bill? 0)).map MemoryBill.gas).sum = 6 := by
  intro m₀
  obtain ⟨past, m, h, htest⟩ : ∃ past m, Machine.Visits {} 0 m₀ past m ∧
      decide ((m.frameAt 0).activeWords = 2) = true :=
    Machine.Visits.refl.exists_of_holdsAfter (k := 2) (by decide +kernel)
  have hwords : (m.frameAt m₀.waiting.length).activeWords = 2 := of_decide_eq_true htest
  -- no number of an empty source or of a fresh frame is negative
  have hm₀ : m₀.NonNegative :=
    Machine.start_empty_nonNegative (.of_fresh (by decide) le_rfl rfl rfl rfl)
  obtain ⟨-, -, -, -, hexact, hnatural⟩ := @memory_is_paid_for_once {} m₀ m past rfl rfl rfl h
  obtain ⟨hsize, hsum, -⟩ := hexact (hnatural Context.nonNegative_default hm₀)
  rw [hwords] at hsize hsum
  exact ⟨past, m, h, hsize, hsum⟩

/-- Storing a word at offset -1 gives 64 bytes of memory for the price of 32. -/
theorem negative_offset_adds_unpaid_memory :
    let ctx : Context := { block := { number := -1 } }
    let m₀ : Machine := .start
      { message :=
          { self := 1, caller := 2, codeAddress := 1, code := .ofBytes ⟨#[0x60, 1, 0x43, 0x52]⟩ }
        gas := 100 } (.ofSource {})
    ∃ past m, Machine.Visits ctx 0 m₀ past m ∧ (m.frameAt 0).memory.size = 64 ∧
      (m.frameAt 0).activeWords = 1 ∧
      ((past.filterMap (Machine.bill? 0)).map MemoryBill.gas).sum = 3 := by
  intro ctx m₀
  obtain ⟨past, m, h, htest⟩ : ∃ past m, Machine.Visits ctx 0 m₀ past m ∧
      decide ((m.frameAt 0).memory.size = 64 ∧ (m.frameAt 0).activeWords = 1 ∧
        ((past.filterMap (Machine.bill? 0)).map MemoryBill.gas).sum = 3) = true :=
    Machine.Visits.refl.exists_of_holdsAfter (k := 3) (by decide +kernel)
  exact ⟨past, m, h, of_decide_eq_true htest⟩

end EvmCore
