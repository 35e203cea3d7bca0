import EvmCore.Proofs.FailedTransaction
import EvmCore.Proofs.Recursion
import EvmCore.Proofs.Surcharge
import Mathlib

/-!
# What is warm stays warm

The sets of accessed accounts and slots are the one part of the state that no checkpoint covers:
they grow with every iteration of the machine, whether a frame is entered, kept or undone
(`Machine.iterate_warms`).

A step is charged for a cold place when its charge is another than if the place were warm
(`Frame.PaysForCold`). That is decided while the cost of the step is found, before anything is
paid, and in the same breath the place is warmed. So a step that pays for a place finds it
cold and leaves it warm, even if it cannot pay and its frame is undone, and along a
transaction no place is paid for twice.
-/

namespace EvmCore

/-! ### Growth -/

namespace State

variable {s s' s₁ s₂ s₃ : State}

/-- All that is warm in one state is warm in the other. -/
def Warms (s s' : State) : Prop := ∀ place, s.Warm place → s'.Warm place

theorem Warms.refl (s : State) : s.Warms s := fun _ => id

theorem Warms.trans (h : s₁.Warms s₂) (h' : s₂.Warms s₃) : s₁.Warms s₃ :=
  fun place hplace => h' place (h place hplace)

/-- What is warm depends on the substate alone. -/
theorem Warms.of_eq (h : s'.substate = s.substate) : s.Warms s' := by
  intro place hplace
  cases place with
  | account a =>
    rw [Warm, h]
    exact hplace
  | slot slot =>
    rw [Warm, h]
    exact hplace

/-- Undoing an entry neither warms nor cools. -/
theorem undo_warm_iff (s : State) (u : Undo) (place : Place) :
    (s.undo u).Warm place ↔ s.Warm place := by
  -- the journal has no entry for what was accessed
  cases u <;> cases place <;> exact Iff.rfl

/-- Undoing any number of entries does neither. -/
theorem undoAll_warm_iff (s : State) (entries : List Undo) (place : Place) :
    (entries.foldl State.undo s).Warm place ↔ s.Warm place := by
  induction entries generalizing s with
  | nil => exact Iff.rfl
  | cons u entries ih => exact (ih (s.undo u)).trans (s.undo_warm_iff u place)

/-- A commit neither warms nor cools. -/
theorem commit_warm_iff (h : State.commit s = .ok () s') (place : Place) :
    s'.Warm place ↔ s.Warm place := by
  rw [commit, get_bind] at h
  cases hjournal : s.journal.commit? with
  | none =>
    rw [hjournal] at h
    cases h
  | some journal =>
    rw [hjournal] at h
    cases h
    cases place <;> exact Iff.rfl

/-- A revert neither warms nor cools. -/
theorem revert_warm_iff (h : State.revert s = .ok () s') (place : Place) :
    s'.Warm place ↔ s.Warm place := by
  rw [revert, get_bind] at h
  cases hjournal : s.journal.revert? with
  | none =>
    rw [hjournal] at h
    cases h
  | some closed =>
    rw [hjournal] at h
    cases h
    refine (undoAll_warm_iff _ _ place).trans ?_
    cases place <;> exact Iff.rfl

end State

/-- What is retained includes what is warm. -/
theorem Retains.warms {s s' : State} (h : Retains s s') : s.Warms s' := fun _ => h.warm

/-- A step cools nothing. -/
theorem Steps.warms {ctx : Context} {f f' : Frame} {s s' : State} (h : Steps ctx f s f' s') :
    s.Warms s' := by
  rcases h.quiet_or_writes with hquiet | ⟨-, hgrows, -⟩
  · exact hquiet.toRetains.warms
  · exact hgrows.toRetains.warms

/-- Beginning what a frame requests cools nothing. -/
theorem Begins.warms {ctx : Context} {f f' : Frame} {s s' : State} {start : Start}
    (h : Begins ctx f s f' start s') : s.Warms s' := by
  cases start with
  | done o => exact (h.moves_of_done (AnyChange.respects f s.view)).toRetains.warms
  | frame child =>
    obtain ⟨c, -, hbefore, hafter⟩ := h.opens (AnyChange.respects f s.view)
    exact ((hbefore.toRetains.trans c.opened_retains).trans hafter.toRetains).warms

/-- Leaving a frame cools nothing. -/
theorem Leaves.warms {f : Frame} {s s' : State} {o : Outcome} (h : Leaves f s o s') :
    s.Warms s' := by
  -- whether the layer is kept or undone makes no difference
  have hcommitted {s₀ s₁ : State} (hcommit : State.commit s₀ = .ok () s₁) (hquiet : Quiet s₁ s') :
      s₀.Warms s' :=
    fun place hplace => hquiet.toRetains.warm ((State.commit_warm_iff hcommit place).mpr hplace)
  have hreverted {s₁ : State} (hrevert : State.revert s = .ok () s₁) (hquiet : Quiet s₁ s') :
      s.Warms s' :=
    fun place hplace => hquiet.toRetains.warm ((State.revert_warm_iff hrevert place).mpr hplace)
  cases h with
  | halted _ _ hcommit hquiet => exact hcommitted hcommit hquiet
  | deployed _ _ _ hgrows _ hcommit hquiet =>
    exact hgrows.toRetains.warms.trans (hcommitted hcommit hquiet)
  | undeployable _ _ _ hrevert hquiet => exact hreverted hrevert hquiet
  | reverted _ hrevert hquiet => exact hreverted hrevert hquiet
  | failed _ hrevert hquiet => exact hreverted hrevert hquiet

/-- **An iteration cools nothing**, of whatever machine. -/
theorem Machine.iterate_warms {ctx : Context} {m m' : Machine} {o? : Option Outcome}
    (h : m.iterate ctx = .ok o? m') : m.state.Warms m'.state := by
  -- an iteration within the machine is one of four kinds, and another one ends the outermost frame
  obtain ⟨-, hiterates⟩ | ⟨o, -, -, hleaves⟩ := iterate_cases h
  · cases hiterates with
    | step _ hsteps => exact hsteps.warms
    | push hbegins => exact hbegins.warms
    | resume hbegins _ => exact hbegins.warms
    | pop hleaves _ => exact hleaves.warms
  · exact hleaves.warms

/-! ### Paying for a cold place -/

namespace Step

variable {ctx : Context} {f f₀ f' : Frame} {s s₀ s₁ s' : State} {op : Opcode}
  {operation : Operation}

/-- The phases up to where the dynamic cost is found. -/
def costing (op : Opcode) (operation : Operation) : StepM Unit := do
  recordStep op
  checkStack operation
  checkReadOnly op operation
  useGas operation.constantGas
  findMemorySize operation

/-- The phases of a step, cut where its dynamic cost is found. -/
theorem phases_eq_costing (h : f.IsAt op operation) : phases ctx ⟨f, s⟩ =
    (costing op operation >>= fun _ => payDynamic operation >>= fun forwarded =>
      growMemory >>= fun _ => run ctx forwarded op) ⟨f, s⟩ := by
  rw [phases_of_isAt h]
  simp only [costing, paying, bind_assoc]

/-- Up to there a step only looks. -/
theorem costing_quiet (h : costing op operation ⟨f, s⟩ = .ok () ⟨f₀, s₀⟩) : Quiet s s₀ := by
  obtain ⟨_, a₁, hrecord, h⟩ := bind_ok_iff.mp h
  obtain ⟨s₁, hquiet, rfl⟩ := recordStep_ok hrecord
  obtain ⟨_, a₂, hstack, h⟩ := bind_ok_iff.mp h
  obtain ⟨-, -, rfl⟩ := checkStack_ok hstack
  obtain ⟨_, a₃, hread, h⟩ := bind_ok_iff.mp h
  obtain ⟨-, rfl⟩ := checkReadOnly_ok hread
  obtain ⟨_, a₄, hgas, h⟩ := bind_ok_iff.mp h
  obtain ⟨-, rfl⟩ := useGas_ok_iff.mp hgas
  obtain ⟨size, -, hactivation⟩ := findMemorySize_ok h
  cases hactivation
  exact hquiet

/-- Once the dynamic cost was found it is paid, or the frame runs out of gas. -/
theorem payDynamic_of_dynamic {charge? : Option Gas.Charge}
    (h : Gas.dynamic operation.dynamic f f.memoryDesired s = .ok charge? s₁) :
    (∃ charge : Gas.Charge, payDynamic operation ⟨f, s⟩ =
      .ok charge.forwarded ⟨{ f with gas := f.gas - charge.gas }, s₁⟩) ∨
    payDynamic operation ⟨f, s⟩ = .error (.failure .outOfGas) ⟨f, s₁⟩ := by
  cases hpay : payDynamic operation ⟨f, s⟩ with
  | ok forwarded a =>
    obtain ⟨charge, s₂, hdynamic, -, rfl, rfl⟩ := payDynamic_ok hpay
    -- finding the cost is deterministic, so this is the charge that was found
    cases hdynamic.symm.trans h
    exact .inl ⟨charge, rfl⟩
  | error e a =>
    rw [payDynamic, getFrame_bind] at hpay
    rcases bind_error_iff.mp hpay with hlift | ⟨charge', a₁, hlift, hpay⟩
    · -- finding the cost did not fail, so it is the payment that did
      cases hlift.symm.trans (liftAction_ok_iff.mpr ⟨s₁, h, rfl⟩)
    · obtain ⟨s₂, hdynamic, rfl⟩ := liftAction_ok_iff.mp hlift
      cases hdynamic.symm.trans h
      cases charge? with
      | none =>
        obtain ⟨rfl, rfl⟩ := throw_error_iff.mp hpay
        exact .inr rfl
      | some charge =>
        rcases bind_error_iff.mp hpay with hgas | ⟨_, a₂, -, hpure⟩
        · by_cases hle : charge.gas ≤ f.gas
          · cases hgas.symm.trans (useGas_of_le hle)
          · cases hgas.symm.trans (useGas_of_lt (not_le.mp hle))
            exact .inr rfl
        · exact absurd hpure pure_ne_error

/-- A step, once its dynamic cost was found, keeps what that has warmed, whether or not it can be
paid and whether or not the instruction succeeds. -/
theorem warms_of_dynamic {charge? : Option Gas.Charge} {u : Unit} (hat : f.IsAt op operation)
    (hcosting : costing op operation ⟨f, s⟩ = .ok () ⟨f₀, s₀⟩)
    (hdynamic : Gas.dynamic operation.dynamic f₀ f₀.memoryDesired s₀ = .ok charge? s₁)
    (h : step ctx ⟨f, s⟩ = .ok u ⟨f', s'⟩) : s₁.Warms s' := by
  rw [step, phases_eq_costing hat, bind_of_ok hcosting] at h
  rcases payDynamic_of_dynamic hdynamic with ⟨charge, hpay⟩ | hpay
  · -- The cost is paid. An instruction that fails has not touched the state,
    -- one that succeeds adds to it.
    rw [bind_of_ok hpay] at h
    obtain hgrow | ⟨e, hgrow⟩ := growMemory_cases { f₀ with gas := f₀.gas - charge.gas } s₁
    swap
    · rw [bind_error_iff.mpr (.inl hgrow)] at h
      cases h
    rw [bind_of_ok hgrow] at h
    cases hrun : run ctx charge.forwarded op
      ⟨Frame.grown { f₀ with gas := f₀.gas - charge.gas }, s₁⟩ with
    | ok u a =>
      rw [hrun] at h
      cases h
      rcases (executes_of_run hrun).quiet_or_writes hat.operation? with hquiet | ⟨-, hgrows, -⟩
      · exact hquiet.toRetains.warms
      · exact hgrows.toRetains.warms
    | error stop a =>
      rw [hrun] at h
      cases stop with
      | fault e => cases h
      | failure e =>
        obtain rfl : a.state = s₁ := (run_fails ctx _ op hrun).state
        cases h
        exact State.Warms.refl _
  · -- The frame runs out of gas, in the state that finding the cost has left.
    rw [bind_error_iff.mpr (.inl hpay)] at h
    cases h
    exact State.Warms.refl s₁

end Step

namespace Frame

variable {ctx : Context} {f f' : Frame} {s s' : State} {op : Opcode} {place : Place}

/-- What the next step of a frame is charged beside the constant cost of its instruction `op`, and
what it would be charged if `place` were warm; nothing stands for more than any amount of gas. -/
def Charged (f : Frame) (s : State) (op : Opcode) (place : Place)
    (charge? warm? : Option Gas.Charge) : Prop :=
  ∃ operation f₀ s₀ s₁ s₂, f.IsAt op operation ∧
    Step.costing op operation ⟨f, s⟩ = .ok () ⟨f₀, s₀⟩ ∧
    Gas.dynamic operation.dynamic f₀ f₀.memoryDesired s₀ = .ok charge? s₁ ∧
    Gas.dynamic operation.dynamic f₀ f₀.memoryDesired (s₀.warmed place) = .ok warm? s₂

/-- The next step of a frame is charged for `place` being cold. -/
def PaysForCold (f : Frame) (s : State) (place : Place) : Prop :=
  ∃ op charge? warm?, f.Charged s op place charge? warm? ∧ charge? ≠ warm?

/-- A charge that depends on a place is dearer by what a cold place costs, and
finding it warms the place. -/
theorem Charged.dearer {charge? warm? : Option Gas.Charge} (h : f.Charged s op place charge? warm?)
    (hne : charge? ≠ warm?) : ∃ operation f₀ s₀ s₁, f.IsAt op operation ∧
      Step.costing op operation ⟨f, s⟩ = .ok () ⟨f₀, s₀⟩ ∧
      Gas.dynamic operation.dynamic f₀ f₀.memoryDesired s₀ = .ok charge? s₁ ∧
      operation.dynamic.Dearer place charge? warm? ∧ s₁.Warm place := by
  obtain ⟨operation, f₀, s₀, s₁, s₂, hat, hcosting, hcold, hwarm⟩ := h
  -- the cost found with the place cold and with it warm are compared in one statement
  have hheeds := Gas.dynamic_heeds operation.dynamic f₀ f₀.memoryDesired place s₀
  rw [hcold, hwarm] at hheeds
  rcases hheeds with ⟨hsame, -⟩ | ⟨hdearer, -, hwarmed⟩
  · exact absurd hsame.symm hne
  · exact ⟨operation, f₀, s₀, s₁, hat, hcosting, hcold, hdearer, hwarmed⟩

/-- What is paid for as cold is cold. -/
theorem PaysForCold.cold (h : f.PaysForCold s place) : ¬s.Warm place := by
  intro hwarm
  obtain ⟨op, charge?, warm?, ⟨operation, f₀, s₀, s₁, s₂, -, hcosting, hcold, hheated⟩, hne⟩ := h
  -- to a state in which the place is warm, warming it makes no difference, and
  -- so neither to the charge
  have hsame : s₀.warmed place = s₀ :=
    State.warmed_of_warm ((Step.costing_quiet hcosting).toRetains.warm hwarm)
  rw [hsame, hcold] at hheated
  cases hheated
  exact hne rfl

/-- What is paid for as cold is warm after the step. -/
theorem PaysForCold.warm {u : Unit} (h : f.PaysForCold s place)
    (hstep : step ctx ⟨f, s⟩ = .ok u ⟨f', s'⟩) :
    s'.Warm place := by
  obtain ⟨op, charge?, warm?, hcharged, hne⟩ := h
  obtain ⟨operation, f₀, s₀, s₁, hat, hcosting, hdynamic, -, hwarm⟩ := hcharged.dearer hne
  exact Step.warms_of_dynamic hat hcosting hdynamic hstep place hwarm

end Frame

/-- One instruction has the cost of self-destruction, one that of loading a slot,
and one that of storing to it. -/
theorem Opcode.of_dynamic {op : Opcode} {operation : Operation}
    (h : op.operation? = some operation) :
    (operation.dynamic = .selfDestruct ↔ op = .selfDestruct) ∧
    (operation.dynamic = .storageLoad ↔ op = .storageLoad) ∧
    (operation.dynamic = .storageStore ↔ op = .storageStore) := by
  -- by the entry that each opcode has in the table
  cases op with
  | binary op => cases op <;> cases h <;> simp
  | create kind => cases kind <;> cases h <;> simp
  | call kind => cases kind <;> cases h <;> simp
  | _ => cases h <;> simp

/-- What an instruction is charged more for a cold place. -/
def Opcode.Surcharges (op : Opcode) (cold warm : Gas.Charge) : Place → Prop
  | .account _ => cold.own = warm.own + if op = .selfDestruct then 2600 else 2500
  | .slot _ => op = .storageLoad ∧ cold.own = 2100 ∧ warm.own = 100 ∨
      op = .storageStore ∧ cold.own = warm.own + 2100

/-- **What a cold place costs**, by instruction. -/
theorem Frame.Charged.surcharges {f : Frame} {s : State} {op : Opcode} {place : Place}
    {cold : Gas.Charge} {warm? : Option Gas.Charge} (h : f.Charged s op place (some cold) warm?)
    (hne : some cold ≠ warm?) :
    ∃ warm, warm? = some warm ∧ op.Surcharges cold warm place := by
  obtain ⟨operation, f₀, s₀, s₁, hat, -, -, hdearer, -⟩ := h.dearer hne
  obtain ⟨hself, hload, hstore⟩ := Opcode.of_dynamic hat.operation?
  cases place with
  | account a =>
    obtain ⟨warm, hwarm, hamount⟩ := hdearer cold rfl
    refine ⟨warm, hwarm, hamount.trans ?_⟩
    simp only [hself]
    rfl
  | slot slot =>
    rcases hdearer with ⟨hcost, hcold, hwarm⟩ | ⟨hcost, hstored⟩
    · cases hcold
      exact ⟨_, hwarm, .inl ⟨hload.mp hcost, rfl, rfl⟩⟩
    · obtain ⟨warm, hwarm, hamount⟩ := hstored cold rfl
      exact ⟨warm, hwarm, .inr ⟨hstore.mp hcost, hamount⟩⟩

/-! ### Along a transaction -/

namespace Transaction

variable {tx : Transaction} {block : Block} {precompiles : Std.ExtTreeMap Address Precompile}
  {s₀ s s' : State} {source : Source} {m m' : Machine} {place : Place} {i j n : Nat}

/-- A point at which the machine runs has one before it, unless it is the first. -/
theorem runningAt_succ (h : tx.runningAt block precompiles s₀ (n + 1) = some m') :
    ∃ m, tx.runningAt block precompiles s₀ n = some m ∧
      m.iterate (tx.context block precompiles) = .ok none m' := by
  rw [runningAt] at h
  split at h
  · next m₁ hiterate =>
    obtain rfl := Option.some.inj h
    exact Option.map_eq_some_iff.mp hiterate
  · cases h

/-- All points before it are points at which the machine runs. -/
theorem exists_runningAt_of_le (hij : i ≤ j) (hj : tx.runningAt block precompiles s₀ j = some m') :
    ∃ m, tx.runningAt block precompiles s₀ i = some m := by
  induction hij generalizing m' with
  | refl => exact ⟨m', hj⟩
  | step _ ih =>
    obtain ⟨m, hm, -⟩ := runningAt_succ hj
    exact ih hm

/-- Along a transaction nothing cools down. -/
theorem runningAt_warms (hij : i ≤ j) (hi : tx.runningAt block precompiles s₀ i = some m)
    (hj : tx.runningAt block precompiles s₀ j = some m') : m.state.Warms m'.state := by
  -- by induction on the iterations in between
  induction hij generalizing m' with
  | refl =>
    cases hi.symm.trans hj
    exact State.Warms.refl _
  | step _ ih =>
    obtain ⟨m₁, hm₁, hiterate⟩ := runningAt_succ hj
    exact (ih hm₁).trans (Machine.iterate_warms hiterate)

/-- The iteration `i` of a transaction is a step that is charged for a cold place. -/
def PaysForCold (tx : Transaction) (block : Block) (precompiles : Std.ExtTreeMap Address Precompile)
    (source : Source) (place : Place) (i : Nat) : Prop :=
  ∃ m, tx.runningAt block precompiles (.ofSource source) i = some m ∧ m.top.mode = .running ∧
    m.top.PaysForCold m.state place

/-- Once a place is paid for, it is not paid for again. -/
theorem PaysForCold.not_of_lt (h : tx.PaysForCold block precompiles source place i) (hij : i < j) :
    ¬tx.PaysForCold block precompiles source place j := by
  obtain ⟨m, hm, hmode, hpays⟩ := h
  rintro ⟨m', hm', -, hpays'⟩
  -- the step after `i` exists, since there is one after `j`
  obtain ⟨m₁, hm₁⟩ := exists_runningAt_of_le hij hm'
  obtain ⟨m₂, hm₂, hiterate⟩ := runningAt_succ hm₁
  cases hm.symm.trans hm₂
  obtain ⟨_, m₃, htop, hpure⟩ :=
    bind_ok_iff.mp ((Machine.iterate_of_running hmode).symm.trans hiterate)
  obtain ⟨-, rfl⟩ := pure_ok_iff.mp hpure
  obtain ⟨f', s', hstep, rfl⟩ := Machine.withTop_ok_iff.mp htop
  -- The place is warm right after the step that pays for it, and so it is when
  -- the other step finds it.
  exact hpays'.cold (runningAt_warms hij hm₁ hm' place (hpays.warm hstep))

/-! ### What a transaction warms before its first step -/

/-- What is warm from the start. -/
def Prewarmed (tx : Transaction) (precompiles : Std.ExtTreeMap Address Precompile) : Place → Prop
  | .account a => a = tx.sender ∨ tx.recipient = some a ∨
      (tx.recipient = none ∧ Creation.addressAt tx.sender tx.nonce = .ok a) ∨
      a ∈ precompiles ∨ ∃ entry ∈ tx.accessList, entry.address = a
  | .slot slot => ∃ entry ∈ tx.accessList, entry.address = slot.address ∧ slot.key ∈ entry.keys

/-- What is visited is warm. -/
theorem warm_of_visit (place : Place) {u : Unit} (h : discard place.visit s = .ok u s') :
    s'.Warm place := by
  rw [discard_eq] at h
  obtain ⟨warm, s₁, hvisit, hpure⟩ := bind_ok_iff.mp h
  obtain ⟨_, hvisited, -⟩ := place.visit_ok s
  cases hvisit.symm.trans hvisited
  obtain ⟨-, rfl⟩ := pure_ok_iff.mp hpure
  exact s.warm_warmed place

/-- Where each of a list of computations only looks, what one of them warms is warm in the end. -/
theorem warm_of_forM {β : Type} {f : β → Action PUnit} {l : List β} {b : β} {u : PUnit}
    (hquiet : ∀ b, Keeps Quiet (f b)) (hb : b ∈ l)
    (hwarm : ∀ {s s' : State} {u : PUnit}, f b s = .ok u s' → s'.Warm place)
    (h : l.forM f s = .ok u s') : s'.Warm place := by
  induction l generalizing s with
  | nil => cases hb
  | cons c l ih =>
    obtain ⟨_, s₁, hfirst, hrest⟩ := bind_ok_iff.mp h
    rcases List.mem_cons.mp hb with rfl | hb
    · -- what follows only adds to what is warm
      exact (Keeps.forM hquiet hrest).toRetains.warm (hwarm hfirst)
    · exact ih hb hrest

/-- One entry of the access list is warmed. -/
theorem accessEntry_quiet (entry : AccessEntry) : Keeps Quiet (do
    discard (Substate.warmAccount entry.address)
    entry.keys.forM fun key => discard (Substate.warmSlot ⟨entry.address, key⟩)) :=
  (Substate.warmAccount_quiet _).discard.bind fun _ =>
    .forM fun _ => (Substate.warmSlot_quiet _).discard

/-- The sender, the precompiles and the access list are warmed up. -/
theorem warm_of_warmUp {ctx : Context} {u : Unit} (h : tx.warmUp ctx s = .ok u s')
    (hplace : place = .account tx.sender ∨ (∃ a ∈ ctx.precompiles, place = .account a) ∨
      ∃ entry ∈ tx.accessList, place = .account entry.address ∨
        ∃ key ∈ entry.keys, place = .slot ⟨entry.address, key⟩) : s'.Warm place := by
  obtain ⟨_, s₁, hsender, h⟩ := bind_ok_iff.mp h
  obtain ⟨_, s₂, hprecompiles, hentries⟩ := bind_ok_iff.mp h
  have hquiet₂ := Keeps.forM (fun a => (Substate.warmAccount_quiet a).discard) hprecompiles
  have hquiet₃ := Keeps.forM accessEntry_quiet hentries
  -- each place is warmed by one of three parts, and those that follow only look
  rcases hplace with rfl | ⟨a, ha, rfl⟩ | ⟨entry, hentry, hplace⟩
  · have hwarm : s₁.Warm (.account tx.sender) := warm_of_visit _ hsender
    exact (hquiet₂.toRetains.trans hquiet₃.toRetains).warm hwarm
  · refine hquiet₃.toRetains.warm (warm_of_forM (fun a => (Substate.warmAccount_quiet a).discard)
      (Std.ExtTreeMap.mem_keys.mpr ha) ?_ hprecompiles)
    exact fun hvisit => warm_of_visit (.account a) hvisit
  · refine warm_of_forM accessEntry_quiet hentry (fun hvisit => ?_) hentries
    obtain ⟨_, s₄, haccount, hkeys⟩ := bind_ok_iff.mp hvisit
    have hquiet := Keeps.forM
      (fun key => (Substate.warmSlot_quiet ⟨entry.address, key⟩).discard) hkeys
    rcases hplace with rfl | ⟨key, hkey, rfl⟩
    · have hwarm : s₄.Warm (.account entry.address) := warm_of_visit _ haccount
      exact hquiet.toRetains.warm hwarm
    · refine warm_of_forM (fun key => (Substate.warmSlot_quiet ⟨entry.address, key⟩).discard)
        hkey ?_ hkeys
      exact fun hvisit => warm_of_visit (.slot ⟨entry.address, key⟩) hvisit

/-- Starting a transaction warms the account that is called or created. -/
theorem warm_of_start {ctx : Context} {entry : Frame} {a : Address}
    (h : tx.start ctx s = .ok (.frame entry) s') (ha : tx.recipient = some a ∨
      tx.recipient = none ∧ Creation.addressAt tx.sender tx.nonce = .ok a) :
    s'.Warm (.account a) := by
  rw [start] at h
  rcases ha with hrecipient | ⟨hrecipient, haddress⟩
  · rw [hrecipient] at h
    obtain ⟨_, s₁, -, h⟩ := bind_ok_iff.mp h
    obtain ⟨_, s₂, hvisit, h⟩ := bind_ok_iff.mp h
    have hwarm : s₂.Warm (.account a) := warm_of_visit _ hvisit
    -- the call opens a checkpoint and enters its frame, neither of which cools anything
    obtain ⟨c, -, hbefore, hafter⟩ := (Call.starts_of_start h).opens (AnyChange.respected.call _ _)
    exact ((hbefore.toRetains.trans c.opened_retains).trans hafter.toRetains).warm hwarm
  · rw [hrecipient] at h
    obtain ⟨address, s₁, haddress', h⟩ := bind_ok_iff.mp h
    obtain ⟨hlift, rfl⟩ := Action.liftExcept_ok_iff.mp haddress'
    cases haddress.symm.trans hlift
    obtain ⟨_, s₂, hvisit, h⟩ := bind_ok_iff.mp h
    have hwarm : s₂.Warm (.account a) := warm_of_visit _ hvisit
    obtain ⟨c, -, hbefore, hafter⟩ :=
      (Creation.starts_of_start h).opens (AnyChange.respected.creation _ _)
    exact ((hbefore.toRetains.trans c.opened_retains).trans hafter.toRetains).warm hwarm

/-- Starting a transaction cools nothing. -/
theorem start_warms {ctx : Context} {entry : Frame} (h : tx.start ctx s = .ok (.frame entry) s') :
    s.Warms s' := by
  obtain ⟨c, hbefore, hafter⟩ :=
    start_frame_moves AnyChange.respected.creation AnyChange.respected.call h
  exact ((hbefore.toRetains.trans c.opened_retains).trans hafter.toRetains).warms

/-- What a transaction warms at its start is warm at every point at which the machine runs. -/
theorem Passes.warm_of_prewarmed (h : Passes tx block precompiles s₀ (.running m) s)
    (hplace : tx.Prewarmed precompiles place) : m.state.Warm place := by
  refine (h.running_induction (P := fun m => m.state.Warm place) (fun hwarmed hstart => ?_)
    fun _ hm hiterate => Machine.iterate_warms hiterate place hm).1
  -- the target is warmed at the start, all else before it
  cases hwarmed with
  | warm _ hwarmUp =>
    cases place with
    | account a =>
      rcases hplace with rfl | hrecipient | hcreated | hprecompile | ⟨entry, hentry, rfl⟩
      · exact start_warms hstart _ (warm_of_warmUp hwarmUp (.inl rfl))
      · exact warm_of_start hstart (.inl hrecipient)
      · exact warm_of_start hstart (.inr hcreated)
      · exact start_warms hstart _ (warm_of_warmUp hwarmUp (.inr (.inl ⟨a, hprecompile, rfl⟩)))
      · exact start_warms hstart _ (warm_of_warmUp hwarmUp (.inr (.inr ⟨entry, hentry, .inl rfl⟩)))
    | slot slot =>
      obtain ⟨entry, hentry, haddress, hkey⟩ := hplace
      have hslot : Place.slot slot = .slot ⟨entry.address, slot.key⟩ := by rw [haddress]
      exact start_warms hstart _
        (warm_of_warmUp hwarmUp (.inr (.inr ⟨entry, hentry, .inr ⟨slot.key, hkey, hslot⟩⟩)))

/-! ### To the end of a transaction -/

/-- The first point is where the machine is started. -/
theorem Passes.runningAt_zero {start : Start} (h : Passes tx block precompiles s₀ .warmed s)
    (hstart : tx.start (tx.context block precompiles) s = .ok start s') :
    tx.runningAt block precompiles s₀ 0 = start.machine? s' := by
  cases h with
  | warm hbought hwarmUp =>
    cases hbought with
    | buy hvalidated hbuy =>
      cases hvalidated with
      | validate hbegun hvalidate =>
        cases hbegun
        rw [runningAt, bind_of_ok hvalidate, bind_of_ok hbuy, bind_of_ok hwarmUp, hstart]
        cases start with
        | frame entry => rfl
        | done o => rfl

/-- Every point at which the machine runs has a number. -/
theorem Passes.exists_runningAt (h : Passes tx block precompiles s₀ (.running m) s) :
    ∃ n, tx.runningAt block precompiles s₀ n = some m := by
  refine (h.running_induction (P := fun m => ∃ n, tx.runningAt block precompiles s₀ n = some m)
    (fun hwarmed hstart => ⟨0, hwarmed.runningAt_zero hstart⟩) ?_).1
  rintro m m' - ⟨n, hn⟩ hiterate
  -- the numbering goes on as long as the machine iterates
  have hnext : (some m).map (Machine.iterate (tx.context block precompiles)) = some (.ok none m') :=
    congrArg some hiterate
  exact ⟨n + 1, by rw [runningAt, hn, hnext]⟩

/-- Settling a transaction cools nothing. -/
theorem Settles.warms {o : Outcome} {r : Receipt} (h : Settles tx block o s r s') : s.Warms s' := by
  obtain ⟨s₁, s₂, hgrows, -, hremove, -, -, hsubstate, -⟩ := h.exists_removed
  have hremoved : Retains s s₂ := hgrows.toRetains.trans (removeAccounts_moves hremove).2.toRetains
  -- writing back is all that changes the source, and it leaves the substate alone
  exact hremoved.warms.trans (.of_eq hsubstate)

/-- What is warm at some point of a transaction that is applied is warm in the end. -/
theorem apply_warms {r : Receipt} (hi : tx.runningAt block precompiles s₀ i = some m)
    (h : tx.apply block precompiles s₀ = .ok r s') : m.state.Warms s' := by
  obtain ⟨o, s, hended, hsettle⟩ := exists_ended_of_apply h
  refine State.Warms.trans ?_ (settles_of_settle hsettle).warms
  cases hended with
  | skip hwarmed hstart =>
    -- the transaction came to nothing at once, and there was no point at which the machine ran
    obtain ⟨m₀, hm₀⟩ := exists_runningAt_of_le (Nat.zero_le i) hi
    cases (hwarmed.runningAt_zero hstart).symm.trans hm₀
  | finish hrunning hiterate =>
    obtain ⟨n, hn⟩ := hrunning.exists_runningAt
    -- the iteration that ends the outermost frame has no successor
    have hlast : i ≤ n := by
      by_contra hlt
      obtain ⟨m₁, hm₁⟩ := exists_runningAt_of_le (not_le.mp hlt) hi
      obtain ⟨m₂, hm₂, hnext⟩ := runningAt_succ hm₁
      cases hn.symm.trans hm₂
      cases hnext.symm.trans hiterate
    exact (runningAt_warms hlast hi hn).trans (Machine.iterate_warms hiterate)

/-- **Warming is permanent and charged once.** No iteration, commit or revert cools anything, at no
point of a transaction up to its end. For each account and each slot at most one step of a
transaction is charged for it being cold, and none if it was warm from the start; what that step is
charged more is the price of a cold account or slot. -/
theorem cold_place_is_charged_once (tx : Transaction) (block : Block)
    (precompiles : Std.ExtTreeMap Address Precompile) (source : Source) :
    (∀ ctx m m' o?, Machine.iterate ctx m = .ok o? m' → m.state.Warms m'.state) ∧
    (∀ s s', State.commit s = .ok () s' ∨ State.revert s = .ok () s' →
      ∀ place, s'.Warm place ↔ s.Warm place) ∧
    (∀ i j m m', i ≤ j → tx.runningAt block precompiles (.ofSource source) i = some m →
      tx.runningAt block precompiles (.ofSource source) j = some m' → m.state.Warms m'.state) ∧
    (∀ i m r s', tx.runningAt block precompiles (.ofSource source) i = some m →
      tx.apply block precompiles (.ofSource source) = .ok r s' → m.state.Warms s') ∧
    (∀ place i j, tx.PaysForCold block precompiles source place i →
      tx.PaysForCold block precompiles source place j → i = j) ∧
    (∀ place i, tx.Prewarmed precompiles place → ¬tx.PaysForCold block precompiles source place i) ∧
    (∀ f s op place cold warm?, Frame.Charged f s op place (some cold) warm? → some cold ≠ warm? →
      ∃ warm, warm? = some warm ∧ op.Surcharges cold warm place) := by
  refine ⟨fun _ _ _ _ => Machine.iterate_warms, ?_, fun _ _ _ _ => runningAt_warms,
    fun _ _ _ _ => apply_warms, ?_, ?_, fun _ _ _ _ _ _ => Frame.Charged.surcharges⟩
  · rintro s s' (hcommit | hrevert)
    · exact State.commit_warm_iff hcommit
    · exact State.revert_warm_iff hrevert
  · intro place i j hi hj
    rcases lt_trichotomy i j with hlt | heq | hlt
    · exact absurd hj (hi.not_of_lt hlt)
    · exact heq
    · exact absurd hi (hj.not_of_lt hlt)
  · rintro place i hplace ⟨m, hm, -, hpays⟩
    exact hpays.cold ((passes_of_runningAt hm).warm_of_prewarmed hplace)

/-- A contract calls another, which looks up a balance and reverts, and then looks up the same
balance: the first look is charged 2500 more than for a warm account, the second is not, though
nothing else is left of the first. -/
theorem balance_looked_up_in_reverted_frame_is_warm :
    let source : Source :=
      { accounts :=
          (((∅ : Std.ExtTreeMap Address Account).insert 1 { balance := 10000000 }).insert 2
          { code := ⟨#[0x60, 0, 0x60, 0, 0x60, 0, 0x60, 0, 0x60, 0, 0x60, 3, 0x5a, 0xf1, 0x50,
              0x60, 5, 0x31, 0]⟩ }).insert 3
          { code := ⟨#[0x60, 5, 0x31, 0x60, 0, 0x60, 0, 0xfd]⟩ } }
    let tx : Transaction :=
      { sender := 1, nonce := 0, gasLimit := 200000, recipient := some 2, gasPrice := 1 }
    tx.PaysForCold {} ∅ source (.account 5) 10 ∧
    (∃ m cold warm, tx.runningAt {} ∅ (.ofSource source) 10 = some m ∧
      m.top.Charged m.state (.account .balance) (.account 5) (some cold) (some warm) ∧
      cold.own = warm.own + 2500) ∧
    (∃ m, tx.runningAt {} ∅ (.ofSource source) 14 = some m ∧ m.top.mode = .exited .reverted) ∧
    (∃ m, tx.runningAt {} ∅ (.ofSource source) 17 = some m ∧ m.top.mode = .running ∧
      m.top.stack = [5] ∧
      m.top.IsAt (.account .balance) ⟨Gas.warmAccess, 1, 1, .none, .account, false⟩) ∧
    ¬tx.PaysForCold {} ∅ source (.account 5) 17 ∧ ¬tx.PaysForCold {} ∅ source (.account 2) 17 := by
  intro source tx
  have hlookup : lookup 0x31 =
      some (.account .balance, ⟨Gas.warmAccess, 1, 1, .none, .account, false⟩) :=
        (lookup_eq 0x31).trans rfl
  have hfirst : (tx.runningAt {} ∅ (.ofSource source) 10).any
      (fun m => decide (m.top.mode = .running ∧
      fetch? m.top.message.code.bytes m.top.pc = some 0x31) &&
      endsWith (fun _ a =>
        endsWith (fun charge? _ => charge? = some ⟨2500, 0⟩)
          (Gas.dynamic .account a.frame a.frame.memoryDesired a.state) &&
        endsWith (fun charge? _ => charge? = some ⟨0, 0⟩)
          (Gas.dynamic .account a.frame a.frame.memoryDesired (a.state.warmed (.account 5))))
        (Step.costing (.account .balance) ⟨Gas.warmAccess, 1, 1, .none, .account, false⟩
          ⟨m.top, m.state⟩)) =
      true := by decide +kernel
  have hreverted : (tx.runningAt {} ∅ (.ofSource source) 14).any
      (fun m => decide (m.top.mode = .exited .reverted)) = true := by decide +kernel
  have hsecond : (tx.runningAt {} ∅ (.ofSource source) 17).any
      (fun m => decide (m.top.mode = .running ∧
      m.top.stack = [5] ∧ fetch? m.top.message.code.bytes m.top.pc = some 0x31)) = true := by
        decide +kernel
  obtain ⟨m, hm, hfirst⟩ := (Option.any_eq_true _ _).mp hfirst
  obtain ⟨hbefore, hfirst⟩ := Bool.and_eq_true_iff.mp hfirst
  obtain ⟨hmode, hfetch⟩ := of_decide_eq_true hbefore
  obtain ⟨_, a, hcosting, hfirst⟩ := endsWith_iff.mp hfirst
  obtain ⟨hcold, hwarm⟩ := Bool.and_eq_true_iff.mp hfirst
  obtain ⟨_, s₁, hcold, hcold'⟩ := endsWith_iff.mp hcold
  obtain ⟨_, s₂, hwarm, hwarm'⟩ := endsWith_iff.mp hwarm
  obtain rfl := of_decide_eq_true hcold'
  obtain rfl := of_decide_eq_true hwarm'
  obtain ⟨m₁, hm₁, hreverted⟩ := (Option.any_eq_true _ _).mp hreverted
  obtain ⟨m₂, hm₂, hsecond⟩ := (Option.any_eq_true _ _).mp hsecond
  obtain ⟨hmode₂, hstack₂, hfetch₂⟩ := of_decide_eq_true hsecond
  -- the general statement gives the price and rules out a second charge
  obtain ⟨-, -, -, -, honce, hprewarmed, hamount⟩ := cold_place_is_charged_once tx {} ∅ source
  have hcharged : m.top.Charged m.state (.account .balance) (.account 5) (some ⟨2500, 0⟩)
      (some ⟨0, 0⟩) :=
    ⟨_, a.frame, a.state, s₁, s₂, ⟨0x31, hfetch, hlookup⟩, hcosting, hcold, hwarm⟩
  have hne : (some ⟨2500, 0⟩ : Option Gas.Charge) ≠ some ⟨0, 0⟩ := by decide
  have hpays : tx.PaysForCold {} ∅ source (.account 5) 10 := ⟨m, hm, hmode, _, _, _, hcharged, hne⟩
  obtain ⟨warm, hwarm, hsurcharge⟩ := hamount _ _ _ _ _ _ hcharged hne
  cases hwarm
  exact ⟨hpays, ⟨m, _, _, hm, hcharged, hsurcharge⟩, ⟨m₁, hm₁, of_decide_eq_true hreverted⟩,
    ⟨m₂, hm₂, hmode₂, hstack₂, 0x31, hfetch₂, hlookup⟩,
    fun hagain => absurd (honce _ _ _ hpays hagain) (by decide), hprewarmed _ _ (.inr (.inl rfl))⟩

end Transaction

end EvmCore
