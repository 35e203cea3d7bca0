import EvmCore.Proofs.Bounded
import Mathlib

/-!
# Regular machines

A machine is regular (`Machine.Regular`) if nothing in it is negative, its gas is a word, all of its
frames keep to their bounds, each frame that waits is served by the frame above it, and the state is
that of a transaction over accounts that are regular and can be read, with a layer for each frame.
Every iteration keeps a machine regular (`Iterates.regular`).
-/

namespace EvmCore

open Word (InRange)

/-! ### Outcomes and new frames -/

/-- An outcome whose output is of a size that is a word. -/
def Outcome.Bounded (o : Outcome) : Prop := (o.output.size : Int) < Word.modulus

section Handing

variable {ctx : Context} {f f' child : Frame} {s s' : State} {o : Outcome}

/-- A call that ends at once has an output only if it went to a contract that is built in. -/
theorem Call.Starts.outcome_bounded {c : Call} (h : Call.Starts ctx c s (.done o) s')
    (hctx : ctx.Regular) (hinput : (c.input.size : Int) < Word.modulus) (hgas : InRange c.gas) :
    o.Bounded := by
  cases h with
  | precompiled _ _ hprecompile houtput _ _ =>
    obtain ⟨output, cost, hanswer, hsize⟩ := (hctx.precompiles hprecompile).answers hinput hgas
    rw [houtput] at hanswer
    obtain ⟨rfl, -⟩ := Prod.mk.inj (Except.ok.inj hanswer)
    exact hsize
  | _ => exact Word.modulus_pos

/-- A creation that comes to nothing has no output. -/
theorem Creation.Starts.outcome_bounded {c : Creation} (h : Creation.Starts c s (.done o) s') :
    o.Bounded := by
  cases h with
  | _ => exact Word.modulus_pos

/-- The output of a frame that is left is that of the frame, or there is none. -/
theorem Leaves.outcome_bounded (h : Leaves f s o s') (hf : f.Bounded) : o.Bounded := by
  cases h with
  | halted | reverted => exact hf.output
  | deployed | undeployable | failed => exact Word.modulus_pos

/-- A frame that is about to begin. -/
theorem Frame.Bounded.fresh {message : Message} (h : message.Bounded) (gas : Int) :
    Frame.Bounded { message, gas } := by
  -- a fresh frame has an empty stack and an empty memory
  have hempty : ((ByteArray.empty.size : Nat) : Int) ≤ Gas.maxMemorySize := by decide
  exact ⟨h, fun _ hw => absurd hw List.not_mem_nil, hempty, Word.modulus_pos,
    Word.modulus_pos, trivial⟩

/-- The frame of a call keeps to its bounds: its code is that of a regular account. -/
theorem Call.Starts.child_bounded {c : Call} (h : Call.Starts ctx c s (.frame child) s')
    (hview : s'.view.Regular) (hvalue : InRange c.value)
    (hinput : (c.input.size : Int) < Word.modulus) : child.Bounded := by
  cases h with
  | frame =>
    have hmessage : (c.frame (s'.view.get c.codeAddress).code).message.Bounded :=
      ⟨hvalue, (hview.accounts c.codeAddress).code, hinput⟩
    exact .fresh hmessage c.gas

/-- So does the frame of a creation, whose code is what was in memory. -/
theorem Creation.Starts.child_bounded {c : Creation} (h : Creation.Starts c s (.frame child) s')
    (hvalue : InRange c.value) (hcode : (c.initCode.size : Int) < Word.modulus) :
    child.Bounded := by
  cases h with
  | frame =>
    have hmessage : c.frame.message.Bounded := ⟨hvalue, hcode, Word.modulus_pos⟩
    exact .fresh hmessage c.gas

namespace Begins

variable {start : Start}

/-- A frame that begins a request keeps to its bounds. -/
theorem bounded (h : Begins ctx f s f' start s') (hf : f.Bounded) : f'.Bounded := by
  cases h with
  | call => exact ⟨hf.message, hf.stack, hf.memory, Word.modulus_pos, hf.output, hf.mode⟩
  | create => exact ⟨hf.message, hf.stack, hf.memory, Word.modulus_pos, hf.output, hf.mode⟩

/-- What is handed to a new frame comes from the stack or from memory. -/
theorem child_bounded (h : Begins ctx f s f' (.frame child) s') (hview : s'.view.Regular)
    (hf : f.Bounded) : child.Bounded := by
  cases h with
  | call hmode hstarts =>
    exact hstarts.child_bounded hview (hf.callRequest hmode).value
      (Memory.size_read_lt hf.memory _ _)
  | create hmode _ _ hstarts =>
    exact hstarts.child_bounded (hf.createRequest hmode).value (Memory.size_read_lt hf.memory _ _)

/-- An outcome that is there at once keeps to its bounds. -/
theorem outcome_bounded (h : Begins ctx f s f' (.done o) s') (hctx : ctx.Regular) (hf : f.Bounded)
    (hgas : InRange f.pendingGas) : o.Bounded := by
  cases h with
  | call hmode hstarts =>
    -- a contract that is built in is given the gas that was requested
    rw [Frame.pendingGas, hmode] at hgas
    exact hstarts.outcome_bounded hctx (Memory.size_read_lt hf.memory _ _) hgas
  | create _ _ _ hstarts => exact hstarts.outcome_bounded

end Begins

/-- **A frame that goes on keeps to its bounds**: the output of a call goes
where the call asked for it. -/
theorem Resumes.bounded (h : Resumes f o f') (hf : f.Bounded) (ho : o.Bounded) : f'.Bounded := by
  -- where the output goes was checked when it was written, so the memory keeps its size
  have hsize : f'.memory.size = f.memory.size := by
    rcases h.memory with hmemory | ⟨r, data, hmode, hcheck, hmemory⟩
    · rw [hmemory]
    · rw [hmemory]
      exact Memory.size_overwrite (hf.callRequest hmode).returnOffset hcheck
  refine ⟨h.message ▸ hf.message, ?_, hsize ▸ hf.memory, ?_, h.output ▸ hf.output, ?_⟩
  · obtain ⟨w, hstack, hw⟩ := h.stack
    rw [hstack]
    refine List.forall_mem_cons.mpr ⟨?_, hf.stack⟩
    -- the word on top says whether a call succeeded, or which address was created
    rcases hw with rfl | hw
    · exact Word.inRange_ofBool _
    · obtain hw | ⟨a, hw⟩ := Outcome.createdWord_cases hw
      · rw [hw]
        exact Word.inRange_zero
      · rw [hw]
        exact Address.inRange_toWord a
  · rcases h.returnData with hdata | hdata
    · rw [hdata]
      exact Word.modulus_pos
    · rw [hdata]
      exact ho
  · rw [h.mode]
    trivial

end Handing

/-! ### The machine -/

/-- Whether a frame ends as the frame below it expects: only init code serves one that creates. -/
def Frame.Serves (child parent : Frame) : Prop :=
  match parent.mode with
  | .awaitingCall _ => True
  | .awaitingCreate _ => child.message.isInit = true
  | .running | .exited _ => False

/-- Whom a frame serves depends on its message. -/
theorem Frame.Serves.of_message_eq {child child' parent : Frame} (h : child.Serves parent)
    (hmessage : child'.message = child.message) : child'.Serves parent := by
  unfold Frame.Serves
  rw [hmessage]
  exact h

/-- A new frame serves the one that asked for it. -/
theorem Begins.serves {ctx : Context} {f f' child : Frame} {s s' : State}
    (h : Begins ctx f s f' (.frame child) s') : child.Serves f' := by
  unfold Frame.Serves
  rw [h.mode_eq]
  cases h with
  | call hmode _ =>
    rw [hmode]
    trivial
  | create hmode _ _ hstarts =>
    rw [hmode]
    cases hstarts
    rfl

namespace Machine

/-- **What every machine is** that comes of a transaction over regular accounts. -/
structure Regular (m : Machine) : Prop where
  nonNegative : m.NonNegative
  gas : m.totalGas < Word.modulus
  top : m.top.Bounded
  waiting : ∀ f ∈ m.waiting, f.Bounded
  serves : (m.top :: m.waiting).IsChain Frame.Serves
  nested : ∃ c : State, c.view.Regular ∧ c.world.source.unreadable = ∅ ∧
    m.Nested (Carries View.Regular) c.opened 0

namespace Regular

variable {m : Machine}

/-- What is shown to a regular machine is regular. -/
theorem view (h : m.Regular) : m.state.view.Regular := by
  obtain ⟨c, hc, -, cs, -, hlayered⟩ := h.nested
  exact hlayered.respects hc

/-- Its accounts can be read. -/
theorem readable (h : m.Regular) : m.state.world.source.unreadable = ∅ := by
  obtain ⟨c, -, hc, cs, -, hlayered⟩ := h.nested
  rw [hlayered.retains.source]
  exact hc

/-- There is a layer for the top frame. -/
theorem layer (h : m.Regular) : ∃ c : State, Grows c.opened m.state := by
  obtain ⟨c, -, -, cs, -, hlayered⟩ := h.nested
  cases hlayered with
  | root hmoves => exact ⟨c, hmoves.toGrows⟩
  | layer _ hmoves => exact ⟨_, hmoves.toGrows⟩

/-- The gas of the frame on top is a word. -/
theorem top_gas_lt (h : m.Regular) : m.top.gas < Word.modulus := by
  have hle := h.nonNegative.top_gas_le
  have hpending := h.nonNegative.pendingGas
  have hgas := h.gas
  omega

/-- So is the gas that it has requested. -/
theorem inRange_pendingGas (h : m.Regular) : InRange m.top.pendingGas := by
  have hle := h.nonNegative.top_gas_le
  have htop := h.nonNegative.gas
  have hgas := h.gas
  exact ⟨h.nonNegative.pendingGas, by omega⟩

end Regular

end Machine

namespace Iterates

variable {ctx : Context} {m m' : Machine}

/-- A new frame serves the one that asked for it, and goes on to. -/
theorem serves (h : Iterates ctx m m') (hm : (m.top :: m.waiting).IsChain Frame.Serves) :
    (m'.top :: m'.waiting).IsChain Frame.Serves := by
  -- what a frame serves depends on its message, which never changes
  have htop {f f' : Frame} {waiting : List Frame} (hmessage : f'.message = f.message)
      (hchain : (f :: waiting).IsChain Frame.Serves) : (f' :: waiting).IsChain Frame.Serves := by
    cases hchain with
    | singleton => exact .singleton f'
    | cons_cons hserves hrest => exact .cons_cons (hserves.of_message_eq hmessage) hrest
  cases h with
  | step _ hsteps => exact htop hsteps.message hm
  | push hbegins => exact .cons_cons hbegins.serves (htop hbegins.message hm)
  | resume hbegins hresumes => exact htop (hresumes.message.trans hbegins.message) hm
  | pop _ hresumes =>
    cases hm with
    | cons_cons _ hrest => exact htop hresumes.message hrest

/-- **The invariant**, in an iteration. -/
theorem regular (h : Iterates ctx m m') (hctx : ctx.Regular) (hm : m.Regular) : m'.Regular := by
  have hnested : ∃ c : State, c.view.Regular ∧ c.world.source.unreadable = ∅ ∧
      m'.Nested (Carries View.Regular) c.opened 0 := by
    obtain ⟨c, hview, hreadable, hnested⟩ := hm.nested
    exact ⟨c, hview, hreadable, h.nested hnested (Nat.zero_le _)
      (View.Regular.respects (fun _ => hm.top.stack) _)⟩
  have hnonneg := h.nonNegative hctx.nonNegative hm.nonNegative
  have hgas := (h.totalGas_le hctx.nonNegative hm.nonNegative).trans_lt hm.gas
  have hserves := h.serves hm.serves
  -- what is left are the bounds of each frame
  cases h with
  | step hmode hsteps =>
    have htop := hm.nonNegative.top (Frame.active_of_running hmode)
    exact ⟨hnonneg, hgas, hsteps.bounded hctx hm.view hm.top htop hm.top_gas_lt hmode,
      hm.waiting, hserves, hnested⟩
  | @push _ _ _ _ _ s' hbegins =>
    -- the code of the child is that of an account as it is now
    have hview : s'.view.Regular := by
      obtain ⟨c, hc, -, cs, -, hlayered⟩ := hnested
      exact hlayered.respects hc
    exact ⟨hnonneg, hgas, hbegins.child_bounded hview hm.top,
      List.forall_mem_cons.mpr ⟨hbegins.bounded hm.top, hm.waiting⟩, hserves, hnested⟩
  | resume hbegins hresumes =>
    have houtcome := hbegins.outcome_bounded hctx hm.top hm.inRange_pendingGas
    exact ⟨hnonneg, hgas, hresumes.bounded (hbegins.bounded hm.top) houtcome, hm.waiting,
      hserves, hnested⟩
  | pop hleaves hresumes =>
    obtain ⟨hparent, hwaiting⟩ := List.forall_mem_cons.mp hm.waiting
    exact ⟨hnonneg, hgas, hresumes.bounded hparent (hleaves.outcome_bounded hm.top),
      hwaiting, hserves, hnested⟩

end Iterates

end EvmCore
