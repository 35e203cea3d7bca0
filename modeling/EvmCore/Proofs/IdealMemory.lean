import EvmCore.Proofs.Course
import EvmCore.Proofs.MemoryRegion
import Mathlib

/-!
# Memory as if it had no end

The memory of a frame grows when it is used. An `IdealMemory` has a byte for every address to begin
with, all of them zero. `Machine.ideal` is the ideal memory of a frame along its course:
`Machine.write?` says what the next iteration writes for it, be it by an instruction of the frame or
by the output of its callee, and nothing of this depends on the memory that there is.

As long as no offset or size is negative, the memory that there is agrees with the ideal one, which
is zero everywhere else (`Machine.Turn.follows`), and so instructions that read memory find there
what they would find in the ideal one (`Executes.reads`).
-/

namespace EvmCore

/-! ### Ideal memory -/

/-- Memory without an end. -/
def IdealMemory := Nat → UInt8

/-- Growing adds zeros, which is what there is past the end anyway. -/
theorem Memory.getD_grow (m : Memory) (size i : Nat) :
    (m.grow size).data[i]?.getD 0 = m.data[i]?.getD 0 := by
  rw [grow]
  split
  · rw [ByteArray.data_append, Array.getElem?_append]
    split
    · rfl
    · next hge =>
      -- the new bytes are zero, and so is what is read past the end
      rw [Array.getElem?_eq_none (not_lt.mp hge), Bytes.zeros, Array.getElem?_replicate]
      split
      · rfl
      · rfl
  · rfl

namespace IdealMemory

variable {M : IdealMemory} {m m' : Memory}

/-- Memory that was never written. -/
def zero : IdealMemory := fun _ => 0

/-- The memory after a write, if there is one. -/
def update (M : IdealMemory) : Option Memory.Write → IdealMemory
  | none => M
  | some w => fun i => if w.offset ≤ i ∧ i < w.offset + w.size then w.byte (i - w.offset) else M i

/-- The bytes of a region. -/
def bytes (M : IdealMemory) (offset size : Nat) : ByteArray :=
  ⟨Array.ofFn fun i : Fin size => M (offset + i)⟩

/-- A region is as long as it is asked to be. -/
theorem size_bytes (M : IdealMemory) (offset size : Nat) : (M.bytes offset size).size = size :=
  Array.size_ofFn

/-- The bytes of `m` are those of `M`, which are zero past the end of `m`. -/
structure Agrees (M : IdealMemory) (m : Memory) : Prop where
  within : ∀ i < m.size, m.data[i]? = some (M i)
  beyond : ∀ i, m.size ≤ i → M i = 0

/-- The two parts in one: past the end, zero is read. -/
theorem agrees_iff : M.Agrees m ↔ ∀ i, M i = m.data[i]?.getD 0 := by
  constructor
  · intro h i
    rcases Nat.lt_or_ge i m.size with hlt | hge
    · rw [h.within i hlt]
      rfl
    · rw [h.beyond i hge, Array.getElem?_eq_none hge]
      rfl
  · intro h
    refine ⟨fun i hi => ?_, fun i hi => ?_⟩
    · rw [h i, Array.getElem?_eq_getElem hi]
      rfl
    · rw [h i, Array.getElem?_eq_none hi]
      rfl

/-- To begin with there is nothing but zeros. -/
theorem agrees_empty : zero.Agrees .empty :=
  ⟨fun _ hi => absurd hi (Nat.not_lt_zero _), fun _ _ => rfl⟩

/-- Growing keeps the agreement. -/
theorem Agrees.grown {f : Frame} (h : M.Agrees f.memory) : M.Agrees f.grown.memory := by
  rw [agrees_iff] at h ⊢
  intro i
  rw [h i, Frame.grown]
  split
  · exact (Memory.getD_grow _ _ i).symm
  · rfl

/-- **A write keeps the agreement** if it is made to both. -/
theorem Agrees.applies {w : Memory.Write} (h : M.Agrees m) (hw : w.Applies m m') :
    (M.update (some w)).Agrees m' := by
  rw [agrees_iff] at h ⊢
  intro i
  rw [hw.bytes i, update]
  beta_reduce
  split
  · rfl
  · exact h i

/-- **A region that lies within memory** is read in its full length. -/
theorem Agrees.read (h : M.Agrees m) {offset size : Int} (hoffset : 0 ≤ offset) (hsize : 0 ≤ size)
    (hholds : Memory.Holds m.size offset size) :
    m.read offset size = M.bytes offset.toNat size.toNat := by
  rw [Memory.read]
  split
  · next hzero =>
    subst hzero
    rfl
  · next hne =>
    have hle : offset + size ≤ m.size := hholds.resolve_left hne
    -- byte by byte
    refine ByteArray.ext (Array.ext_getElem? fun i => ?_)
    rw [Bytes.getElem?_slice hoffset hsize, bytes, Array.getElem?_ofFn]
    split
    · exact h.within _ (by omega)
    · rfl

end IdealMemory

/-! ### What a frame writes along its course -/

/-- The instruction that a frame is at. -/
def Frame.opcode? (f : Frame) : Option Opcode :=
  (fetch? f.message.code.bytes f.pc).bind fun byte => (lookup byte).map Prod.fst

/-- The instruction that a frame is at has an entry in the table. -/
theorem Frame.opcode?_eq_some_iff {f : Frame} {op : Opcode} :
    f.opcode? = some op ↔ ∃ operation, f.IsAt op operation := by
  rw [opcode?, Option.bind_eq_some_iff]
  constructor
  · rintro ⟨byte, hfetch, hlookup⟩
    obtain ⟨entry, hentry, hop⟩ := Option.map_eq_some_iff.mp hlookup
    refine ⟨entry.2, byte, hfetch, ?_⟩
    rw [hentry, ← hop]
  · rintro ⟨operation, hat⟩
    obtain ⟨byte, hfetch, hlookup⟩ := hat
    exact ⟨byte, hfetch, Option.map_eq_some_iff.mpr ⟨(op, operation), hlookup, rfl⟩⟩

/-- What a frame that called writes to its memory when it goes on: as much of the output as it asked
for, if the callee halted or reverted. -/
def Frame.received? (f : Frame) (o : Outcome) : Option Memory.Write :=
  match f.mode with
  | .awaitingCall (some r) =>
    if o.success || o.reverted then
      some ⟨r.returnOffset.toNat, min r.returnSize.toNat o.output.size,
        fun i => o.output.data[i]?.getD 0⟩
    else none
  | _ => none

/-- What the next iteration writes to the memory of the frame that has `n` frames below it. -/
def Machine.write? (ctx : Context) (n : Nat) (m : Machine) : Option Memory.Write :=
  if m.waiting.length = n then
    if m.top.mode = .running then m.top.opcode?.bind fun op => op.write? m.top m.state.view
    else
      match m.top.begin ctx ⟨m.top, m.state⟩ with
      | .ok (.done o) _ => m.top.received? o
      | _ => none
  else if m.waiting.length = n + 1 then
    match Frame.leave ⟨m.top, m.state⟩ with
    | .ok o _ => (m.frameAt n).received? o
    | .error _ _ => none
  else none

/-- The ideal memory of the frame that has `n` frames below it, given the machines that were passed
through, the last one first. -/
def Machine.ideal (ctx : Context) (n : Nat) (past : List Machine) : IdealMemory :=
  past.foldr (fun m M => M.update (m.write? ctx n)) .zero

/-- The memory of the frame, unless it failed, is that of `M`, and holds what
the frame has requested. -/
structure Frame.Follows (f : Frame) (M : IdealMemory) : Prop where
  agrees : f.mode.isFailure = false → M.Agrees f.memory
  fits : f.mode.Fits f.memory.size

section Turns

variable {ctx : Context} {op : Opcode} {operation : Operation} {charge : Gas.Charge}
  {f f₁ f' : Frame} {s s₁ s' : State} {M : IdealMemory} {u : Unit}

/-- What an instruction writes does not depend on what was paid for it. -/
theorem Prepared.write?_eq (h : Prepared f s op operation charge f₁ s₁) :
    op.write? f₁ s₁.view = op.write? f s.view := by
  obtain ⟨gas, memoryDesired, memory, activeWords, rfl⟩ := h.frame
  rw [h.quiet.view_eq]
  rfl

/-- Nor does paying change what there is in memory. -/
theorem Prepared.agrees (h : Prepared f s op operation charge f₁ s₁) (hM : M.Agrees f.memory) :
    M.Agrees f₁.memory := by
  obtain ⟨size, s₀, -, -, -, rfl⟩ := h.charged
  exact IdealMemory.Agrees.grown hM

/-- A step writes what its instruction does. -/
theorem Frame.Follows.step (h : f.Follows M) (hstep : EvmCore.step ctx ⟨f, s⟩ = .ok u ⟨f', s'⟩)
    (hmode : f.mode = .running) (hnatural : f.Natural) :
    f'.Follows (M.update (f.opcode?.bind fun op => op.write? f s.view)) := by
  -- a frame that runs has not failed
  have hM : M.Agrees f.memory := h.agrees (by rw [hmode]; rfl)
  cases steps_of_step hstep with
  -- a frame that failed is not looked at any more
  | unprepared e _ => exact ⟨nofun, trivial⟩
  | failed e _ _ => exact ⟨nofun, trivial⟩
  | @executed op operation charge f₁ _ s₁ _ hprepared hexecutes =>
    have hop : op.NaturalOn f.stack := hnatural hmode op operation hprepared.isAt
    -- the writes of an instruction are known for the frame that was prepared, which has grown
    have hwrites := hexecutes.writes hprepared.isAt.operation? (hprepared.stack ▸ hprepared.within)
      (hprepared.stack ▸ hop)
    have hM₁ := hprepared.agrees hM
    refine ⟨fun _ => ?_, hexecutes.mode_fits hprepared hmode hop.naturalRegionsOn⟩
    rw [Frame.opcode?_eq_some_iff.mpr ⟨operation, hprepared.isAt⟩,
      Option.bind_some, ← hprepared.write?_eq]
    cases hwrite : op.write? f₁ s₁.view with
    | none =>
      rw [hwrite] at hwrites
      dsimp only at hwrites
      rw [hwrites]
      exact hM₁
    | some w =>
      rw [hwrite] at hwrites
      exact hM₁.applies hwrites

/-- Beginning a request leaves the memory alone. -/
theorem Frame.Follows.begin {start : Start} (h : f.Follows M)
    (hbegin : f.begin ctx ⟨f, s⟩ = .ok start ⟨f', s'⟩) : f'.Follows M := by
  cases Frame.begins_of_begin hbegin with
  | call => exact ⟨h.agrees, h.fits⟩
  | create => exact ⟨h.agrees, h.fits⟩

/-- The output that a frame receives is a write. -/
theorem CallRequest.Receives.applies {r : CallRequest} {output : ByteArray} {m m' : Memory}
    (h : r.Receives output m m') (hr : r.Fits m.size) :
    Memory.Write.Applies ⟨r.returnOffset.toNat, min r.returnSize.toNat output.size,
      fun i => output.data[i]?.getD 0⟩ m m' := by
  have hoffset := hr.returnOffset
  have hsize := hr.returnSize
  refine ⟨h.size_eq hoffset, ?_, fun i => ?_⟩
  · have houtput := hr.output
    unfold Memory.Holds at houtput
    dsimp only
    omega
  · rw [h.bytes hoffset hsize]
    dsimp only
    by_cases hi : r.returnOffset ≤ i ∧ i < r.returnOffset + min r.returnSize output.size
    · -- the index is one of a natural number, and it is a byte of the output
      have hindex : (i - r.returnOffset).toNat = i - r.returnOffset.toNat := by omega
      have hlt : i - r.returnOffset.toNat < output.data.size := by
        rw [ByteArray.size_data]
        omega
      rw [if_pos hi, if_pos (by omega), hindex, Array.getElem?_eq_getElem hlt]
      rfl
    · rw [if_neg hi, if_neg (by omega)]

/-- A frame that goes on writes what it received. -/
theorem Frame.Follows.resume {o : Outcome} (h : f.Follows M)
    (hresume : Frame.resume o f = .ok u f') :
    f'.Follows (M.update (f.received? o)) := by
  cases Frame.goesOn_of_resume hresume with
  | create hmode _ =>
    have hM : M.Agrees f.memory := h.agrees (by rw [hmode]; rfl)
    rw [received?, hmode]
    exact ⟨fun _ => hM, trivial⟩
  | @call request memory hmode hreturns hnone =>
    have hM : M.Agrees f.memory := h.agrees (by rw [hmode]; rfl)
    refine ⟨fun _ => ?_, trivial⟩
    -- the output is written if the callee halted or reverted, and is dropped otherwise
    by_cases hout : (o.success || o.reverted) = true
    · obtain ⟨r, rfl, hreceives⟩ := hreturns hout
      have hfits := h.fits
      rw [hmode] at hfits
      rw [received?, hmode]
      dsimp only
      rw [if_pos hout]
      exact hM.applies (hreceives.applies hfits)
    · obtain rfl := hnone hout
      have hreceived : f.received? o = none := by
        rw [received?, hmode]
        cases request with
        | none => rfl
        | some r => exact if_neg hout
      rw [hreceived]
      exact hM

end Turns

namespace Machine

variable {ctx : Context} {n : Nat} {m m' : Machine} {M : IdealMemory}

/-- Nothing is written for a frame while others are at work above it. -/
theorem write?_of_lt (h : iterate ctx m = .ok none m') (hn : n < m.waiting.length)
    (hn' : n < m'.waiting.length) :
    m.write? ctx n = none := by
  rw [write?, if_neg hn.ne']
  split
  · next hlength =>
    cases hleave : Frame.leave ⟨m.top, m.state⟩ with
    | error e a => rfl
    | ok o a =>
      -- a child that ended would have been left
      obtain ⟨exit, hexit⟩ := (Frame.leaves_of_leave hleave).mode
      cases performs_of_iterate h with
      | step hmode _ => cases hmode.symm.trans hexit
      | push hbegin => exact absurd hexit ((Frame.waits_of_begin hbegin).active exit)
      | settle hbegin _ => exact absurd hexit ((Frame.waits_of_begin hbegin).active exit)
      | pop _ hwaiting _ =>
        rw [hwaiting, List.length_cons] at hlength
        dsimp only at hn'
        omega
  · rfl

/-- What is written at once for a frame that waits. -/
theorem write?_of_waits (hn : m.waiting.length = n) (h : (m.frameAt n).Waits) :
    m.write? ctx n = match (m.frameAt n).begin ctx ⟨m.frameAt n, m.state⟩ with
      | .ok (.done o) _ => (m.frameAt n).received? o
      | _ => none := by
  rw [frameAt_length hn] at h ⊢
  rw [write?, if_pos hn, if_neg h.ne_running]

/-- **What a turn writes keeps memory and ideal memory in agreement.** -/
theorem Turn.follows (hiterate : iterate ctx m = .ok none m') (h : Turn ctx n m m')
    (hnatural : (m.frameAt n).Natural) (hm : (m.frameAt n).Follows M) :
    (m'.frameAt n).Follows (M.update (m.write? ctx n)) := by
  cases h with
  | rest hn hn' hframe =>
    rw [write?_of_lt hiterate hn hn', hframe]
    exact hm
  | step hn _ hmode hstep =>
    rw [frameAt_length hn] at hmode hstep hnatural hm
    rw [write?, if_pos hn, if_pos hmode]
    exact hm.step hstep hmode hnatural
  | push hn _ hbegin =>
    rw [write?_of_waits hn (Frame.waits_of_begin hbegin), hbegin]
    exact hm.begin hbegin
  | @settle f o hn _ hbegin hresume =>
    -- the frame asks for the same as before it began
    have hreceived : (m.frameAt n).received? o = f.received? o := by
      rw [Frame.received?, Frame.received?, (Frame.begins_of_begin hbegin).mode_eq]
    rw [write?_of_waits hn (Frame.waits_of_begin hbegin), hbegin]
    dsimp only
    rw [hreceived]
    exact (hm.begin hbegin).resume hresume
  | pop hn _ hleave _ hresume =>
    -- the frame has a child above it that is left
    rw [write?, if_neg (by omega), if_pos hn, hleave]
    exact hm.resume hresume

/-- **Memory agrees with ideal memory** all along the course of a frame. -/
theorem Visits.follows {m₀ : Machine} {past : List Machine}
    (h : Visits ctx m₀.waiting.length m₀ past m) (hmemory : m₀.top.memory = .empty)
    (hmode : m₀.top.mode = .running)
    (hnatural : ∀ m₁ ∈ past, (m₁.frameAt m₀.waiting.length).Natural) :
    (m.frameAt m₀.waiting.length).Follows (ideal ctx m₀.waiting.length past) := by
  -- the hypothesis on the past shrinks with it, so it is a part of the invariant
  have hcourse : (∀ m₁ ∈ past, (m₁.frameAt m₀.waiting.length).Natural) →
      (m.frameAt m₀.waiting.length).Follows (ideal ctx m₀.waiting.length past) := by
    refine h.course (I := fun past m => (∀ m₁ ∈ past, (m₁.frameAt m₀.waiting.length).Natural) →
      (m.frameAt m₀.waiting.length).Follows (ideal ctx m₀.waiting.length past)) le_rfl
        (fun _ => ?_) ?_
    · rw [frameAt_length rfl]
      refine ⟨fun _ => ?_, by rw [hmode]; trivial⟩
      rw [hmemory]
      exact IdealMemory.agrees_empty
    · intro past m m' hiterate hturn hm hnatural
      obtain ⟨hlast, hpast⟩ := List.forall_mem_cons.mp hnatural
      exact hturn.follows hiterate hlast (hm hpast)
  exact hcourse hnatural

end Machine

/-! ### What instructions read -/

/-- What an instruction makes of the bytes that it finds in memory: it loads or hashes them, returns
them, logs them, or hands them to a callee or to a new contract. -/
def Opcode.Reads (op : Opcode) (M : IdealMemory) (f : Frame) (v : View) (f' : Frame) (v' : View) :
    Prop :=
  match op with
  | .memoryLoad => ∃ offset rest, f.stack = offset :: rest ∧
      f'.stack = Bytes.toWord (M.bytes offset.toNat 32) :: rest
  | .keccak => ∃ offset size rest, f.stack = offset :: size :: rest ∧
      f'.stack = Bytes.toWord (Keccak.hash (M.bytes offset.toNat size.toNat)) :: rest
  | .return | .revert => ∃ offset size rest, f.stack = offset :: size :: rest ∧
      f'.output = M.bytes offset.toNat size.toNat
  | .log _ => ∃ offset size rest topics, f.stack = offset :: size :: rest ∧
      v' = v.addLog ⟨f.message.self, topics, M.bytes offset.toNat size.toNat⟩
  | .call kind => ∃ r : CallRequest, f'.mode = .awaitingCall (some r) ∧
      f.stack.back (Step.callOperands kind - 4) = .ok r.inputOffset ∧
      f.stack.back (Step.callOperands kind - 3) = .ok r.inputSize ∧
      (r.toCall f').input = M.bytes r.inputOffset.toNat r.inputSize.toNat
  | .create _ => ∃ r : CreateRequest, f'.mode = .awaitingCreate (some r) ∧
      f.stack.back 1 = .ok r.inputOffset ∧ f.stack.back 2 = .ok r.inputSize ∧
      ∀ address, (r.toCreation f' address).initCode = M.bytes r.inputOffset.toNat r.inputSize.toNat
  | _ => True

/-- **What an instruction reads** is what there is in ideal memory. -/
theorem Executes.reads {ctx : Context} {op : Opcode} {operation : Operation} {charge : Gas.Charge}
    {f f₁ f' : Frame} {s s₁ s' : State} {M : IdealMemory}
    (h : Executes ctx charge.forwarded op f₁ s₁ f' s')
    (hprepared : Prepared f s op operation charge f₁ s₁) (hmode : f.mode = .running)
    (hnatural : op.NaturalOn f.stack) (hM : M.Agrees f₁.memory) :
    op.Reads M f s.view f' s'.view := by
  have hop := hprepared.isAt.operation?
  have hwithin := hprepared.within
  have hfits := h.mode_fits hprepared hmode hnatural.naturalRegionsOn
  have hview := hprepared.quiet.view_eq
  rw [← hprepared.stack] at hwithin hnatural
  -- the region of most instructions is given by the two words on top
  have hregion {offset size : Word} {rest : Stack} (hstack : f₁.stack = offset :: size :: rest)
      (hextents : op.extents = [0, 1]) (hmemory : operation.memory = .region 0 1) :
      f₁.memory.read offset size = M.bytes offset.toNat size.toNat := by
    rw [hmemory, hstack] at hwithin
    rw [Opcode.NaturalOn, hextents, hstack] at hnatural
    exact hM.read (hnatural 0 (by decide) _ rfl) (hnatural 1 (by decide) _ rfl)
      (hwithin _ _ rfl rfl)
  unfold Opcode.Reads
  rw [← hprepared.stack]
  cases h with
  | @memoryLoad _ _ offset rest hstack =>
    obtain rfl := Option.some.inj hop
    rw [hstack] at hwithin hnatural
    have hread := hM.read (hnatural 0 (by decide) _ rfl) (by decide) (hwithin offset rfl)
    exact ⟨offset, rest, hstack, congrArg (Bytes.toWord · :: rest) hread⟩
  | @keccak _ _ offset size rest hstack =>
    obtain rfl := Option.some.inj hop
    have hhash := congrArg (fun data => Bytes.toWord (Keccak.hash data)) (hregion hstack rfl rfl)
    exact ⟨offset, size, rest, hstack, congrArg (· :: rest) hhash⟩
  | @«return» _ _ offset size rest hstack =>
    obtain rfl := Option.some.inj hop
    exact ⟨offset, size, rest, hstack, hregion hstack rfl rfl⟩
  | @revert _ _ offset size rest hstack =>
    obtain rfl := Option.some.inj hop
    exact ⟨offset, size, rest, hstack, hregion hstack rfl rfl⟩
  | @log n _ _ _ offset size words rest topics hstack _ _ _ hlog =>
    obtain rfl := Option.some.inj hop
    refine ⟨offset, size, _, topics, hstack, ?_⟩
    rw [hlog, hview, hprepared.message, hregion hstack rfl rfl]
  | @call kind _ _ r hrequest =>
    obtain ⟨hoffset, hsize, -⟩ := Step.callRequest_cases hrequest
    exact ⟨r, rfl, hoffset, hsize, hM.read hfits.inputOffset hfits.inputSize hfits.input⟩
  | @create kind _ _ value inputOffset inputSize salt rest hstack _ =>
    refine ⟨_, rfl, by rw [hstack]; rfl, by rw [hstack]; rfl, fun _ => ?_⟩
    exact hM.read hfits.inputOffset hfits.inputSize hfits.input
  | _ => trivial

/-- A step that does not fail reads what there is in ideal memory. -/
theorem Steps.reads {ctx : Context} {op : Opcode} {f f' : Frame} {s s' : State} {M : IdealMemory}
    (h : Steps ctx f s f' s') (hmode : f.mode = .running) (hop : f.opcode? = some op)
    (hnatural : f.Natural) (hM : M.Agrees f.memory) (hok : f'.mode.isFailure = false) :
    op.Reads M f s.view f' s'.view := by
  obtain ⟨operation, hat⟩ := Frame.opcode?_eq_some_iff.mp hop
  cases h with
  | unprepared e _ => cases hok
  | failed e _ _ => cases hok
  | executed hprepared hexecutes =>
    obtain ⟨rfl, rfl⟩ := hat.unique hprepared.isAt
    exact hexecutes.reads hprepared hmode (hnatural hmode _ _ hat) (hprepared.agrees hM)

/-- **Memory behaves as if it had no end.** Take a frame from where it starts, with empty memory,
through any run, and let `M` be its ideal memory, which is zero to begin with and has been changed
by the writes of the frame and the outputs of its callees alone. As long as no instruction was given
a negative offset or size, which cannot be where no number is negative to begin with, the memory of
the frame, unless it failed, has the bytes of `M`, and `M` is zero past its end. If then the next
step does not fail, every region that it reads has the full length and the bytes of `M`. -/
theorem memory_behaves_as_if_endless (ctx : Context) {m₀ m : Machine} {past : List Machine}
    (hmemory : m₀.top.memory = .empty) (hmode : m₀.top.mode = .running)
    (h : Machine.Visits ctx m₀.waiting.length m₀ past m) :
    let n := m₀.waiting.length
    let f := m.frameAt n
    let M := Machine.ideal ctx n past
    ((∀ m₁ ∈ past, (m₁.frameAt n).Natural) → f.mode.isFailure = false →
      (∀ i < f.memory.size, f.memory.data[i]? = some (M i)) ∧ (∀ i, f.memory.size ≤ i → M i = 0)) ∧
    ((∀ m₁ ∈ m :: past, (m₁.frameAt n).Natural) → m.waiting.length = n → f.mode = .running →
      ∀ op m', f.opcode? = some op → m.iterate ctx = .ok none m' → m'.top.mode.isFailure = false →
        op.Reads M f m.state.view m'.top m'.state.view) ∧
    (∀ offset size, (M.bytes offset size).size = size) ∧
    (ctx.NonNegative → m₀.NonNegative → ∀ m₁ ∈ m :: past, (m₁.frameAt n).Natural) := by
  intro n f M
  refine ⟨fun hnatural hok => ?_, fun hnatural hn hrunning op m' hop hiterate hok => ?_,
    M.size_bytes, fun hctx hm₀ m₁ hm₁ => ?_⟩
  · have hagrees : M.Agrees f.memory := (h.follows hmemory hmode hnatural).agrees hok
    exact ⟨hagrees.within, hagrees.beyond⟩
  · obtain ⟨hlast, hpast⟩ := List.forall_mem_cons.mp hnatural
    have hagrees : M.Agrees f.memory :=
      (h.follows hmemory hmode hpast).agrees (by rw [hrunning]; rfl)
    -- the frame is the one on top, so the iteration is its step
    have htop : f = m.top := Machine.frameAt_length hn
    obtain ⟨-, hstep⟩ := Machine.step_of_iterate hiterate (htop ▸ hrunning)
    rw [← htop] at hstep
    exact (steps_of_step hstep).reads hrunning hop hlast hagrees hok
  · obtain ⟨hm, hpast⟩ := h.nonNegative hctx hm₀
    exact Frame.NonNegative.natural (List.forall_mem_cons.mpr ⟨hm, hpast⟩ m₁ hm₁).frameAt

/-- A byte that was stored at address 31 is the last of the word that is loaded from address 0. -/
theorem stored_byte_ends_the_loaded_word :
    let m₀ : Machine := .start
      { message :=
          { self := 1, caller := 2, codeAddress := 1
            code := .ofBytes ⟨#[0x60, 0xff, 0x60, 0x1f, 0x53, 0x60, 0, 0x51]⟩ }
        gas := 100 } (.ofSource {})
    ∃ past m m', Machine.Visits {} 0 m₀ past m ∧ Machine.ideal {} 0 past 31 = 0xff ∧
      (∀ i, 32 ≤ i → Machine.ideal {} 0 past i = 0) ∧ m.iterate {} = .ok none m' ∧
      m'.top.stack = [Bytes.toWord ((Machine.ideal {} 0 past).bytes 0 32)] ∧
      m'.top.stack = [255] := by
  intro m₀
  obtain ⟨past, m, h, htest⟩ : ∃ past m, Machine.Visits {} 0 m₀ past m ∧
      (decide (m.waiting.length = 0 ∧ (m.frameAt 0).mode = .running ∧
        (m.frameAt 0).opcode? = some .memoryLoad ∧
          (m.frameAt 0).stack = [0] ∧ (m.frameAt 0).memory.size = 32 ∧
          (m.frameAt 0).memory.data[31]? = some 0xff) &&
        endsWith (fun o m' => o.isNone && decide (m'.top.mode = .running ∧ m'.top.stack = [255]))
          (m.iterate {})) = true :=
    Machine.Visits.refl.exists_of_holdsAfter (k := 4) (by decide +kernel)
  rw [Bool.and_eq_true, decide_eq_true_eq] at htest
  obtain ⟨⟨hn, hmode, hop, hstack, hsize, hbyte⟩, htest⟩ := htest
  obtain ⟨o, m', hiterate, htest⟩ := endsWith_iff.mp htest
  rw [Bool.and_eq_true, Option.isNone_iff_eq_none, decide_eq_true_eq] at htest
  obtain ⟨rfl, hmode', hstack'⟩ := htest
  have hm₀ : m₀.NonNegative :=
    Machine.start_empty_nonNegative (.of_fresh (by decide) le_rfl rfl rfl rfl)
  obtain ⟨hagrees, hreads, -, hnatural⟩ := @memory_behaves_as_if_endless {} m₀ m past rfl rfl h
  have hnatural := hnatural Context.nonNegative_default hm₀
  have hok : (m.frameAt 0).mode.isFailure = false := by
    rw [hmode]
    rfl
  have hlt : 31 < (m.frameAt 0).memory.size := by
    rw [hsize]
    decide
  obtain ⟨hwithin, hbeyond⟩ := hagrees (List.forall_mem_cons.mp hnatural).2 hok
  obtain ⟨offset, rest, hloaded, hword⟩ :=
    hreads hnatural hn hmode _ m' hop hiterate (by rw [hmode']; rfl)
  obtain ⟨rfl, rfl⟩ := List.cons.inj (hstack.symm.trans hloaded)
  refine ⟨past, m, m', h, ?_, fun i hi => hbeyond i (hsize.trans_le hi), hiterate, hword, hstack'⟩
  exact (Option.some.inj (hbyte.symm.trans (hwithin 31 hlt))).symm

/-- Storing a word at offset -1 moves the byte at address 31, which is not one
of those that are written. -/
theorem negative_offset_moves_stored_byte :
    let ctx : Context := { block := { number := -1 } }
    let m₀ : Machine := .start
      { message :=
          { self := 1, caller := 2, codeAddress := 1
            code := .ofBytes ⟨#[0x60, 0xff, 0x60, 0x1f, 0x53, 0x60, 1, 0x43, 0x52]⟩ }
        gas := 100 } (.ofSource {})
    ∃ m₁ past m, Machine.Visits ctx 0 m₀ (m₁ :: past) m ∧
      (m₁.frameAt 0).opcode? = some .memoryStore ∧ (m₁.frameAt 0).stack = [-1, 1] ∧
      (m₁.frameAt 0).memory.data[31]? = some 0xff ∧
      (m.frameAt 0).mode = .running ∧ (m.frameAt 0).memory.data[31]? = some 0 ∧
      (m.frameAt 0).memory.data[63]? = some 0xff := by
  intro ctx m₀
  obtain ⟨past, m, h, htest⟩ : ∃ past m, Machine.Visits ctx 0 m₀ past m ∧
      (match past with
        | [] => false
        | m₁ :: _ =>
          decide ((m₁.frameAt 0).opcode? = some .memoryStore ∧ (m₁.frameAt 0).stack = [-1, 1] ∧
            (m₁.frameAt 0).memory.data[31]? = some 0xff ∧ (m.frameAt 0).mode = .running ∧
            (m.frameAt 0).memory.data[31]? = some 0 ∧
            (m.frameAt 0).memory.data[63]? = some 0xff)) = true :=
    Machine.Visits.refl.exists_of_holdsAfter (k := 6) (by decide +kernel)
  split at htest
  · cases htest
  · exact ⟨_, _, m, h, of_decide_eq_true htest⟩

end EvmCore
