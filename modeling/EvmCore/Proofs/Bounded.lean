import EvmCore.Proofs.Budget
import EvmCore.Proofs.Regular
import Mathlib

/-!
# Frames within their bounds

A frame is bounded (`Frame.Bounded`) if its stack holds words only, its memory is no larger than can
be paid for, its byte strings are of a size that is a word, and what it requests is made of words
and names a part of its own memory for the output. A step keeps this (`Steps.bounded`): what an
instruction uses of memory was found and paid for before, so that it lies within the memory when the
instruction runs (`Prepared.within`).
-/

namespace EvmCore

open Word (InRange)

/-! ### What a machine runs under -/

/-- A block whose numbers are words and whose hashes have 32 bytes. -/
structure Block.Regular (block : Block) : Prop where
  gasLimit : InRange block.gasLimit
  number : InRange block.number
  time : InRange block.time
  difficulty : InRange block.difficulty
  baseFee : InRange block.baseFee
  chainId : InRange block.chainId
  hashes : ∀ {number : Int} {hash : ByteArray}, block.hashes[number]? = some hash → hash.size = 32

/-- A contract built into the machine that answers whatever it is given, for a
price that is not negative. -/
structure Precompile.Regular (precompile : Precompile) : Prop where
  cost : ∀ {input output : ByteArray} {gas cost : Int},
    precompile input gas = .ok (output, cost) → 0 ≤ cost
  answers : ∀ {input : ByteArray} {gas : Int}, (input.size : Int) < Word.modulus → InRange gas →
    ∃ output cost, precompile input gas = .ok (output, cost) ∧ (output.size : Int) < Word.modulus

/-- A context that is made of regular parts. -/
structure Context.Regular (ctx : Context) : Prop where
  block : ctx.block.Regular
  gasPrice : InRange ctx.gasPrice
  precompiles : ∀ {a : Address} {precompile : Precompile},
    ctx.precompiles[a]? = some precompile → Precompile.Regular precompile

/-- No number of a regular context is negative. -/
theorem Context.Regular.nonNegative {ctx : Context} (h : ctx.Regular) : ctx.NonNegative where
  gasPrice := h.gasPrice.1
  gasLimit := h.block.gasLimit.1
  number := h.block.number.1
  time := h.block.time.1
  difficulty := h.block.difficulty.1
  baseFee := h.block.baseFee.1
  chainId := h.block.chainId.1
  cost hprecompile houtput := (h.precompiles hprecompile).cost houtput

/-- The hash of a block is a word, also where none is known. -/
theorem Block.Regular.inRange_hash {block : Block} (h : block.Regular) (number : Word) :
    InRange (block.hash number) := by
  unfold Block.hash
  extract_lets oldest
  split
  · split
    · next hash hhash => exact Bytes.inRange_toWord (h.hashes hhash).le
    · exact Word.inRange_zero
  · exact Word.inRange_zero

/-! ### The memory that an instruction uses -/

/-- Whether `length` bytes from `offset` on lie within `size` bytes. None at all lie anywhere. -/
def Memory.Holds (size offset length : Int) : Prop := length = 0 ∨ offset + length ≤ size

/-- A larger memory holds what a smaller one does. -/
theorem Memory.Holds.mono {size size' offset length : Int} (h : Memory.Holds size offset length)
    (hsize : size ≤ size') : Memory.Holds size' offset length :=
  h.imp_right fun hle => hle.trans hsize

/-- A memory that holds a region holds the first bytes of it. -/
theorem Memory.Holds.of_le {size offset length k : Int} (h : Memory.Holds size offset length)
    (hk : 0 ≤ k) (hle : k ≤ length) : Memory.Holds size offset k := by
  unfold Holds at h ⊢
  omega

/-- What an instruction writes lies within `size` bytes of memory. -/
def MemoryUse.Within (stack : Stack) (size : Int) : MemoryUse → Prop
  | .none => True
  | .region offset length => ∀ o l, stack.back offset = .ok o → stack.back length = .ok l →
    Memory.Holds size o l
  | .fixed offset length => ∀ o, stack.back offset = .ok o → Memory.Holds size o length
  | .callRegions input => ∀ o l, stack.back (input + 2) = .ok o → stack.back (input + 3) = .ok l →
    Memory.Holds size o l

/-- What an instruction writes lies within a larger memory too. -/
theorem MemoryUse.Within.mono {use : MemoryUse} {stack : Stack} {size size' : Int}
    (h : use.Within stack size) (hsize : size ≤ size') : use.Within stack size' := by
  cases use with
  | none => trivial
  | region offset length => exact fun o l ho hl => (h o l ho hl).mono hsize
  | fixed offset length => exact fun o ho => (h o ho).mono hsize
  | callRegions input => exact fun o l ho hl => (h o l ho hl).mono hsize

namespace Gas

/-- The size that is found for a region holds it. -/
theorem holds_of_memorySize? {offset length size : Int}
    (h : memorySize? offset length = some size) :
    Memory.Holds size offset length := by
  unfold memorySize? at h
  -- there is no size for a region that is too long or ends too far out
  split at h
  · cases h
  · split at h
    · next hzero => exact .inl hzero
    · split at h
      · cases h
      · split at h
        · cases h
        · exact .inr (Option.some.inj h).le

/-- The number of words is rounded up. -/
theorem le_wordCount_mul (size : Int) : size ≤ wordCount size * 32 := by
  unfold wordCount
  omega

end Gas

/-- The memory size that an instruction asks for holds what it writes. -/
theorem MemoryUse.within_of_size? {use : MemoryUse} {stack : Stack} {size : Int}
    (h : use.size? stack = .ok (some size)) : use.Within stack size := by
  cases use with
  | none => trivial
  | region offset length =>
    intro o l ho hl
    rw [size?, ho, hl] at h
    exact Gas.holds_of_memorySize? (Except.ok.inj h)
  | fixed offset length =>
    intro o ho
    rw [size?, ho] at h
    exact Gas.holds_of_memorySize? (Except.ok.inj h)
  | callRegions input =>
    intro o l ho hl
    rw [size?, ho, hl] at h
    obtain ⟨_, ho', h⟩ := except_bind_ok h
    obtain ⟨_, hl', h⟩ := except_bind_ok h
    cases ho'
    cases hl'
    cases houtput : Gas.memorySize? o l with
    | none =>
      rw [houtput] at h
      cases h
    | some output =>
      rw [houtput] at h
      -- the input is measured too, and the larger of the two ends is asked for
      obtain ⟨_, -, h⟩ := except_bind_ok h
      obtain ⟨_, -, h⟩ := except_bind_ok h
      split at h
      · next input _ =>
        obtain rfl : max output input = size := Option.some.inj (Except.ok.inj h)
        exact (Gas.holds_of_memorySize? houtput).mono (le_max_left output input)
      · cases h

/-! ### Paying for memory -/

/-- The dynamic costs that the growth of memory is a part of. -/
def DynamicCost.grows : DynamicCost → Bool
  | .memory | .perWord _ _ | .log _ | .accountCodeCopy | .call _ => true
  | _ => false

/-- An instruction that uses memory pays for its growth. -/
theorem Opcode.grows_of_memory {op : Opcode} {operation : Operation}
    (h : op.operation? = some operation) :
    operation.memory = .none ∨ operation.dynamic.grows = true := by
  cases op with
  | keccak | copy | accountCodeCopy | memoryLoad | memoryStore | memoryStoreByte | log | «return»
  | revert =>
    obtain rfl := Option.some.inj h
    exact .inr rfl
  | create kind =>
    cases kind <;> (obtain rfl := Option.some.inj h; exact .inr rfl)
  | call kind =>
    cases kind <;> (obtain rfl := Option.some.inj h; exact .inr rfl)
  | binary op =>
    cases op <;> (obtain rfl := Option.some.inj h; exact .inl rfl)
  | invalid => cases h
  | _ =>
    obtain rfl := Option.some.inj h
    exact .inl rfl

namespace Gas

/-- Where memory cannot grow, there is no cost per word. -/
theorem perWordCost_yields_none {frame : Frame} {size price : Int} {length : Nat}
    (h : growth? frame size = none) : Yields (· = none) (perWordCost frame size price length) := by
  unfold perWordCost
  rw [h]
  exact .pure rfl

/-- Where memory cannot grow, no amount of gas is enough. -/
theorem dynamic_yields_none {cost : DynamicCost} {frame : Frame} {size : Int}
    (hcost : cost.grows = true) (h : growth? frame size = none) :
    Yields (· = none) (dynamic cost frame size) := by
  -- each of these costs looks for the growth of memory and gives up without one
  cases cost with
  | memory =>
    unfold dynamic
    rw [h]
    exact .pure rfl
  | perWord price length =>
    refine (perWordCost_yields_none h).bind fun gas? hgas => ?_
    rw [hgas]
    exact .pure rfl
  | log topics =>
    unfold dynamic
    rw [h]
    exact .pure rfl
  | accountCodeCopy =>
    refine (perWordCost_yields_none h).bind fun gas? hgas => ?_
    rw [hgas]
    exact .pure rfl
  | call kind =>
    -- an account is warmed, and maybe looked at, before the memory is
    cases kind with
    | call =>
      refine (Yields.any _).bind fun callee _ => (Yields.any _).bind fun value _ =>
        (Yields.any _).bind fun access _ => ?_
      rw [h]
      refine Yields.ite ?_ ?_
      · exact (Yields.any _).bind fun empty _ => (Yields.any _).bind fun _ _ => .pure rfl
      · exact (Yields.any _).bind fun _ _ => .pure rfl
    | callCode | delegateCall | staticCall =>
      refine (Yields.any _).bind fun callee _ => (Yields.any _).bind fun access _ => ?_
      rw [h]
      exact .pure rfl
  | _ => cases hcost

/-- Memory that is paid for is no larger than can be paid for. -/
theorem growth?_le {frame : Frame} {size gas : Int} (h : growth? frame size = some gas) :
    size ≤ maxMemorySize := by
  unfold growth? expansion? at h
  split at h
  · next hzero =>
    rw [hzero]
    decide
  · split at h
    · cases h
    · next hsize => exact not_lt.mp hsize

end Gas

namespace Frame

/-- Growing the memory changes nothing else. -/
theorem grown_eq (f : Frame) :
    f.grown = { f with memory := f.grown.memory, activeWords := f.grown.activeWords } := by
  unfold grown
  split
  · rfl
  · rfl

/-- The memory grows to the size that was asked for, and never shrinks. -/
theorem size_grown_memory (f : Frame) :
    (f.grown.memory.size : Int) = max (f.memory.size : Int) f.memoryDesired := by
  unfold grown
  split
  · dsimp only
    rw [Memory.size_grow]
    omega
  · omega

end Frame

namespace Prepared

variable {f f₁ : Frame} {s s₁ : State} {op : Opcode} {operation : Operation} {charge : Gas.Charge}

/-- Preparing an instruction pays and grows the memory, and that is all. -/
theorem frame (h : Prepared f s op operation charge f₁ s₁) : ∃ gas memoryDesired memory activeWords,
    f₁ = { f with gas, memoryDesired, memory, activeWords } := by
  obtain ⟨size, s₀, -, -, -, rfl⟩ := h.charged
  exact ⟨_, _, _, _, Frame.grown_eq _⟩

/-- **What an instruction writes lies within the memory** of the frame that runs it. -/
theorem within (h : Prepared f s op operation charge f₁ s₁) :
    operation.memory.Within f.stack f₁.memory.size := by
  obtain ⟨size, s₀, hsize, -, -, rfl⟩ := h.charged
  refine (MemoryUse.within_of_size? hsize).mono ?_
  rw [Frame.size_grown_memory]
  exact (Gas.le_wordCount_mul size).trans (le_max_right _ _)

/-- The memory is no larger than can be paid for. -/
theorem memory_le (h : Prepared f s op operation charge f₁ s₁)
    (hf : (f.memory.size : Int) ≤ Gas.maxMemorySize) :
    (f₁.memory.size : Int) ≤ Gas.maxMemorySize := by
  obtain ⟨size, s₀, hsize, -, hdynamic, rfl⟩ := h.charged
  rw [Frame.size_grown_memory]
  refine max_le hf ?_
  change Gas.wordCount size * 32 ≤ Gas.maxMemorySize
  rcases Opcode.grows_of_memory h.isAt.operation? with hnone | hgrows
  · -- an instruction that uses no memory asks for none
    rw [hnone] at hsize
    obtain rfl : 0 = size := Option.some.inj (Except.ok.inj hsize)
    decide
  · cases hgrowth : Gas.growth? (f.spent operation.constantGas size) (Gas.wordCount size * 32) with
    | none => cases Gas.dynamic_yields_none hgrows hgrowth hdynamic
    | some gas => exact Gas.growth?_le hgrowth

end Prepared

/-! ### Bounded frames -/

/-- A request to call that is made of words and takes the output into `size` bytes of memory. -/
structure CallRequest.Bounded (size : Int) (r : CallRequest) : Prop where
  value : InRange r.value
  returnOffset : 0 ≤ r.returnOffset
  returnSize : 0 ≤ r.returnSize
  holds : Memory.Holds size r.returnOffset r.returnSize

/-- A request to create that is made of words. -/
structure CreateRequest.Bounded (r : CreateRequest) : Prop where
  value : InRange r.value
  salt : ∀ salt ∈ r.salt, InRange salt

/-- A frame that waits has made its request, which is bounded. -/
def Mode.Bounded (size : Int) : Mode → Prop
  | .awaitingCall request => ∃ r, request = some r ∧ r.Bounded size
  | .awaitingCreate request => ∃ r, request = some r ∧ r.Bounded
  | .running | .exited _ => True

/-- What a frame was started with is of a size that is a word. -/
structure Message.Bounded (message : Message) : Prop where
  value : InRange message.value
  code : (message.code.bytes.size : Int) < Word.modulus
  input : (message.input.size : Int) < Word.modulus

/-- **The bounds that a frame keeps to**, whether it runs, waits or has ended. -/
structure Frame.Bounded (f : Frame) : Prop where
  message : f.message.Bounded
  stack : ∀ w ∈ f.stack, InRange w
  memory : (f.memory.size : Int) ≤ Gas.maxMemorySize
  returnData : (f.returnData.size : Int) < Word.modulus
  output : (f.output.size : Int) < Word.modulus
  mode : f.mode.Bounded f.memory.size

/-- The largest memory is smaller than the number of words. -/
theorem Gas.maxMemorySize_lt : maxMemorySize < Word.modulus := by decide

/-- What is read from a memory that is paid for. -/
theorem Memory.size_read_lt {m : Memory} (h : (m.size : Int) ≤ Gas.maxMemorySize)
    (offset size : Int) :
    ((m.read offset size).size : Int) < Word.modulus := by
  have hread : ((m.read offset size).size : Int) ≤ m.size :=
    Int.ofNat_le.mpr (m.size_read_le offset size)
  exact (hread.trans h).trans_lt Gas.maxMemorySize_lt

/-- Writing to a part that a memory holds leaves its size alone. -/
theorem Memory.size_overwrite_of_holds {m : Memory} {offset : Int} {data : ByteArray}
    (hoffset : 0 ≤ offset) (h : Memory.Holds m.size offset data.size) :
    (m.overwrite offset data).size = m.size :=
  size_overwrite hoffset (checkWrite_ok_iff.mpr (h.imp_left Int.ofNat_eq_zero.mp))

namespace Frame.Bounded

variable {f : Frame} {stack rest : Stack} {w : Word} {memory : Memory}

theorem next (h : f.Bounded) (hstack : ∀ w ∈ stack, InRange w) : (f.next stack).Bounded :=
  ⟨h.message, hstack, h.memory, h.returnData, h.output, h.mode⟩

/-- The next instruction, with a word on top of what is left of the stack. -/
theorem next_cons (h : f.Bounded) (hw : InRange w) (hrest : ∀ w ∈ rest, InRange w) :
    (f.next (w :: rest)).Bounded :=
  h.next (List.forall_mem_cons.mpr ⟨hw, hrest⟩)

theorem withMemory (h : f.Bounded) (hsize : memory.size = f.memory.size) :
    { f with memory : Frame }.Bounded := by
  refine ⟨h.message, h.stack, ?_, h.returnData, h.output, ?_⟩
  · exact hsize ▸ h.memory
  · change f.mode.Bounded memory.size
    exact hsize ▸ h.mode

/-- A frame that has ended and holds no request. -/
theorem exited (h : f.Bounded) (hstack : ∀ w ∈ stack, InRange w) {output : ByteArray}
    (houtput : (output.size : Int) < Word.modulus) (exit : Exit) :
    { f with stack, output, mode := .exited exit : Frame }.Bounded :=
  ⟨h.message, hstack, h.memory, h.returnData, houtput, trivial⟩

/-- What a frame waits for is bounded, for a call. -/
theorem callRequest {r : CallRequest} (h : f.Bounded) (hmode : f.mode = .awaitingCall (some r)) :
    r.Bounded f.memory.size := by
  have hbounded := h.mode
  rw [hmode] at hbounded
  obtain ⟨_, hr, hbounded⟩ := hbounded
  cases hr
  exact hbounded

/-- And for a creation. -/
theorem createRequest {r : CreateRequest} (h : f.Bounded)
    (hmode : f.mode = .awaitingCreate (some r)) :
    r.Bounded := by
  have hbounded := h.mode
  rw [hmode] at hbounded
  obtain ⟨_, hr, hbounded⟩ := hbounded
  cases hr
  exact hbounded

end Frame.Bounded

/-- What an instruction pushes from the frame, the transaction or the block is a word. -/
theorem Step.environment_inRange {ctx : Context} (hctx : ctx.Regular) {f : Frame} (hf : f.Bounded)
    {item : Environment} (hpc : item = .pc → InRange f.pc) (hgas : InRange f.gas) :
    InRange (environment ctx f item) := by
  cases item with
  | address | origin | caller | coinbase => exact Address.inRange_toWord _
  | callValue => exact hf.message.value
  | callDataSize => exact ⟨Int.natCast_nonneg _, hf.message.input⟩
  | codeSize => exact ⟨Int.natCast_nonneg _, hf.message.code⟩
  | returnDataSize => exact ⟨Int.natCast_nonneg _, hf.returnData⟩
  | memorySize => exact ⟨Int.natCast_nonneg _, hf.memory.trans_lt Gas.maxMemorySize_lt⟩
  | gasPrice => exact hctx.gasPrice
  | timestamp => exact hctx.block.time
  | number => exact hctx.block.number
  | difficulty => exact hctx.block.difficulty
  | gasLimit => exact hctx.block.gasLimit
  | chainId => exact hctx.block.chainId
  | baseFee => exact hctx.block.baseFee
  | pc => exact hpc rfl
  | gas => exact hgas

/-- A call takes its output into the part of memory that was found for it. -/
theorem Step.callRequest_bounded {kind : CallKind} {operation : Operation} {f : Frame}
    {forwarded : Int} {r : CallRequest} (hf : f.Bounded)
    (hop : (Opcode.call kind).operation? = some operation)
    (hwithin : operation.memory.Within f.stack f.memory.size)
    (h : callRequest kind f forwarded = .ok r) :
    r.Bounded f.memory.size := by
  obtain ⟨-, -, hoffset, hsize, hkind⟩ := callRequest_cases h
  -- the value is taken from the stack, is zero, or is the one the caller was given
  have hvalue : InRange r.value := by
    obtain ⟨-, hvalue, -⟩ | ⟨-, hvalue, -⟩ := hkind
    · exact hf.stack _ (Stack.mem_of_back hvalue)
    · rw [hvalue]
      split
      · exact Word.inRange_zero
      · exact hf.message.value
  have hregion : operation.memory = .callRegions (callOperands kind - 4) := by
    cases kind <;> (obtain rfl := Option.some.inj hop; rfl)
  have hholds : Memory.Holds f.memory.size r.returnOffset r.returnSize := by
    rw [hregion] at hwithin
    refine hwithin _ _ ?_ ?_
    · cases kind <;> exact hoffset
    · cases kind <;> exact hsize
  exact ⟨hvalue, (hf.stack _ (Stack.mem_of_back hoffset)).1,
    (hf.stack _ (Stack.mem_of_back hsize)).1, hholds⟩

/-- Bytes copied with zeros past their end fill just the part of memory that was found for them,
wherever they come from. -/
theorem CopiesPadded.size_eq {bytes : ByteArray} {memoryOffset offset length : Int} {m m' : Memory}
    (h : CopiesPadded bytes memoryOffset offset length m m') (hmemory : 0 ≤ memoryOffset)
    (hlength : 0 ≤ length) (hholds : Memory.Holds m.size memoryOffset length) :
    m'.size = m.size := by
  unfold CopiesPadded at h
  split at h
  · obtain ⟨data, hdata, rfl⟩ := h
    refine Memory.size_overwrite_of_holds hmemory ?_
    rw [Bytes.size_of_padSlice? hlength hdata]
    exact hholds
  · rw [h]

/-- **Instructions keep a frame within its bounds.** -/
theorem Executes.bounded {ctx : Context} {forwarded : Int} {op : Opcode} {operation : Operation}
    {f f' : Frame} {s s' : State} (h : Executes ctx forwarded op f s f' s')
    (hop : op.operation? = some operation) (hctx : ctx.Regular) (hview : s.view.Regular)
    (hf : f.Bounded) (hwithin : operation.memory.Within f.stack f.memory.size)
    (hpc : op = .environment .pc → InRange f.pc) (hgas : InRange f.gas) : f'.Bounded := by
  -- by the kind of instruction: what it pushes is a word, what it writes was paid for
  cases h with
  -- arithmetic
  | unary hstack =>
    obtain ⟨hx, hrest⟩ := Stack.forall_of_cons hf.stack hstack
    exact hf.next_cons (Unary.eval_inRange _ hx) hrest
  | binary hstack _ =>
    obtain ⟨hx, hy, hrest⟩ := Stack.forall_of_cons_cons hf.stack hstack
    exact hf.next_cons (Binary.eval_inRange _ hx hy) hrest
  | ternary hstack =>
    obtain ⟨-, -, hz, hrest⟩ := Stack.forall_of_cons_cons_cons hf.stack hstack
    exact hf.next_cons (Ternary.eval_inRange _ _ _ hz) hrest
  -- at most 32 bytes, read as a word
  | keccak hstack =>
    obtain ⟨-, -, hrest⟩ := Stack.forall_of_cons_cons hf.stack hstack
    exact hf.next_cons (Bytes.inRange_toWord (Keccak.size_hash _).le) hrest
  | callDataLoad hstack =>
    obtain ⟨-, hrest⟩ := Stack.forall_of_cons hf.stack hstack
    exact hf.next_cons (Bytes.inRange_toWord (Bytes.size_padSlice _ _ 32).le) hrest
  | memoryLoad hstack =>
    obtain ⟨-, hrest⟩ := Stack.forall_of_cons hf.stack hstack
    exact hf.next_cons (Bytes.inRange_toWord (Memory.size_readWord_le _ _)) hrest
  | @push n _ _ =>
    have hsize : (Bytes.padSlice f.message.code.bytes (f.pc + 1) (n.val + 1)).size ≤ 32 :=
      (Bytes.size_padSlice _ _ _).trans_le n.isLt
    exact ⟨hf.message, List.forall_mem_cons.mpr ⟨Bytes.inRange_toWord hsize, hf.stack⟩, hf.memory,
      hf.returnData, hf.output, hf.mode⟩
  -- what the context and the accounts hold
  | environment =>
    refine hf.next_cons (Step.environment_inRange hctx hf (fun hitem => ?_) hgas) hf.stack
    exact hpc (congrArg Opcode.environment hitem)
  | blockHash hstack =>
    exact hf.next_cons (hctx.block.inRange_hash _) (Stack.forall_of_cons hf.stack hstack).2
  | account hstack _ =>
    exact hf.next_cons (hview.inRange_query _ _) (Stack.forall_of_cons hf.stack hstack).2
  | selfBalance _ => exact hf.next_cons (hview.inRange_balance _) hf.stack
  | storageLoad hstack _ =>
    exact hf.next_cons ((hview.accounts _).storage _) (Stack.forall_of_cons hf.stack hstack).2
  -- words that were on the stack before
  | pop hstack => exact hf.next (Stack.forall_of_cons hf.stack hstack).2
  | dup hstack => exact hf.next fun w hw => hf.stack w (Stack.mem_of_mem_dup hstack hw)
  | swap hstack => exact hf.next fun w hw => hf.stack w (Stack.mem_of_mem_swap hstack hw)
  | jumpDest => exact hf.next hf.stack
  | jumpIfSkipped hstack => exact hf.next (Stack.forall_of_cons_cons hf.stack hstack).2.2
  | storageStore hstack _ _ => exact hf.next (Stack.forall_of_cons_cons hf.stack hstack).2.2
  | log hstack _ _ _ _ =>
    obtain ⟨-, -, hrest⟩ := Stack.forall_of_cons_cons hf.stack hstack
    exact hf.next fun w hw => hrest w (List.mem_append_right _ hw)
  | jump hstack _ =>
    exact ⟨hf.message, (Stack.forall_of_cons hf.stack hstack).2, hf.memory, hf.returnData,
      hf.output, hf.mode⟩
  | jumpIfTaken hstack _ _ =>
    exact ⟨hf.message, (Stack.forall_of_cons_cons hf.stack hstack).2.2, hf.memory,
      hf.returnData, hf.output, hf.mode⟩
  -- memory is written where it was found
  | copy hstack _ hcopies =>
    obtain ⟨hmemory, -, hlength, hrest⟩ := Stack.forall_of_cons_cons_cons hf.stack hstack
    obtain rfl := Option.some.inj hop
    have hholds := hwithin _ _ (by rw [hstack]; rfl) (by rw [hstack]; rfl)
    exact (hf.next hrest).withMemory (hcopies.size_eq hmemory.1 hlength.1 hholds)
  | copyReturnData hstack hsize =>
    obtain ⟨hmemory, hoffset, hlength, hrest⟩ := Stack.forall_of_cons_cons_cons hf.stack hstack
    obtain rfl := Option.some.inj hop
    have hholds := hwithin _ _ (by rw [hstack]; rfl) (by rw [hstack]; rfl)
    refine (hf.next hrest).withMemory (Memory.size_overwrite_of_holds hmemory.1 ?_)
    rw [Bytes.size_slice_of_le hoffset.1 hlength.1 hsize]
    exact hholds
  | accountCodeCopy hstack _ hcopies =>
    obtain ⟨-, hmemory, -, hrest⟩ := Stack.forall_of_cons_cons_cons hf.stack hstack
    obtain ⟨hlength, hrest⟩ := List.forall_mem_cons.mp hrest
    obtain rfl := Option.some.inj hop
    have hholds := hwithin _ _ (by rw [hstack]; rfl) (by rw [hstack]; rfl)
    exact (hf.next hrest).withMemory (hcopies.size_eq hmemory.1 hlength.1 hholds)
  | memoryStore hstack hdata =>
    obtain ⟨hoffset, -, hrest⟩ := Stack.forall_of_cons_cons hf.stack hstack
    obtain rfl := Option.some.inj hop
    have hholds := hwithin _ (by rw [hstack]; rfl)
    refine (hf.next hrest).withMemory (Memory.size_overwrite_of_holds hoffset.1 ?_)
    rw [Bytes.size_of_ofWord? hdata]
    exact hholds
  | memoryStoreByte hstack _ =>
    obtain ⟨-, -, hrest⟩ := Stack.forall_of_cons_cons hf.stack hstack
    exact (hf.next hrest).withMemory (Memory.size_setByte _ _ _)
  -- requests
  | create hstack _ =>
    obtain ⟨hvalue, -, -, hrest⟩ := Stack.forall_of_cons_cons_cons hf.stack hstack
    refine ⟨hf.message, fun w hw => hrest w (List.mem_append_right _ hw), hf.memory,
      hf.returnData, hf.output, _, rfl, hvalue, fun salt hsalt =>
        hrest salt (List.mem_append_left _ ?_)⟩
    exact Option.mem_toList.mpr hsalt
  | call hrequest =>
    have hbounded := Step.callRequest_bounded hf hop hwithin hrequest
    exact ⟨hf.message, fun w hw => hf.stack w (Stack.mem_of_mem_discard hw), hf.memory,
      hf.returnData, hf.output, _, rfl, hbounded⟩
  -- the end of the frame
  | stop => exact hf.exited hf.stack hf.output _
  | «return» hstack =>
    exact hf.exited (Stack.forall_of_cons_cons hf.stack hstack).2.2
      (Memory.size_read_lt hf.memory _ _) _
  | revert hstack =>
    exact hf.exited (Stack.forall_of_cons_cons hf.stack hstack).2.2
      (Memory.size_read_lt hf.memory _ _) _
  | selfDestruct hstack _ _ =>
    exact hf.exited (Stack.forall_of_cons hf.stack hstack).2 hf.output _

/-! ### Steps -/

/-- An instruction other than `STOP` lies within the code. -/
theorem Frame.IsAt.pc_lt {f : Frame} {op : Opcode} {operation : Operation} (h : f.IsAt op operation)
    (hpc : 0 ≤ f.pc) (hop : op ≠ .stop) : f.pc < f.message.code.bytes.size := by
  obtain ⟨byte, hfetch, hlookup⟩ := h
  by_contra hlarge
  -- beyond the code every byte reads as `STOP`
  have hbyte : byte = 0 := by
    rw [fetch?_of_nonneg _ hpc, opAt, dif_neg (by omega)] at hfetch
    exact (Option.some.inj hfetch).symm
  rw [hbyte] at hlookup
  have hstop : lookup 0 = some (.stop, ⟨0, 0, 0, .none, .none, false⟩) := lookup_eq 0
  rw [hstop] at hlookup
  exact hop (Prod.mk.inj (Option.some.inj hlookup)).1.symm

/-- Preparing an instruction keeps a frame that runs within its bounds. -/
theorem Prepared.bounded {f f₁ : Frame} {s s₁ : State} {op : Opcode} {operation : Operation}
    {charge : Gas.Charge} (h : Prepared f s op operation charge f₁ s₁) (hf : f.Bounded)
    (hmode : f.mode = .running) : f₁.Bounded := by
  have hmemory := h.memory_le hf.memory
  obtain ⟨gas, memoryDesired, memory, activeWords, rfl⟩ := h.frame
  -- while the frame runs it holds no request that the memory would have to fit
  refine ⟨hf.message, hf.stack, hmemory, hf.returnData, hf.output, ?_⟩
  change f.mode.Bounded memory.size
  rw [hmode]
  trivial

/-- **A step keeps a frame within its bounds**, whether it fails or not. -/
theorem Steps.bounded {ctx : Context} {f f' : Frame} {s s' : State} (h : Steps ctx f s f' s')
    (hctx : ctx.Regular) (hview : s.view.Regular) (hf : f.Bounded) (hnonneg : f.NonNegative)
    (hgas : f.gas < Word.modulus) (hmode : f.mode = .running) : f'.Bounded := by
  cases h with
  | unprepared e hunprepared =>
    obtain ⟨gas, memoryDesired, rfl⟩ := hunprepared.frame
    exact ⟨hf.message, hf.stack, hf.memory, hf.returnData, hf.output, trivial⟩
  | failed e hprepared huntouched =>
    have hf₁ := hprepared.bounded hf hmode
    obtain ⟨stack, hsuffix, hframe⟩ := huntouched.frame
    dsimp only at hframe hsuffix
    subst hframe
    exact ⟨hf₁.message, fun w hw => hf₁.stack w (hsuffix.subset hw), hf₁.memory, hf₁.returnData,
      hf₁.output, trivial⟩
  | @executed op operation charge f₁ _ s₁ _ hprepared hexecutes =>
    have hop := hprepared.isAt.operation?
    have hview₁ : s₁.view.Regular := hprepared.quiet.view_eq ▸ hview
    have hwithin : operation.memory.Within f₁.stack f₁.memory.size :=
      hprepared.stack ▸ hprepared.within
    have hnonneg₁ : f₁.NonNegative := hprepared.nonNegative hnonneg
    -- what is paid is not negative, so the gas has not grown
    have hgas₁ : f₁.gas ≤ f.gas := by
      have hpaid := hprepared.gas_add_le hnonneg
      have hforwarded := (hprepared.covers hnonneg).forwarded
      have hconstant := (Opcode.operation_nonneg hop).1
      have hleast := operation.dynamic.least_nonneg f.stack
      omega
    have hpc : op = .environment .pc → InRange f₁.pc := by
      intro hop
      have hlt : f.pc < f.message.code.bytes.size := hprepared.isAt.pc_lt hnonneg.pc (by simp [hop])
      exact ⟨hnonneg₁.pc, hprepared.pc ▸ hlt.trans hf.message.code⟩
    exact hexecutes.bounded hop hctx hview₁ (hprepared.bounded hf hmode) hwithin hpc
      ⟨hnonneg₁.gas, hgas₁.trans_lt hgas⟩

end EvmCore
