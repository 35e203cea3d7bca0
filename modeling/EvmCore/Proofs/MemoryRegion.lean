import EvmCore.Proofs.Bounded
import EvmCore.Proofs.Recursion
import Mathlib

/-!
# The memory that instructions read and write

An instruction that uses memory has the places of its regions among its operands (`Opcode.extents`).
Where none of these is negative, all that is read or written lies within the memory as it was grown
for the instruction. What is written is given by `Opcode.write?`, byte by byte and without the
memory it is written to: `Executes.writes` says that an instruction changes the memory by just that.

A negative offset counts back from the end, so that nothing of this holds of it.
-/

namespace EvmCore

/-! ### Bytes of slices and numbers -/

namespace Bytes

variable {b data : ByteArray} {start size : Int} {i : Nat}

/-- The bytes of a slice, one by one. -/
theorem getElem?_slice (hstart : 0 ≤ start) (hsize : 0 ≤ size) (i : Nat) :
    (slice b start (start + size)).data[i]? =
      if i < size.toNat then b.data[start.toNat + i]? else none := by
  obtain ⟨n, rfl⟩ := Int.eq_ofNat_of_zero_le hstart
  obtain ⟨k, rfl⟩ := Int.eq_ofNat_of_zero_le hsize
  have hfirst : position b.size (n : Int) = min n b.size := by
    rw [position_of_nonneg hstart, Int.toNat_natCast]
  have hlast : position b.size ((n : Int) + k) = min (n + k) b.size := by
    rw [position_of_nonneg (Int.add_nonneg hstart hsize)]
    omega
  rw [slice, hfirst, hlast, ByteArray.data_extract, Array.getElem?_extract, Int.toNat_natCast,
    Int.toNat_natCast, ByteArray.size_data]
  -- past the end of `b` there is nothing on either side
  by_cases hi : n + i < b.size
  · rw [Nat.min_eq_left (by omega : n ≤ b.size)]
    refine ite_congr (propext ?_) (fun _ => rfl) fun _ => rfl
    omega
  · rw [if_neg (by omega), Array.getElem?_eq_none (by rw [ByteArray.size_data]; omega), ite_self]

/-- What is copied with zeros past the end of its source. -/
theorem getElem?_of_padSlice? (h : padSlice? b start size = .ok data) (hstart : 0 ≤ start)
    (hsize : 0 ≤ size) (hi : i < size.toNat) :
    data.data[i]? = some (b.data[start.toNat + i]?.getD 0) := by
  have hdata := size_of_padSlice? hsize h
  obtain ⟨n, -, h⟩ := except_bind_ok h
  cases h
  have hslice := getElem?_slice (b := b) hstart hsize i
  rw [if_pos hi] at hslice
  rw [ByteArray.size_append, size_zeros] at hdata
  rw [ByteArray.data_append, Array.getElem?_append, ByteArray.size_data, hslice]
  -- the byte is one of the slice, or one of the zeros that follow it
  split
  · next hlt =>
    rw [← ByteArray.size_data] at hlt
    rw [Array.getElem?_eq_getElem hlt] at hslice
    rw [← hslice]
    rfl
  · next hge =>
    rw [← ByteArray.size_data] at hge
    rw [Array.getElem?_eq_none (not_lt.mp hge)] at hslice
    rw [← hslice, zeros, Array.getElem?_replicate,
      if_pos (by rw [ByteArray.size_data] at hge; omega)]
    rfl

/-- The digits of a number in base 256, the most significant first. -/
theorem getElem?_ofNat (n : Nat) {k : Nat} (hi : i < k) :
    (ofNat k n).data[i]? = some (UInt8.ofNat (n / 256 ^ (k - 1 - i))) := by
  -- by induction on the number of digits, the last of which is split off
  induction k generalizing n with
  | zero => exact absurd hi (Nat.not_lt_zero i)
  | succ k ih =>
    rw [ofNat, ByteArray.data_push, Array.getElem?_push, ByteArray.size_data, size_ofNat]
    split
    · next heq =>
      rw [heq, Nat.add_sub_cancel, Nat.sub_self, pow_zero, Nat.div_one, UInt8.ofNat_mod_size]
    · next hne =>
      rw [ih (n / 256) (by omega), Nat.div_div_eq_div_mul, ← pow_succ',
        show k - 1 - i + 1 = k + 1 - 1 - i by omega]

end Bytes

/-! ### Writing -/

/-- Bytes that are written to memory. -/
structure Memory.Write where
  offset : Nat
  size : Nat
  byte : Nat → UInt8

/-- `m` becomes `m'` by writing: the bytes that are written lie within, and no others change. -/
structure Memory.Write.Applies (w : Memory.Write) (m m' : Memory) : Prop where
  size_eq : m'.size = m.size
  within : w.size = 0 ∨ w.offset + w.size ≤ m.size
  bytes : ∀ i, m'.data[i]? =
    if w.offset ≤ i ∧ i < w.offset + w.size then some (w.byte (i - w.offset)) else m.data[i]?

namespace Memory.Write

variable {w : Memory.Write} {m : Memory} {data : ByteArray} {offset : Int}

/-- **Overwriting bytes** that lie within memory writes just these. -/
theorem applies_overwrite (hoffset : 0 ≤ offset) (hto : w.offset = offset.toNat)
    (hsize : data.size = w.size) (hbytes : ∀ i < w.size, data.data[i]? = some (w.byte i))
    (hholds : Memory.Holds m.size offset data.size) :
    w.Applies m (m.overwrite offset data) := by
  have hcheck : m.checkWrite offset data.size = .ok () :=
    checkWrite_ok_iff.mpr (hholds.imp_left Int.ofNat_eq_zero.mp)
  refine ⟨size_overwrite hoffset hcheck, ?_, fun i => ?_⟩
  · obtain hzero | hle := hholds
    · exact .inl (hsize ▸ Int.ofNat_eq_zero.mp hzero)
    · right
      omega
  · -- a byte within the region is the one that was written there, and any other is what it was
    rw [getElem?_overwrite hoffset hcheck]
    by_cases hi : w.offset ≤ i ∧ i < w.offset + w.size
    · rw [if_pos hi, if_pos (by omega), ← hbytes _ (by omega)]
      congr 1
      omega
    · rw [if_neg hi, if_neg (by omega)]

/-- Setting a byte writes just this one. -/
theorem applies_setByte {v : UInt8} {i : Nat} (hi : i < m.size) :
    Applies ⟨i, 1, fun _ => v⟩ m (m.setByte i v) := by
  refine ⟨size_setByte m i v, .inr hi, fun j => ?_⟩
  rw [setByte, dif_pos hi]
  change (m.data.set i v hi)[j]? = _
  rw [Array.getElem?_set]
  refine ite_congr (propext ?_) (fun _ => rfl) fun _ => rfl
  dsimp only
  omega

end Memory.Write

namespace Opcode

/-- What an instruction writes to memory: a word as 32 bytes, the lowest byte of a word, or bytes
that it copies, with zeros past their end. -/
def write? (op : Opcode) (f : Frame) (v : View) : Option Memory.Write :=
  match op, f.stack with
  | .memoryStore, offset :: value :: _ =>
    some ⟨offset.toNat, 32, fun i => UInt8.ofNat (value.toNat / 256 ^ (31 - i))⟩
  | .memoryStoreByte, offset :: value :: _ =>
    some ⟨offset.toNat, 1, fun _ => UInt8.ofNat (value % 256).toNat⟩
  | .copy source, memoryOffset :: offset :: length :: _ =>
    some ⟨memoryOffset.toNat, length.toNat,
      fun i => (f.copySource source).data[offset.toNat + i]?.getD 0⟩
  | .accountCodeCopy, a :: memoryOffset :: offset :: length :: _ =>
    some ⟨memoryOffset.toNat, length.toNat,
      fun i => (v.get (Address.ofWord a)).code.data[offset.toNat + i]?.getD 0⟩
  | _, _ => none

/-- The places of the operands that say which bytes of memory an instruction uses, or
which bytes it copies there. -/
def extents : Opcode → List Nat
  | .keccak | .return | .revert | .log _ => [0, 1]
  | .copy _ => [0, 1, 2]
  | .accountCodeCopy => [1, 2, 3]
  | .memoryLoad | .memoryStore | .memoryStoreByte => [0]
  | .create _ => [1, 2]
  | .call .call | .call .callCode => [3, 4, 5, 6]
  | .call .delegateCall | .call .staticCall => [2, 3, 4, 5]
  | _ => []

/-- None of the offsets and sizes that an instruction finds on the stack is negative. -/
def NaturalOn (op : Opcode) (stack : Stack) : Prop :=
  ∀ i ∈ op.extents, ∀ w, stack.back i = .ok w → 0 ≤ w

/-- Where no word on the stack is negative, no extent is. -/
theorem naturalOn_of_nonneg {stack : Stack} (h : ∀ w ∈ stack, 0 ≤ w) (op : Opcode) :
    op.NaturalOn stack :=
  fun _ _ w hw => h w (Stack.mem_of_back hw)

/-- The places of the operands that say which bytes of memory an instruction uses. Where the bytes
that it copies come from is not one of them. -/
def regions : Opcode → List Nat
  | .copy _ => [0, 2]
  | .accountCodeCopy => [1, 3]
  | op => op.extents

/-- None of the offsets and sizes in memory that an instruction finds on the stack is negative. -/
def NaturalRegionsOn (op : Opcode) (stack : Stack) : Prop :=
  ∀ i ∈ op.regions, ∀ w, stack.back i = .ok w → 0 ≤ w

/-- What says which bytes of memory are used is among the extents. -/
theorem mem_extents_of_mem_regions {op : Opcode} {i : Nat} (h : i ∈ op.regions) :
    i ∈ op.extents := by
  -- only the copies have an operand more
  cases op with
  | copy source | accountCodeCopy =>
    rw [regions, List.mem_pair] at h
    obtain rfl | rfl := h
    · simp [extents]
    · simp [extents]
  | _ => exact h

/-- Natural extents are natural regions. -/
theorem NaturalOn.naturalRegionsOn {op : Opcode} {stack : Stack} (h : op.NaturalOn stack) :
    op.NaturalRegionsOn stack :=
  fun i hi => h i (mem_extents_of_mem_regions hi)

end Opcode

/-- Bytes copied with zeros past their end. -/
theorem CopiesPadded.applies {bytes : ByteArray} {memoryOffset offset length : Int} {m m' : Memory}
    (h : CopiesPadded bytes memoryOffset offset length m m') (hmemory : 0 ≤ memoryOffset)
    (hoffset : 0 ≤ offset) (hlength : 0 ≤ length)
    (hholds : Memory.Holds m.size memoryOffset length) : Memory.Write.Applies
      ⟨memoryOffset.toNat, length.toNat, fun i => bytes.data[offset.toNat + i]?.getD 0⟩ m m' := by
  unfold CopiesPadded at h
  split at h
  · obtain ⟨data, hdata, rfl⟩ := h
    have hsize := Bytes.size_of_padSlice? hlength hdata
    refine Memory.Write.applies_overwrite hmemory rfl (by dsimp only; omega) (fun i hi => ?_)
      (hsize.symm ▸ hholds)
    exact Bytes.getElem?_of_padSlice? hdata hoffset hlength hi
  · next hnone =>
    -- a copy of no bytes writes none, wherever it is to go
    subst h
    refine ⟨rfl, .inl (by dsimp only; omega), fun i => ?_⟩
    rw [if_neg (by dsimp only; omega)]

/-- Bytes copied exactly. -/
theorem Memory.Write.applies_slice {bytes : ByteArray} {memoryOffset offset length : Int}
    {m : Memory} (hmemory : 0 ≤ memoryOffset) (hoffset : 0 ≤ offset) (hlength : 0 ≤ length)
    (hle : offset + length ≤ bytes.size) (hholds : Memory.Holds m.size memoryOffset length) :
    Memory.Write.Applies
      ⟨memoryOffset.toNat, length.toNat, fun i => bytes.data[offset.toNat + i]?.getD 0⟩ m
      (m.overwrite memoryOffset (Bytes.slice bytes offset (offset + length))) := by
  have hsize := Bytes.size_slice_of_le hoffset hlength hle
  refine Memory.Write.applies_overwrite hmemory rfl (by dsimp only; omega) (fun i hi => ?_)
    (hsize.symm ▸ hholds)
  -- the slice ends within its source, so no zero follows it
  dsimp only at hi ⊢
  rw [Bytes.getElem?_slice hoffset hlength, if_pos hi]
  have hlt : offset.toNat + i < bytes.data.size := by
    rw [ByteArray.size_data]
    omega
  rw [Array.getElem?_eq_getElem hlt]
  rfl

/-- **What an instruction writes.** -/
theorem Executes.writes {ctx : Context} {forwarded : Int} {op : Opcode} {operation : Operation}
    {f f' : Frame} {s s' : State} (h : Executes ctx forwarded op f s f' s')
    (hop : op.operation? = some operation) (hwithin : operation.memory.Within f.stack f.memory.size)
    (hnatural : op.NaturalOn f.stack) :
    match op.write? f s.view with
    | none => f'.memory = f.memory
    | some w => w.Applies f.memory f'.memory := by
  -- one case for each instruction that writes, with its operands read off the stack
  cases h with
  | @copy source _ _ memoryOffset offset length rest memory hstack hsource hcopies =>
    obtain rfl := Option.some.inj hop
    rw [Opcode.NaturalOn, hstack] at hnatural
    rw [MemoryUse.Within, hstack] at hwithin
    simp only [Opcode.write?, hstack]
    exact hcopies.applies (hnatural 0 (by simp [Opcode.extents]) _ rfl)
      (hnatural 1 (by simp [Opcode.extents]) _ rfl) (hnatural 2 (by simp [Opcode.extents]) _ rfl)
        (hwithin _ _ rfl rfl)
  | @copyReturnData _ _ memoryOffset offset length rest hstack hsize =>
    obtain rfl := Option.some.inj hop
    rw [Opcode.NaturalOn, hstack] at hnatural
    rw [MemoryUse.Within, hstack] at hwithin
    simp only [Opcode.write?, hstack]
    exact Memory.Write.applies_slice (hnatural 0 (by simp [Opcode.extents]) _ rfl)
      (hnatural 1 (by simp [Opcode.extents]) _ rfl)
        (hnatural 2 (by simp [Opcode.extents]) _ rfl) hsize
      (hwithin _ _ rfl rfl)
  | @accountCodeCopy _ _ _ a memoryOffset offset length rest memory hstack _ hcopies =>
    obtain rfl := Option.some.inj hop
    rw [Opcode.NaturalOn, hstack] at hnatural
    rw [MemoryUse.Within, hstack] at hwithin
    simp only [Opcode.write?, hstack]
    exact hcopies.applies (hnatural 1 (by simp [Opcode.extents]) _ rfl)
      (hnatural 2 (by simp [Opcode.extents]) _ rfl) (hnatural 3 (by simp [Opcode.extents]) _ rfl)
        (hwithin _ _ rfl rfl)
  | @memoryStore _ _ offset v rest data hstack hdata =>
    obtain rfl := Option.some.inj hop
    rw [Opcode.NaturalOn, hstack] at hnatural
    rw [MemoryUse.Within, hstack] at hwithin
    simp only [Opcode.write?, hstack]
    have hsize := Bytes.size_of_ofWord? hdata
    refine Memory.Write.applies_overwrite (hnatural 0 (by simp [Opcode.extents]) _ rfl) rfl hsize
      (fun i hi => ?_) (hsize.symm ▸ hwithin _ rfl)
    -- a word that was written fits into 32 bytes
    rw [Bytes.ofWord?] at hdata
    split at hdata
    · obtain rfl := Option.some.inj hdata
      have hbyte := Bytes.getElem?_ofNat (k := 32) v.toNat hi
      rw [show 32 - 1 = 31 from rfl] at hbyte
      exact hbyte
    · cases hdata
  | @memoryStoreByte _ _ offset v rest i hstack hindex =>
    rw [Opcode.NaturalOn, hstack] at hnatural
    simp only [Opcode.write?, hstack]
    have hoffset : (0 : Int) ≤ offset := hnatural 0 (by simp [Opcode.extents]) _ rfl
    -- only a negative offset is counted from the end
    rw [Memory.byteIndex, if_neg (not_lt.mpr hoffset)] at hindex
    split at hindex
    · next hbounds =>
      cases hindex
      exact Memory.Write.applies_setByte (by omega)
    · cases hindex
  | _ => rfl

/-- **An instruction does not change the size of memory**, which was grown for it. -/
theorem Executes.size_eq {ctx : Context} {forwarded : Int} {op : Opcode} {operation : Operation}
    {f f' : Frame} {s s' : State} (h : Executes ctx forwarded op f s f' s')
    (hop : op.operation? = some operation) (hwithin : operation.memory.Within f.stack f.memory.size)
    (hnatural : op.NaturalRegionsOn f.stack) :
    f'.memory.size = f.memory.size := by
  rw [Opcode.NaturalRegionsOn] at hnatural
  cases h with
  | copy hstack _ hcopies =>
    obtain rfl := Option.some.inj hop
    rw [hstack] at hnatural
    rw [MemoryUse.Within, hstack] at hwithin
    exact hcopies.size_eq (hnatural 0 (by simp [Opcode.regions]) _ rfl)
      (hnatural 2 (by simp [Opcode.regions]) _ rfl) (hwithin _ _ rfl rfl)
  | @copyReturnData _ _ memoryOffset offset length rest hstack hsize =>
    obtain rfl := Option.some.inj hop
    rw [hstack] at hnatural
    rw [MemoryUse.Within, hstack] at hwithin
    -- what comes from before the end may be shorter, never longer
    have hle := Bytes.size_slice_le_of_nonneg f.returnData offset
      (hnatural 2 (by simp [Opcode.regions]) length rfl)
    refine Memory.size_overwrite_of_holds (hnatural 0 (by simp [Opcode.regions]) _ rfl) ?_
    exact (hwithin _ _ rfl rfl).of_le (Int.natCast_nonneg _) hle
  | accountCodeCopy hstack _ hcopies =>
    obtain rfl := Option.some.inj hop
    rw [hstack] at hnatural
    rw [MemoryUse.Within, hstack] at hwithin
    exact hcopies.size_eq (hnatural 1 (by simp [Opcode.regions]) _ rfl)
      (hnatural 3 (by simp [Opcode.regions]) _ rfl) (hwithin _ _ rfl rfl)
  | memoryStore hstack hdata =>
    obtain rfl := Option.some.inj hop
    rw [hstack] at hnatural
    rw [MemoryUse.Within, hstack] at hwithin
    refine Memory.size_overwrite_of_holds
      (hnatural 0 (by simp [Opcode.regions, Opcode.extents]) _ rfl) ?_
    rw [Bytes.size_of_ofWord? hdata]
    exact hwithin _ rfl
  | memoryStoreByte => exact Memory.size_setByte _ _ _
  | _ => rfl

/-! ### Requests -/

/-- The regions that a call uses are natural and lie within `size` bytes of memory. -/
structure CallRequest.Fits (size : Int) (r : CallRequest) : Prop where
  inputOffset : 0 ≤ r.inputOffset
  inputSize : 0 ≤ r.inputSize
  returnOffset : 0 ≤ r.returnOffset
  returnSize : 0 ≤ r.returnSize
  input : Memory.Holds size r.inputOffset r.inputSize
  output : Memory.Holds size r.returnOffset r.returnSize

/-- The init code of a creation is natural and lies within `size` bytes of memory. -/
structure CreateRequest.Fits (size : Int) (r : CreateRequest) : Prop where
  inputOffset : 0 ≤ r.inputOffset
  inputSize : 0 ≤ r.inputSize
  input : Memory.Holds size r.inputOffset r.inputSize

/-- What a frame waits for, if it waits, fits into `size` bytes of memory. -/
def Mode.Fits (size : Int) : Mode → Prop
  | .awaitingCall (some r) => r.Fits size
  | .awaitingCreate (some r) => r.Fits size
  | _ => True

/-- The memory size that a call asks for holds its input as well. -/
theorem MemoryUse.input_of_size? {input : Nat} {stack : Stack} {size : Int}
    (h : (MemoryUse.callRegions input).size? stack = .ok (some size)) {o l : Word}
    (ho : stack.back input = .ok o) (hl : stack.back (input + 1) = .ok l) :
    Memory.Holds size o l := by
  rw [size?] at h
  obtain ⟨returnOffset, -, h⟩ := except_bind_ok h
  obtain ⟨returnSize, -, h⟩ := except_bind_ok h
  split at h
  · next output _ =>
    rw [ho, hl] at h
    obtain ⟨_, ho', h⟩ := except_bind_ok h
    obtain ⟨_, hl', h⟩ := except_bind_ok h
    cases ho'
    cases hl'
    split at h
    · next needed hneeded =>
      obtain rfl : max output needed = size := Option.some.inj (Except.ok.inj h)
      exact (Gas.holds_of_memorySize? hneeded).mono (le_max_right output needed)
    · cases h
  · cases h

section Requests

variable {ctx : Context} {op : Opcode} {operation : Operation} {charge : Gas.Charge}
  {f f₁ f' : Frame} {s s₁ s' : State}

/-- What a call takes its input from lies within the memory that was grown for it. -/
theorem Prepared.input_within (h : Prepared f s op operation charge f₁ s₁) {input : Nat}
    (hmemory : operation.memory = .callRegions input) {o l : Word} (ho : f.stack.back input = .ok o)
    (hl : f.stack.back (input + 1) = .ok l) : Memory.Holds f₁.memory.size o l := by
  obtain ⟨size, s₀, hsize, -, -, rfl⟩ := h.charged
  rw [hmemory] at hsize
  -- the size that was found is rounded up to words
  refine (MemoryUse.input_of_size? hsize ho hl).mono ?_
  rw [Frame.size_grown_memory]
  exact (Gas.le_wordCount_mul size).trans (le_max_right _ _)

/-- **What an instruction requests fits into the memory**, which was grown for it. -/
theorem Executes.mode_fits (h : Executes ctx charge.forwarded op f₁ s₁ f' s')
    (hprepared : Prepared f s op operation charge f₁ s₁) (hmode : f.mode = .running)
    (hnatural : op.NaturalRegionsOn f.stack) : f'.mode.Fits f'.memory.size := by
  have hop := hprepared.isAt.operation?
  have hwithin := hprepared.within
  cases h with
  | @create kind _ _ value inputOffset inputSize salt rest hstack _ =>
    rw [hprepared.stack] at hstack
    -- init code is found at the same operands with a salt and without
    have hmemory : operation.memory = .region 1 2 := by
      cases kind with
      | _ =>
        cases hop
        rfl
    rw [hmemory] at hwithin
    exact ⟨hnatural 1 (by simp [Opcode.regions, Opcode.extents]) _ (by rw [hstack]; rfl),
      hnatural 2 (by simp [Opcode.regions, Opcode.extents]) _ (by rw [hstack]; rfl),
      hwithin _ _ (by rw [hstack]; rfl) (by rw [hstack]; rfl)⟩
  | @call kind _ _ r hrequest =>
    obtain ⟨hinputOffset, hinputSize, hreturnOffset, hreturnSize, -⟩ :=
      Step.callRequest_cases hrequest
    rw [hprepared.stack] at hinputOffset hinputSize hreturnOffset hreturnSize
    -- all four kinds list their regions in this order
    cases kind with
    | _ =>
      obtain rfl := Option.some.inj hop
      exact ⟨hnatural _ (by decide) _ hinputOffset, hnatural _ (by decide) _ hinputSize,
        hnatural _ (by decide) _ hreturnOffset, hnatural _ (by decide) _ hreturnSize,
        hprepared.input_within rfl hinputOffset hinputSize, hwithin _ _ hreturnOffset hreturnSize⟩
  | stop | «return» | revert | selfDestruct => trivial
  | _ =>
    -- all others leave the frame running
    change f₁.mode.Fits _
    rw [hprepared.mode, hmode]
    trivial

end Requests

/-! ### Frames with natural extents only -/

/-- If the frame is about to run an instruction, none of the offsets and sizes that this finds on
the stack is negative. -/
def Frame.Natural (f : Frame) : Prop :=
  f.mode = .running → ∀ op operation, f.IsAt op operation → op.NaturalOn f.stack

/-- If the frame is about to run an instruction, none of the offsets and sizes in memory that this
finds on the stack is negative. -/
def Frame.NaturalRegions (f : Frame) : Prop :=
  f.mode = .running → ∀ op operation, f.IsAt op operation → op.NaturalRegionsOn f.stack

/-- A frame with natural extents has natural regions. -/
theorem Frame.Natural.naturalRegions {f : Frame} (h : f.Natural) : f.NaturalRegions :=
  fun hmode op operation hat => (h hmode op operation hat).naturalRegionsOn

/-- A frame that holds no negative number has natural extents. -/
theorem Frame.NonNegative.natural {f : Frame} (h : f.Active → f.NonNegative) : f.Natural :=
  fun hmode op _ _ => op.naturalOn_of_nonneg (h (Frame.active_of_running hmode)).stack

end EvmCore
