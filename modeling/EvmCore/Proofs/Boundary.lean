import EvmCore.Proofs.Depth
import EvmCore.Proofs.WordRange
import Mathlib

/-!
# Execution stays on instructions

A code is read in two ways. `disassemble` walks over it from its start, and the bytes that an
instruction pushes belong to that instruction. A frame follows its program counter, which moves
by one or by the bytes that were pushed, or goes to where a jump says. Both agree: a program
counter that starts at zero is always at an instruction of the walk or past the end of the code,
and never among bytes to push.

`Walks code pc x` says that the walk from `pc` on comes to `x`, and `mem_offsets_iff` that the
offsets of the instructions are the places that it comes to from the start. Where it comes to, it
goes on (`Walks.next`), so one instruction leads from one such place to another (`IsBoundary.next`).
A frame that waits goes on right after the instruction that made it wait, so the invariant of such a
frame is about two places (`Frame.aligned_persistent`).
-/

namespace EvmCore

/-! ### The walk over a code -/

/-- The place right after the instruction at `pc`. -/
def nextOffset (code : ByteArray) (pc : Nat) : Nat := pc + 1 + immediateSize (opAt code pc)

/-- The walk from `pc` on comes to an instruction at `x`. -/
inductive Walks (code : ByteArray) : Nat → Nat → Prop
  | here {pc : Nat} : pc < code.size → Walks code pc pc
  | there {pc x : Nat} : pc < code.size → Walks code (nextOffset code pc) x → Walks code pc x

/-- The walk goes forward. -/
theorem lt_nextOffset (code : ByteArray) (pc : Nat) : pc < nextOffset code pc := by
  unfold nextOffset
  omega

namespace Walks

variable {code : ByteArray} {pc x y : Nat}

/-- The walk comes to places in the code only. -/
theorem lt_size (h : Walks code pc x) : x < code.size := by
  induction h with
  | here hpc => exact hpc
  | there _ _ ih => exact ih

/-- It never goes back. -/
theorem le (h : Walks code pc x) : pc ≤ x := by
  induction h with
  | here => exact le_rfl
  | @there pc x _ _ ih => exact (lt_nextOffset code pc).le.trans ih

/-- From where it comes to, the walk goes on. -/
theorem next (h : Walks code pc x) (hnext : nextOffset code x < code.size) :
    -- by induction on the walk, which is longer by one step at its end
    Walks code pc (nextOffset code x) := by
  induction h with
  | here hpc => exact .there hpc (.here hnext)
  | there hpc _ ih => exact .there hpc (ih hnext)

/-- **Nothing is within an instruction**: of two places that the walk comes to, the later one is not
before the end of the earlier one. -/
theorem nextOffset_le (hx : Walks code pc x) (hy : Walks code pc y) (hlt : x < y) :
    nextOffset code x ≤ y := by
  -- by induction on the walk to the earlier place; the walk to the later one takes the same steps
  induction hx with
  | here =>
    cases hy with
    | here => exact absurd hlt (lt_irrefl _)
    | there _ hy => exact hy.le
  | @there pc x _ hx ih =>
    cases hy with
    | here => exact absurd hlt (not_lt.mpr ((lt_nextOffset code _).le.trans hx.le))
    | there _ hy => exact ih hy hlt

end Walks

/-- The search for instructions adds the places that the walk comes to. -/
theorem mem_offsetsFrom_iff {code : ByteArray} {pc x : Nat} {found : Array Nat} :
    x ∈ offsetsFrom code pc found ↔ x ∈ found ∨ Walks code pc x := by
  fun_induction offsetsFrom code pc found with
  | case1 pc found hpc ih =>
    -- the recursion takes the same step as the walk
    have hnext : pc + 1 + immediateSize code[pc] = nextOffset code pc := by
      rw [nextOffset, opAt, dif_pos hpc]
    rw [ih, hnext, Array.mem_push]
    constructor
    · rintro ((hfound | rfl) | hwalks)
      · exact .inl hfound
      · exact .inr (.here hpc)
      · exact .inr (.there hpc hwalks)
    · rintro (hfound | hwalks)
      · exact .inl (.inl hfound)
      · cases hwalks with
        | here => exact .inl (.inr rfl)
        | there _ hwalks => exact .inr hwalks
  | case2 pc found hpc =>
    -- past the end the walk comes to nothing
    refine ⟨.inl, fun h => h.resolve_right fun hwalks => ?_⟩
    exact hpc (hwalks.le.trans_lt hwalks.lt_size)

/-- **The offsets of a code** are the places that the walk over it comes to. -/
theorem mem_offsets_iff {code : ByteArray} {x : Nat} : x ∈ offsets code ↔ Walks code 0 x := by
  rw [offsets, Array.mem_toList_iff, mem_offsetsFrom_iff]
  exact or_iff_right (Array.not_mem_empty x)

/-! ### The walk that the table guides -/

/-- An instruction and the byte that stands for it agree about the bytes to push. -/
theorem Opcode.immediateSize_of_ofByte? {b : UInt8} {op : Opcode}
    (h : Opcode.ofByte? b.toNat = some op) :
    op.immediateSize = EvmCore.immediateSize b := by
  -- there are only so many bytes to look at
  have hall : ∀ b : Fin 256, ∀ op ∈ Opcode.ofByte? b.val,
      op.immediateSize = EvmCore.immediateSize (UInt8.ofNat b.val) := by decide +kernel
  have hb := hall ⟨b.toNat, b.toNat_lt⟩ op h
  rwa [UInt8.ofNat_toNat] at hb

/-- **The table and the opcode byte agree** about the bytes to push, also where
there is no instruction. -/
theorem Opcode.immediateSizeOfByte_eq (b : UInt8) :
    Opcode.immediateSizeOfByte b.toNat = EvmCore.immediateSize b := by
  rw [immediateSizeOfByte]
  split
  · next op hop => exact immediateSize_of_ofByte? hop
  · next hnone =>
    -- a byte that is no instruction pushes nothing, and there are only so many of them
    have hall : ∀ b : Fin 256, Opcode.ofByte? b.val = none →
        EvmCore.immediateSize (UInt8.ofNat b.val) = 0 := by decide +kernel
    have hzero := hall ⟨b.toNat, b.toNat_lt⟩ hnone
    rw [UInt8.ofNat_toNat] at hzero
    exact hzero.symm

/-- The bytes to push of an instruction that is listed. -/
theorem Instruction.pushSize_ofOffset (code : ByteArray) (pc : Nat) :
    (ofOffset code pc).pushSize = immediateSize (opAt code pc) :=
  Opcode.immediateSizeOfByte_eq _

/-- The two walks over a code, from any place on. -/
theorem map_offsetsFrom (code : ByteArray) (pc : Nat) (found : Array Nat) :
    (offsetsFrom code pc found).toList.map (Instruction.ofOffset code) =
      found.toList.map (Instruction.ofOffset code) ++ disassembleFrom code pc := by
  fun_induction offsetsFrom code pc found with
  | case1 pc found hpc ih =>
    have hsize : (Instruction.ofOffset code pc).pushSize = immediateSize code[pc] := by
      rw [Instruction.pushSize_ofOffset, opAt, dif_pos hpc]
    -- the first instruction of the walk is the last one found
    rw [ih, disassembleFrom.eq_def code pc, if_pos hpc, hsize, Array.toList_push, List.map_append,
      List.append_assoc]
    rfl
  | case2 pc found hpc => rw [disassembleFrom, if_neg hpc, List.append_nil]

/-- **The two walks over a code agree**: the one that the table of opcodes guides comes to the
offsets that the search for jump destinations comes to. -/
theorem disassemble_eq (code : ByteArray) :
    disassemble code = (offsets code).map (Instruction.ofOffset code) :=
  (map_offsetsFrom code 0 #[]).symm

/-- The instructions that are listed are those that the walk over the code comes to. -/
theorem mem_disassemble_iff {code : ByteArray} {i : Instruction} :
    i ∈ disassemble code ↔ Walks code 0 i.offset ∧ i = .ofOffset code i.offset := by
  rw [disassemble_eq, List.mem_map]
  constructor
  · rintro ⟨pc, hpc, rfl⟩
    exact ⟨mem_offsets_iff.mp hpc, rfl⟩
  · rintro ⟨hwalks, hi⟩
    exact ⟨i.offset, mem_offsets_iff.mpr hwalks, hi.symm⟩

/-! ### Places between instructions -/

/-- A program counter at an instruction of the code or past its end. -/
def IsBoundary (code : ByteArray) (pc : Int) : Prop :=
  0 ≤ pc ∧ (code.size ≤ pc ∨ Walks code 0 pc.toNat)

/-- The start of a code is a boundary, also if the code is empty. -/
theorem isBoundary_zero (code : ByteArray) : IsBoundary code 0 := by
  refine ⟨le_rfl, ?_⟩
  by_cases hsize : 0 < code.size
  · exact .inr (.here hsize)
  · exact .inl (by omega)

namespace IsBoundary

variable {code : ByteArray} {pc : Int}

/-- **One instruction further** there is a boundary again. -/
theorem next (h : IsBoundary code pc) :
    IsBoundary code (pc + 1 + immediateSize (opAt code pc.toNat)) := by
  obtain ⟨hpc, hplace⟩ := h
  have hnext : pc + 1 + immediateSize (opAt code pc.toNat) = nextOffset code pc.toNat := by
    rw [nextOffset]
    omega
  rw [hnext]
  refine ⟨Int.natCast_nonneg _, ?_⟩
  by_cases hsize : nextOffset code pc.toNat < code.size
  · rcases hplace with hend | hwalks
    · -- past the end, any place is past the end
      have hlt := lt_nextOffset code pc.toNat
      omega
    · exact .inr (hwalks.next hsize)
  · exact .inl (by omega)

/-- A jump goes to an instruction. -/
theorem of_validJumpDest {code : Code} {dest : Word} (h : code.validJumpDest dest = true) :
    IsBoundary code.bytes dest := by
  obtain ⟨hdest, hmem⟩ := (code.validJumpDest_iff dest).mp h
  exact ⟨hdest, .inr (mem_offsets_iff.mp (List.mem_of_mem_filter hmem))⟩

/-- What disassembling the code yields at a boundary. -/
theorem exists_instruction (h : IsBoundary code pc) :
    (code.size : Int) ≤ pc ∨ ∃ i ∈ disassemble code, pc = i.offset := by
  refine h.2.imp_right fun hwalks => ?_
  exact ⟨.ofOffset code pc.toNat, mem_disassemble_iff.mpr ⟨hwalks, rfl⟩,
    (Int.toNat_of_nonneg h.1).symm⟩

/-- **No boundary is among bytes to push.** -/
theorem not_within_immediate (h : IsBoundary code pc) {i : Instruction}
    (hi : i ∈ disassemble code) :
    pc ≤ i.offset ∨ (i.offset + i.immediate.size : Int) < pc := by
  obtain ⟨hx, hi⟩ := mem_disassemble_iff.mp hi
  generalize i.offset = x at hx hi
  subst hi
  have hlt := hx.lt_size
  have hsize : (Instruction.ofOffset code x).immediate.size =
      min (x + 1 + immediateSize (opAt code x)) code.size - (x + 1) := by
    rw [← Instruction.pushSize_ofOffset]
    exact ByteArray.size_extract
  rw [hsize]
  -- the bytes that are pushed end where the next instruction begins, or with the code
  obtain ⟨hpc, hend | hwalks⟩ := h
  · right
    omega
  · by_cases hle : pc ≤ x
    · exact .inl hle
    · have hnext := hx.nextOffset_le hwalks (by omega)
      rw [nextOffset] at hnext
      right
      omega

end IsBoundary

/-- The bytes to push, read by the program counter. -/
theorem Bytes.padSlice_eq (code : ByteArray) (pc size : Nat) :
    Bytes.padSlice code (pc + 1 : Int) size =
      code.extract (pc + 1) (pc + 1 + size) ++
        Bytes.zeros (size - (code.extract (pc + 1) (pc + 1 + size)).size) := by
  have hslice : Bytes.slice code (pc + 1 : Int) (pc + 1 + size : Int) =
      code.extract (pc + 1) (pc + 1 + size) := by
    have hfirst : Bytes.position code.size (pc + 1 : Int) = min (pc + 1) code.size := by
      rw [Bytes.position_of_nonneg (by omega)]
      rfl
    have hlast : Bytes.position code.size (pc + 1 + size : Int) =
        min (pc + 1 + size) code.size := by
      rw [Bytes.position_of_nonneg (by omega)]
      rfl
    rw [Bytes.slice, hfirst, hlast]
    apply ByteArray.ext
    rw [ByteArray.data_extract, ByteArray.data_extract]
    refine Array.ext_getElem? fun i => ?_
    -- byte by byte, where cutting the range at the end of the code makes no difference
    rw [Array.getElem?_extract, Array.getElem?_extract, ByteArray.size_data]
    by_cases hi : pc + 1 + i < code.size
    · rw [Nat.min_eq_left (by omega : pc + 1 ≤ code.size), min_assoc, min_self]
    · rw [if_neg (by omega), if_neg (by omega)]
  unfold Bytes.padSlice
  rw [hslice]

/-! ### Frames -/

/-- A frame on top, and where it goes on if it waits. -/
def Frame.Aligned (f : Frame) : Prop :=
  IsBoundary f.message.code.bytes f.pc ∧ (f.Waits → IsBoundary f.message.code.bytes (f.pc + 1))

/-- A frame below, which goes on right after the instruction it is at. -/
def Frame.AlignedTwice (f : Frame) : Prop :=
  IsBoundary f.message.code.bytes f.pc ∧ IsBoundary f.message.code.bytes (f.pc + 1)

section Frames

variable {ctx : Context} {f f' : Frame} {s s' : State} {op : Opcode} {operation : Operation}

/-- The byte at an instruction says how many bytes it pushes. -/
theorem Frame.IsAt.immediateSize_eq (h : f.IsAt op operation) (hpc : 0 ≤ f.pc) :
    immediateSize (opAt f.message.code.bytes f.pc.toNat) = op.immediateSize := by
  obtain ⟨b, hfetch, hlookup⟩ := h
  rw [fetch?_of_nonneg _ hpc] at hfetch
  cases hfetch
  rw [lookup_eq, lookup?] at hlookup
  obtain ⟨op', hop, hlookup⟩ := Option.bind_eq_some_iff.mp hlookup
  obtain ⟨operation', -, hlookup⟩ := Option.bind_eq_some_iff.mp hlookup
  cases hlookup
  exact (Opcode.immediateSize_of_ofByte? hop).symm

/-- **Where an instruction leads**: past its own bytes, to where a jump may go, or nowhere if the
frame does not go on by itself. -/
theorem Executes.pc_cases {forwarded : Int} (h : Executes ctx forwarded op f s f' s') :
    (f'.pc = f.pc + 1 + op.immediateSize ∧ f'.mode = f.mode) ∨
    (f.message.code.validJumpDest f'.pc = true ∧ f'.mode = f.mode) ∨
    (f'.pc = f.pc ∧ op.immediateSize = 0) := by
  cases h with
  | jump _ hvalid => exact .inr (.inl ⟨hvalid, rfl⟩)
  | jumpIfTaken _ _ hvalid => exact .inr (.inl ⟨hvalid, rfl⟩)
  | push => exact .inl ⟨rfl, rfl⟩
  | stop | create | call | «return» | revert | selfDestruct => exact .inr (.inr ⟨rfl, rfl⟩)
  | _ => exact .inl ⟨(Int.add_zero _).symm, rfl⟩

/-- A step leads from one boundary to another. -/
theorem Steps.aligned (h : Steps ctx f s f' s') (hmode : f.mode = .running) (hf : f.Aligned) :
    f'.Aligned := by
  obtain ⟨hpc, -⟩ := hf
  cases h with
  | unprepared e hunprepared =>
    obtain ⟨gas, memoryDesired, rfl⟩ := hunprepared.frame
    exact ⟨hpc, fun hwaits => absurd rfl (hwaits.active (.failed e))⟩
  | failed e hprepared huntouched =>
    obtain ⟨stack, -, hframe⟩ := huntouched.frame
    dsimp only at hframe
    subst hframe
    refine ⟨?_, fun hwaits => absurd rfl (hwaits.active (.failed e))⟩
    rw [hprepared.message, hprepared.pc]
    exact hpc
  | @executed op operation charge f₁ _ s₁ _ hprepared hexecutes =>
    have hsize := hprepared.isAt.immediateSize_eq hpc.1
    have hnext := hpc.next
    rw [hsize] at hnext
    have hmessage : f'.message = f.message := hexecutes.message.trans hprepared.message
    have hcases := hexecutes.pc_cases
    rw [hprepared.pc, hprepared.message, hprepared.mode, hmode] at hcases
    rw [Frame.Aligned, hmessage]
    obtain ⟨hpc', hmode'⟩ | ⟨hvalid, hmode'⟩ | ⟨hpc', hnone⟩ := hcases
    · rw [hpc']
      exact ⟨hnext, fun hwaits => absurd hmode' hwaits.ne_running⟩
    · exact ⟨.of_validJumpDest hvalid, fun hwaits => absurd hmode' hwaits.ne_running⟩
    · -- the frame stays where it is, and what it does there pushes no bytes of the code
      rw [hnone, Nat.cast_zero, Int.add_zero] at hnext
      rw [hpc']
      exact ⟨hpc, fun _ => hnext⟩

/-- A frame that was just made is at the start of its code. -/
theorem Frame.Aligned.of_fresh (hpc : f.pc = 0) (hmode : f.mode = .running) : f.Aligned :=
  ⟨hpc ▸ isBoundary_zero _, fun hwaits => absurd hmode hwaits.ne_running⟩

/-- The frame of a call is at the start of its code. -/
theorem Call.Starts.child_aligned {c : Call} {child : Frame}
    (h : Call.Starts ctx c s (.frame child) s') : child.Aligned := by
  cases h with
  | frame => exact .of_fresh rfl rfl

/-- So is the frame of a creation. -/
theorem Creation.Starts.child_aligned {c : Creation} {child : Frame}
    (h : Creation.Starts c s (.frame child) s') : child.Aligned := by
  cases h with
  | frame => exact .of_fresh rfl rfl

/-- **The invariant of the frames.** -/
theorem Frame.aligned_persistent (ctx : Context) :
    Frame.Persistent ctx Frame.Aligned Frame.AlignedTwice where
  steps hmode h hf := h.aligned hmode hf
  begins h hf := by
    cases h with
    | call hmode => exact ⟨hf.1, hf.2 (.inl ⟨_, hmode⟩)⟩
    | create hmode => exact ⟨hf.1, hf.2 (.inr ⟨_, hmode⟩)⟩
  child h _ := by
    cases h with
    | call _ hstarts => exact hstarts.child_aligned
    | create _ _ _ hstarts => exact hstarts.child_aligned
  resumes h hf := by
    -- a frame that goes on is past the instruction that made it wait
    refine ⟨?_, fun hwaits => absurd h.mode hwaits.ne_running⟩
    rw [h.message, h.pc]
    exact hf.2

/-- **What a step pushes**, if it is at an instruction that pushes bytes of the code. -/
theorem Steps.pushes (h : Steps ctx f s f' s') (hpc : IsBoundary f.message.code.bytes f.pc)
    {n : Fin 32} (hat : f.IsAt (.push n) operation) (hmode : f'.mode = .running) :
    ∃ i ∈ disassemble f.message.code.bytes, f.pc = i.offset ∧ ∃ immediate ∈ i.immediate?,
      immediate.size ≤ n.val + 1 ∧
      f'.stack = Bytes.toWord (immediate ++ Bytes.zeros (n.val + 1 - immediate.size)) ::
        f.stack := by
  have hsize : immediateSize (opAt f.message.code.bytes f.pc.toNat) = n.val + 1 :=
    hat.immediateSize_eq hpc.1
  -- past the end of the code there is nothing to push
  obtain hend | ⟨i, hi, hoffset⟩ := hpc.exists_instruction
  · have hstop : opAt f.message.code.bytes f.pc.toNat = 0 := dif_neg (by omega)
    rw [hstop] at hsize
    cases hsize
  obtain ⟨-, hlisted⟩ := mem_disassemble_iff.mp hi
  generalize i.offset = x at hoffset hlisted
  subst hlisted
  rw [hoffset, Int.toNat_natCast, ← Instruction.pushSize_ofOffset] at hsize
  have himmediate : (Instruction.ofOffset f.message.code.bytes x).immediate =
      f.message.code.bytes.extract (x + 1) (x + 1 + (n.val + 1)) := by
    rw [← hsize]
    rfl
  refine ⟨_, hi, hoffset, (Instruction.ofOffset f.message.code.bytes x).immediate, ?_, ?_, ?_⟩
  · exact if_neg (hsize.trans_ne (Nat.succ_ne_zero _))
  · rw [himmediate, ByteArray.size_extract]
    omega
  · cases h with
    | unprepared => cases hmode
    | failed => cases hmode
    | @executed op _ _ f₁ _ _ _ hprepared hexecutes =>
      obtain ⟨rfl, rfl⟩ := hat.unique hprepared.isAt
      cases hexecutes with
      | push =>
        rw [hprepared.message, hprepared.stack, hprepared.pc, himmediate, hoffset]
        rw [Bytes.padSlice_eq]

end Frames

/-- **Execution never enters push data.** Wherever a frame comes to that was made for a call or a
creation, and wherever the frames above it come to, the program counter is past the end of the code
or at one of the instructions that disassembling the code yields, and not among the bytes that one
of them pushes. What an instruction pushes is the number that its bytes write, with zeros in place
of those past the end of the code. -/
theorem execution_never_enters_push_data {ctx : Context} {s s' : State} {m₀ m : Machine}
    (hstart : (∃ c : Call, c.start ctx s = .ok (.frame m₀.top) s') ∨
      ∃ c : Creation, c.start s = .ok (.frame m₀.top) s')
    (hruns : Machine.RunsAbove ctx m₀.waiting.length m₀ m) :
    (∀ f ∈ m.framesAbove m₀.waiting.length,
      ((f.message.code.bytes.size : Int) ≤ f.pc ∨
        ∃ i ∈ disassemble f.message.code.bytes, f.pc = i.offset) ∧
      ∀ i ∈ disassemble f.message.code.bytes,
        f.pc ≤ i.offset ∨ (i.offset + i.immediate.size : Int) < f.pc) ∧
    (∀ (n : Fin 32) (operation : Operation) (m' : Machine), m.top.mode = .running →
      m.top.IsAt (.push n) operation → m.iterate ctx = .ok none m' → m'.top.mode = .running →
      ∃ i ∈ disassemble m.top.message.code.bytes, m.top.pc = i.offset ∧
        ∃ immediate ∈ i.immediate?, immediate.size ≤ n.val + 1 ∧
          m'.top.stack =
            Bytes.toWord (immediate ++ Bytes.zeros (n.val + 1 - immediate.size)) ::
              m.top.stack) := by
  have hentry : m₀.top.Aligned := by
    obtain ⟨c, hstart⟩ | ⟨c, hstart⟩ := hstart
    · exact (Call.starts_of_start hstart).child_aligned
    · exact (Creation.starts_of_start hstart).child_aligned
  have haligned : m.AllAbove Frame.Aligned Frame.AlignedTwice m₀.waiting.length :=
    hruns.allAbove (Frame.aligned_persistent ctx)
      ⟨[], m₀.waiting, rfl, rfl, hentry, fun _ hf => absurd hf List.not_mem_nil⟩
  constructor
  · refine haligned.forall_framesAbove (fun f hf => ?_) fun f hf => ?_
    · exact ⟨hf.1.exists_instruction, fun _ => hf.1.not_within_immediate⟩
    · exact ⟨hf.1.exists_instruction, fun _ => hf.1.not_within_immediate⟩
  · intro n operation m' hmode hat hiterate hmode'
    obtain ⟨-, -, -, -, htop, -⟩ := haligned
    have hsteps := ((Machine.iterates_of_iterate hiterate).steps_of_running hmode).1
    exact hsteps.pushes htop.1 hat hmode'

/-- A frame that jumps over bytes to push, among them the byte of a jump destination, and then
pushes three bytes of which the code has one. -/
theorem cut_off_push_is_padded :
    let code : ByteArray := ⟨#[0x60, 0x05, 0x56, 0x60, 0x5b, 0x5b, 0x62, 0x5b]⟩
    let source : Source := { accounts := (∅ : Std.ExtTreeMap Address Account).insert 2 { code } }
    let c : Call := { caller := 1, address := 2, codeAddress := 2, gas := 1000 }
    ∃ m₀ m m' : Machine, c.start {} (.ofSource source) = .ok (.frame m₀.top) m₀.state ∧
      Machine.RunsAbove {} m₀.waiting.length m₀ m ∧ m.top.message.code.bytes = code ∧ m.top.pc = 6 ∧
      m.iterate {} = .ok none m' ∧ m'.top.stack = [0x5b0000] ∧
      (∃ i ∈ disassemble code, (6 : Int) = i.offset ∧ ∃ immediate ∈ i.immediate?,
        immediate.size ≤ 3 ∧
        0x5b0000 = Bytes.toWord (immediate ++ Bytes.zeros (3 - immediate.size))) := by
  intro code source c
  -- the jump takes the frame to its last instruction in three iterations
  have hstarts : endsWith (fun start s => (start.machine? s).any fun m₀ =>
      endsWith (fun o₁ m₁ => o₁.isNone && endsWith (fun o₂ m₂ => o₂.isNone &&
        endsWith (fun o₃ m => o₃.isNone && m.top.mode = .running &&
          m.top.message.code.bytes = code && m.top.pc = 6 && m.top.stack = [] &&
          endsWith (fun o₄ m' => o₄.isNone && m'.top.mode = .running &&
            m'.top.stack = [0x5b0000])
          (m.iterate {})) (m₂.iterate {})) (m₁.iterate {})) (m₀.iterate {}))
      (c.start {} (.ofSource source)) = true := by decide +kernel
  obtain ⟨start, s, hstart, hmachine⟩ := endsWith_iff.mp hstarts
  obtain ⟨m₀, hm₀, hpushes⟩ := (Option.any_eq_true _ _).mp hmachine
  obtain ⟨rfl, hwaiting, rfl⟩ := Start.eq_of_machine? hm₀
  obtain ⟨o₁, m₁, hfirst, hpushes⟩ := endsWith_iff.mp hpushes
  rw [Bool.and_eq_true, Option.isNone_iff_eq_none] at hpushes
  obtain ⟨rfl, hpushes⟩ := hpushes
  obtain ⟨o₂, m₂, hsecond, hpushes⟩ := endsWith_iff.mp hpushes
  rw [Bool.and_eq_true, Option.isNone_iff_eq_none] at hpushes
  obtain ⟨rfl, hpushes⟩ := hpushes
  obtain ⟨o₃, m, hthird, hpushes⟩ := endsWith_iff.mp hpushes
  simp only [Bool.and_eq_true, Option.isNone_iff_eq_none, decide_eq_true_eq] at hpushes
  obtain ⟨⟨⟨⟨⟨rfl, hmode⟩, hcode⟩, hpc⟩, hempty⟩, hpushes⟩ := hpushes
  obtain ⟨o₄, m', hlast, hpushes⟩ := endsWith_iff.mp hpushes
  simp only [Bool.and_eq_true, Option.isNone_iff_eq_none, decide_eq_true_eq] at hpushes
  obtain ⟨⟨rfl, hmode'⟩, hstack⟩ := hpushes
  have hruns : Machine.RunsAbove {} m₀.waiting.length m₀ m := by
    rw [hwaiting]
    exact ((Relation.ReflTransGen.single ⟨hfirst, Nat.zero_le _⟩).tail
      ⟨hsecond, Nat.zero_le _⟩).tail ⟨hthird, Nat.zero_le _⟩
  have hat : m.top.IsAt (.push 2) { constantGas := 3, delta := 0, alpha := 1 } := by
    rw [Frame.IsAt, hcode, hpc]
    exact ⟨0x62, by decide +kernel, (lookup_eq 0x62).trans rfl⟩
  obtain ⟨i, hi, hoffset, immediate, himmediate, hsize, hpushed⟩ :=
    (execution_never_enters_push_data (.inl ⟨c, hstart⟩) hruns).2 2 _ m' hmode hat hlast hmode'
  rw [hcode] at hi
  rw [hpc] at hoffset
  rw [hstack, hempty] at hpushed
  exact ⟨m₀, m, m', hstart, hruns, hcode, hpc, hlast, hstack, i, hi, hoffset, immediate,
    himmediate, hsize, (List.cons.inj hpushed).1⟩

end EvmCore
