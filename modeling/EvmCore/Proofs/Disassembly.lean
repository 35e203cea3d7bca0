import EvmCore.Proofs.Boundary
import Mathlib

/-!
# Disassembly

`disassemble` walks over a code as the table of opcodes tells it to, where a byte that stands for no
instruction pushes nothing. That it comes to the same places as the search for jump destinations,
which goes by the opcode byte alone, is `disassemble_eq`. What else is said of the listing is proved
along its own walk, `disassembleFrom`, from any place on.

* The instructions join without a gap (`isChain_disassembleFrom`), so their offsets ascend.
* Their bytes are those of the code from that place on (`flatMap_bytes_disassembleFrom`). An
  instruction that another one follows has all its bytes, and the last one ends with the code
  (`size_immediate_of_mem_dropLast`, `size_immediate_of_getLast?`).
-/

namespace EvmCore

namespace Instruction

/-- The bytes of an instruction as the listing shows them: the opcode, and the
bytes to push if there are any. -/
def bytes (i : Instruction) : List UInt8 := i.opcode :: (i.immediate?.getD .empty).data.toList

/-- Bytes to push are listed for those instructions that push. -/
theorem immediate?_eq_none_iff (i : Instruction) : i.immediate? = none ↔ i.pushSize = 0 := by
  rw [immediate?]
  split
  · next hzero => exact iff_of_true rfl hzero
  · next hzero => exact iff_of_false nofun hzero

/-- The bytes that are listed are the bytes to push. -/
theorem eq_of_mem_immediate? {i : Instruction} {immediate : ByteArray}
    (h : immediate ∈ i.immediate?) : immediate = i.immediate := by
  rw [immediate?] at h
  split at h
  · cases h
  · exact (Option.some.inj h).symm

/-- An instruction that pushes nothing has no bytes to push, whichever way they are asked for. -/
theorem immediate?_getD (code : ByteArray) (pc : Nat) :
    (ofOffset code pc).immediate?.getD .empty = (ofOffset code pc).immediate := by
  rw [immediate?]
  split
  · next hzero =>
    -- the part of the code that would be listed is empty
    have hsize : (ofOffset code pc).immediate.size = 0 := by
      change (code.extract (pc + 1) (pc + 1 + (ofOffset code pc).pushSize)).size = 0
      rw [hzero, ByteArray.size_extract]
      omega
    exact (ByteArray.size_eq_zero_iff.mp hsize).symm
  · rfl

/-- An instruction has its bytes up to the end of the code. -/
theorem size_immediate (code : ByteArray) (pc : Nat) :
    (ofOffset code pc).immediate.size = min (ofOffset code pc).pushSize (code.size - (pc + 1)) := by
  change (code.extract (pc + 1) (pc + 1 + (ofOffset code pc).pushSize)).size = _
  rw [ByteArray.size_extract]
  omega

/-- The bytes of the instruction at `pc` are those of the code up to the next instruction. -/
theorem bytes_ofOffset {code : ByteArray} {pc : Nat} (hpc : pc < code.size) :
    (ofOffset code pc).bytes =
      (code.data.toList.drop pc).take (1 + (ofOffset code pc).pushSize) := by
  have hopcode : (ofOffset code pc).opcode = code.data.toList[pc] := by
    change opAt code pc = _
    rw [opAt, dif_pos hpc]
    rfl
  -- the opcode comes first, and then the bytes that are pushed
  rw [bytes, immediate?_getD, hopcode, List.drop_eq_getElem_cons hpc, Nat.add_comm 1,
    List.take_succ_cons]
  congr 1
  change (code.extract (pc + 1) (pc + 1 + (ofOffset code pc).pushSize)).data.toList = _
  rw [ByteArray.data_extract, Array.toList_extract, List.extract_eq_take_drop,
    Nat.add_sub_cancel_left]

/-- Of all bytes only one has the mnemonic of a jump destination. -/
theorem name_eq_jumpDest_iff (i : Instruction) : i.name = "JUMPDEST" ↔ i.opcode = jumpDestByte := by
  have hall : ∀ b : Fin 256,
      Opcode.nameOfByte b.val = "JUMPDEST" ↔ UInt8.ofNat b.val = jumpDestByte := by
    decide +kernel
  have hname := hall ⟨i.opcode.toNat, i.opcode.toNat_lt⟩
  rwa [UInt8.ofNat_toNat] at hname

end Instruction

open Instruction (ofOffset)

/-! ### The listing -/

section Walk

variable {code : ByteArray} {pc : Nat} {i : Instruction}

/-- The walk starts with the instruction it is at. -/
theorem head?_disassembleFrom (code : ByteArray) (pc : Nat) :
    (disassembleFrom code pc).head? = if pc < code.size then some (ofOffset code pc) else none := by
  rw [disassembleFrom]
  split
  · rfl
  · rfl

/-- Where the walk goes on there is code left. -/
theorem disassembleFrom_ne_nil_iff : disassembleFrom code pc ≠ [] ↔ pc < code.size := by
  rw [disassembleFrom]
  split
  · next hpc => exact ⟨fun _ => hpc, fun _ => List.cons_ne_nil _ _⟩
  · next hpc => exact ⟨fun h => absurd rfl h, fun h => absurd h hpc⟩

/-- **No gap**: every instruction starts where the one before ends. -/
theorem isChain_disassembleFrom (code : ByteArray) (pc : Nat) :
    (disassembleFrom code pc).IsChain fun i j => j.offset = i.offset + 1 + i.pushSize := by
  fun_induction disassembleFrom code pc with
  | case1 pc hpc ih =>
    -- the next instruction is the first of the walk that goes on behind this one
    refine List.isChain_cons.mpr ⟨fun j hj => ?_, ih⟩
    rw [head?_disassembleFrom] at hj
    split at hj
    · rw [← Option.some.inj hj]
      rfl
    · cases hj
  | case2 pc hpc => exact .nil

/-- The offsets ascend. -/
theorem pairwise_offset_disassembleFrom (code : ByteArray) (pc : Nat) :
    (disassembleFrom code pc).Pairwise fun i j => i.offset < j.offset := by
  have hlt : (disassembleFrom code pc).IsChain fun i j => i.offset < j.offset :=
    (isChain_disassembleFrom code pc).imp fun i j (hnext : j.offset = _) => by omega
  have htrans : IsTrans Instruction fun i j => i.offset < j.offset := ⟨fun _ _ _ => Nat.lt_trans⟩
  exact hlt.pairwise

/-- **No byte is lost**: the instructions from `pc` on hold the bytes of the code from `pc` on. -/
theorem flatMap_bytes_disassembleFrom (code : ByteArray) (pc : Nat) :
    (disassembleFrom code pc).flatMap Instruction.bytes = code.data.toList.drop pc := by
  fun_induction disassembleFrom code pc with
  | case1 pc hpc ih =>
    -- taken by the instruction at `pc`, and left for the walk behind it
    rw [List.flatMap_cons, ih, Instruction.bytes_ofOffset hpc, Nat.add_assoc, ← List.drop_drop,
      List.take_append_drop]
  | case2 pc hpc => exact (List.drop_eq_nil_of_le (not_lt.mp hpc)).symm

/-- An instruction that another one follows has all the bytes that it pushes. -/
theorem size_immediate_of_mem_dropLast (hi : i ∈ (disassembleFrom code pc).dropLast) :
    i.immediate.size = i.pushSize := by
  fun_induction disassembleFrom code pc with
  | case1 pc hpc ih =>
    by_cases hnext : pc + 1 + (ofOffset code pc).pushSize < code.size
    · rw [List.dropLast_cons_of_ne_nil (disassembleFrom_ne_nil_iff.mpr hnext)] at hi
      rcases List.mem_cons.mp hi with rfl | hi
      · rw [Instruction.size_immediate]
        omega
      · exact ih hi
    · -- nothing follows the instruction at `pc`
      rw [disassembleFrom, if_neg hnext] at hi
      cases hi
  | case2 pc hpc => cases hi

/-- The last instruction ends with the code, though it may push more. -/
theorem size_immediate_of_getLast? (hi : i ∈ (disassembleFrom code pc).getLast?) :
    i.immediate.size ≤ i.pushSize ∧ i.offset + 1 + i.immediate.size = code.size := by
  fun_induction disassembleFrom code pc with
  | case1 pc hpc ih =>
    by_cases hnext : pc + 1 + (ofOffset code pc).pushSize < code.size
    · rw [List.getLast?_cons_of_ne_nil (disassembleFrom_ne_nil_iff.mpr hnext)] at hi
      exact ih hi
    · rw [disassembleFrom, if_neg hnext] at hi
      obtain rfl : ofOffset code pc = i := Option.some.inj hi
      have hoffset : (ofOffset code pc).offset = pc := rfl
      rw [Instruction.size_immediate, hoffset]
      omega
  | case2 pc hpc => cases hi

end Walk

/-- The opcode of an instruction that is listed is the byte at its offset. -/
theorem opcode_of_mem_disassemble {code : ByteArray} {i : Instruction} (hi : i ∈ disassemble code) :
    code[i.offset]? = some i.opcode := by
  obtain ⟨hwalks, heq⟩ := mem_disassemble_iff.mp hi
  have hopcode : i.opcode = opAt code i.offset := congrArg Instruction.opcode heq
  rw [hopcode, opAt, dif_pos hwalks.lt_size, getElem?_pos code i.offset hwalks.lt_size]

/-- **A jump may go** to the places where a jump destination is listed. -/
theorem Code.validJumpDest_iff_mem_disassemble (code : ByteArray) (d : Nat) :
    (Code.ofBytes code).validJumpDest d = true ↔
      ∃ i ∈ disassemble code, i.offset = d ∧ i.name = "JUMPDEST" := by
  have hwalks : (Code.ofBytes code).validJumpDest d = true ↔
      Walks code 0 d ∧ opAt code d = jumpDestByte := by
    rw [validJumpDest_iff, Int.toNat_natCast, jumpDests, List.mem_filter, decide_eq_true_eq,
      mem_offsets_iff]
    exact and_iff_right (Int.natCast_nonneg d)
  rw [hwalks]
  constructor
  · rintro ⟨hd, hbyte⟩
    have hname := (Instruction.name_eq_jumpDest_iff (ofOffset code d)).mpr hbyte
    exact ⟨ofOffset code d, mem_disassemble_iff.mpr ⟨hd, rfl⟩, rfl, hname⟩
  · rintro ⟨i, hi, rfl, hname⟩
    obtain ⟨hd, heq⟩ := mem_disassemble_iff.mp hi
    rw [Instruction.name_eq_jumpDest_iff, heq] at hname
    exact ⟨hd, hname⟩

/-- **Disassembly loses nothing and agrees with the search for jump destinations.** The listing of a
code starts at its first byte, its offsets ascend, and each instruction starts right after the bytes
that the one before pushes according to the table of opcodes. The opcodes are the bytes of the code
at these offsets, and joined with the bytes to push they are the whole code. Bytes to push are
listed for the instructions that push, in their full number except for the last instruction of the
code, which has as many as there are up to its end. A jump may go exactly to the places where a
`JUMPDEST` is listed. -/
theorem disassembly_is_lossless_and_lists_jump_dests (code : ByteArray) :
    (disassemble code).head?.map Instruction.offset = (if 0 < code.size then some 0 else none) ∧
    ((disassemble code).Pairwise fun i j => i.offset < j.offset) ∧
    ((disassemble code).IsChain fun i j => j.offset = i.offset + 1 + i.pushSize) ∧
    (∀ i ∈ disassemble code, code[i.offset]? = some i.opcode) ∧
    (disassemble code).flatMap Instruction.bytes = code.data.toList ∧
    (∀ i ∈ disassemble code, i.immediate? = none ↔ i.pushSize = 0) ∧
    (∀ i ∈ (disassemble code).dropLast, ∀ immediate ∈ i.immediate?, immediate.size = i.pushSize) ∧
    (∀ i ∈ (disassemble code).getLast?, ∀ immediate ∈ i.immediate?,
      immediate.size ≤ i.pushSize ∧ i.offset + 1 + immediate.size = code.size) ∧
    ∀ d : Nat, (Code.ofBytes code).validJumpDest d = true ↔
      ∃ i ∈ disassemble code, i.offset = d ∧ i.name = "JUMPDEST" := by
  refine ⟨?_, ?_, ?_, fun i hi => opcode_of_mem_disassemble hi, ?_,
    fun i _ => i.immediate?_eq_none_iff, ?_, ?_, Code.validJumpDest_iff_mem_disassemble code⟩
  · rw [disassemble, head?_disassembleFrom]
    split
    · rfl
    · rfl
  · exact pairwise_offset_disassembleFrom code 0
  · exact isChain_disassembleFrom code 0
  · rw [disassemble, flatMap_bytes_disassembleFrom, List.drop_zero]
  · intro i hi immediate h
    rw [Instruction.eq_of_mem_immediate? h]
    exact size_immediate_of_mem_dropLast hi
  · intro i hi immediate h
    rw [Instruction.eq_of_mem_immediate? h]
    exact size_immediate_of_getLast? hi

/-- A code in which the byte of a jump destination stands among the bytes to push, by itself, after
a byte that stands for no instruction, and as the only one of two bytes to push. -/
theorem cut_off_push_ends_the_listing :
    let code : ByteArray := ⟨#[0x60, 0x5b, 0x5b, 0x0c, 0x61, 0x5b]⟩
    disassemble code = [ofOffset code 0, ofOffset code 2, ofOffset code 3, ofOffset code 4] ∧
    ((ofOffset code 3).name = "0x0c" ∧ code[3]? = some (ofOffset code 3).opcode ∧
      ((ofOffset code 3).immediate? = none ↔ (ofOffset code 3).pushSize = 0)) ∧
    (⟨#[0x5b]⟩ ∈ (ofOffset code 0).immediate? ∧ 1 = (ofOffset code 0).pushSize) ∧
    (⟨#[0x5b]⟩ ∈ (ofOffset code 4).immediate? ∧ 1 ≤ (ofOffset code 4).pushSize ∧
      4 + 1 + 1 = code.size) ∧
    (Code.ofBytes code).validJumpDest 2 = true ∧ (Code.ofBytes code).validJumpDest 5 = false := by
  intro code
  have hoffsets : offsets code = [0, 2, 3, 4] := by decide +kernel
  have hlist : disassemble code =
      [ofOffset code 0, ofOffset code 2, ofOffset code 3, ofOffset code 4] := by
    rw [disassemble_eq, hoffsets]
    rfl
  obtain ⟨-, -, -, hopcode, -, hnone, hfull, hcut, hjump⟩ :=
    disassembly_is_lossless_and_lists_jump_dests code
  rw [hlist] at hopcode hnone hfull hcut hjump
  have hfirst : ⟨#[0x5b]⟩ ∈ (ofOffset code 0).immediate? := by decide +kernel
  have hlast : ⟨#[0x5b]⟩ ∈ (ofOffset code 4).immediate? := by decide +kernel
  refine ⟨hlist, ⟨by decide +kernel, hopcode (ofOffset code 3) (by simp), hnone _ (by simp)⟩, ?_,
    ?_, ?_, ?_⟩
  · exact ⟨hfirst, hfull _ (by simp) _ hfirst⟩
  · exact ⟨hlast, hcut _ rfl _ hlast⟩
  · exact (hjump 2).mpr ⟨ofOffset code 2, by simp, rfl, by decide +kernel⟩
  · rw [Bool.eq_false_iff]
    -- none of the instructions that are listed is at 5
    intro hvalid
    obtain ⟨i, hi, hoffset, -⟩ := (hjump 5).mp hvalid
    have hnot : ∀ i ∈ [ofOffset code 0, ofOffset code 2, ofOffset code 3, ofOffset code 4],
        i.offset ≠ 5 := by
      simp [ofOffset]
    exact hnot i hi hoffset

end EvmCore
