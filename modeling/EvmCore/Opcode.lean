/-!
# Opcodes

The instructions of the machine, grouped by what they do to a frame, with their bytes and mnemonics.
The byte of an instruction that pushes, duplicates, exchanges or logs carries its count.
-/

namespace EvmCore

/-- Instructions that replace the word on top of the stack by a function of it. -/
inductive Unary where
  | isZero | not
  deriving DecidableEq

/-- Instructions that replace the two words on top of the stack by a function of them. -/
inductive Binary where
  | add | mul | sub | div | sdiv | mod | smod | exp | signExtend
  | lt | gt | slt | sgt | eq | and | or | xor | byte | shl | shr | sar
  deriving DecidableEq

/-- Instructions that replace the three words on top of the stack by a function of them. -/
inductive Ternary where
  | addMod | mulMod
  deriving DecidableEq

/-- What an instruction can push from the frame, the transaction or the block. -/
inductive Environment where
  | address | origin | caller | callValue | callDataSize | codeSize | gasPrice | returnDataSize
  | coinbase | timestamp | number | difficulty | gasLimit | chainId | baseFee
  | pc | memorySize | gas
  deriving DecidableEq

/-- What an instruction can ask of the account named on top of the stack. -/
inductive AccountQuery where
  | balance | codeSize | codeHash
  deriving DecidableEq

/-- The byte strings of a frame that can be copied to memory. -/
inductive CopySource where
  | callData | code | returnData
  deriving DecidableEq

/-- The ways to call a contract. -/
inductive CallKind where
  | call | callCode | delegateCall | staticCall
  deriving DecidableEq

/-- The ways to create a contract. -/
inductive CreateKind where
  | create | create2
  deriving DecidableEq

/-- The instructions of the machine. -/
inductive Opcode where
  | stop
  | unary (op : Unary)
  | binary (op : Binary)
  | ternary (op : Ternary)
  | keccak
  | environment (item : Environment)
  | account (query : AccountQuery)
  | selfBalance
  | callDataLoad
  | blockHash
  | copy (source : CopySource)
  | accountCodeCopy
  | pop
  | memoryLoad
  | memoryStore
  | memoryStoreByte
  | storageLoad
  | storageStore
  | jump
  | jumpIf
  | jumpDest
  /-- Pushes the next `n + 1` bytes of the code. -/
  | push (n : Fin 32)
  /-- Pushes a copy of the word `n` places below the top. -/
  | dup (n : Fin 16)
  /-- Exchanges the top with the word `n + 1` places below it. -/
  | swap (n : Fin 16)
  /-- Logs with `n` topics. -/
  | log (n : Fin 5)
  | create (kind : CreateKind)
  | call (kind : CallKind)
  | return
  | revert
  | invalid
  | selfDestruct
  deriving DecidableEq

/-- The mnemonic of a way to call. -/
def CallKind.name : CallKind → String
  | .call => "CALL"
  | .callCode => "CALLCODE"
  | .delegateCall => "DELEGATECALL"
  | .staticCall => "STATICCALL"

/-- The mnemonic of a way to create. -/
def CreateKind.name : CreateKind → String
  | .create => "CREATE"
  | .create2 => "CREATE2"

namespace Opcode

/-- The number of bytes after an opcode that belong to its instruction. -/
def immediateSize : Opcode → Nat
  | .push n => n.val + 1
  | _ => 0

/-- The instruction that a byte stands for. -/
def ofByte? (b : Nat) : Option Opcode :=
  match b with
  | 0x00 => some .stop
  | 0x01 => some (.binary .add)
  | 0x02 => some (.binary .mul)
  | 0x03 => some (.binary .sub)
  | 0x04 => some (.binary .div)
  | 0x05 => some (.binary .sdiv)
  | 0x06 => some (.binary .mod)
  | 0x07 => some (.binary .smod)
  | 0x08 => some (.ternary .addMod)
  | 0x09 => some (.ternary .mulMod)
  | 0x0a => some (.binary .exp)
  | 0x0b => some (.binary .signExtend)
  | 0x10 => some (.binary .lt)
  | 0x11 => some (.binary .gt)
  | 0x12 => some (.binary .slt)
  | 0x13 => some (.binary .sgt)
  | 0x14 => some (.binary .eq)
  | 0x15 => some (.unary .isZero)
  | 0x16 => some (.binary .and)
  | 0x17 => some (.binary .or)
  | 0x18 => some (.binary .xor)
  | 0x19 => some (.unary .not)
  | 0x1a => some (.binary .byte)
  | 0x1b => some (.binary .shl)
  | 0x1c => some (.binary .shr)
  | 0x1d => some (.binary .sar)
  | 0x20 => some .keccak
  | 0x30 => some (.environment .address)
  | 0x31 => some (.account .balance)
  | 0x32 => some (.environment .origin)
  | 0x33 => some (.environment .caller)
  | 0x34 => some (.environment .callValue)
  | 0x35 => some .callDataLoad
  | 0x36 => some (.environment .callDataSize)
  | 0x37 => some (.copy .callData)
  | 0x38 => some (.environment .codeSize)
  | 0x39 => some (.copy .code)
  | 0x3a => some (.environment .gasPrice)
  | 0x3b => some (.account .codeSize)
  | 0x3c => some .accountCodeCopy
  | 0x3d => some (.environment .returnDataSize)
  | 0x3e => some (.copy .returnData)
  | 0x3f => some (.account .codeHash)
  | 0x40 => some .blockHash
  | 0x41 => some (.environment .coinbase)
  | 0x42 => some (.environment .timestamp)
  | 0x43 => some (.environment .number)
  | 0x44 => some (.environment .difficulty)
  | 0x45 => some (.environment .gasLimit)
  | 0x46 => some (.environment .chainId)
  | 0x47 => some .selfBalance
  | 0x48 => some (.environment .baseFee)
  | 0x50 => some .pop
  | 0x51 => some .memoryLoad
  | 0x52 => some .memoryStore
  | 0x53 => some .memoryStoreByte
  | 0x54 => some .storageLoad
  | 0x55 => some .storageStore
  | 0x56 => some .jump
  | 0x57 => some .jumpIf
  | 0x58 => some (.environment .pc)
  | 0x59 => some (.environment .memorySize)
  | 0x5a => some (.environment .gas)
  | 0x5b => some .jumpDest
  | 0xf0 => some (.create .create)
  | 0xf1 => some (.call .call)
  | 0xf2 => some (.call .callCode)
  | 0xf3 => some .return
  | 0xf4 => some (.call .delegateCall)
  | 0xf5 => some (.create .create2)
  | 0xfa => some (.call .staticCall)
  | 0xfd => some .revert
  | 0xfe => some .invalid
  | 0xff => some .selfDestruct
  | b =>
    if h : 0x60 ≤ b ∧ b < 0x80 then some (.push ⟨b - 0x60, by omega⟩)
    else if h : 0x80 ≤ b ∧ b < 0x90 then some (.dup ⟨b - 0x80, by omega⟩)
    else if h : 0x90 ≤ b ∧ b < 0xa0 then some (.swap ⟨b - 0x90, by omega⟩)
    else if h : 0xa0 ≤ b ∧ b < 0xa5 then some (.log ⟨b - 0xa0, by omega⟩)
    else none

/-- The mnemonic of an instruction. -/
def name : Opcode → String
  | .stop => "STOP"
  | .unary .isZero => "ISZERO"
  | .unary .not => "NOT"
  | .binary .add => "ADD"
  | .binary .mul => "MUL"
  | .binary .sub => "SUB"
  | .binary .div => "DIV"
  | .binary .sdiv => "SDIV"
  | .binary .mod => "MOD"
  | .binary .smod => "SMOD"
  | .binary .exp => "EXP"
  | .binary .signExtend => "SIGNEXTEND"
  | .binary .lt => "LT"
  | .binary .gt => "GT"
  | .binary .slt => "SLT"
  | .binary .sgt => "SGT"
  | .binary .eq => "EQ"
  | .binary .and => "AND"
  | .binary .or => "OR"
  | .binary .xor => "XOR"
  | .binary .byte => "BYTE"
  | .binary .shl => "SHL"
  | .binary .shr => "SHR"
  | .binary .sar => "SAR"
  | .ternary .addMod => "ADDMOD"
  | .ternary .mulMod => "MULMOD"
  | .keccak => "SHA3"
  | .environment .address => "ADDRESS"
  | .environment .origin => "ORIGIN"
  | .environment .caller => "CALLER"
  | .environment .callValue => "CALLVALUE"
  | .environment .callDataSize => "CALLDATASIZE"
  | .environment .codeSize => "CODESIZE"
  | .environment .gasPrice => "GASPRICE"
  | .environment .returnDataSize => "RETURNDATASIZE"
  | .environment .coinbase => "COINBASE"
  | .environment .timestamp => "TIMESTAMP"
  | .environment .number => "NUMBER"
  | .environment .difficulty => "DIFFICULTY"
  | .environment .gasLimit => "GASLIMIT"
  | .environment .chainId => "CHAINID"
  | .environment .baseFee => "BASEFEE"
  | .environment .pc => "PC"
  | .environment .memorySize => "MSIZE"
  | .environment .gas => "GAS"
  | .account .balance => "BALANCE"
  | .account .codeSize => "EXTCODESIZE"
  | .account .codeHash => "EXTCODEHASH"
  | .selfBalance => "SELFBALANCE"
  | .callDataLoad => "CALLDATALOAD"
  | .blockHash => "BLOCKHASH"
  | .copy .callData => "CALLDATACOPY"
  | .copy .code => "CODECOPY"
  | .copy .returnData => "RETURNDATACOPY"
  | .accountCodeCopy => "EXTCODECOPY"
  | .pop => "POP"
  | .memoryLoad => "MLOAD"
  | .memoryStore => "MSTORE"
  | .memoryStoreByte => "MSTORE8"
  | .storageLoad => "SLOAD"
  | .storageStore => "SSTORE"
  | .jump => "JUMP"
  | .jumpIf => "JUMPI"
  | .jumpDest => "JUMPDEST"
  | .push n => s!"PUSH{n.val + 1}"
  | .dup n => s!"DUP{n.val + 1}"
  | .swap n => s!"SWAP{n.val + 1}"
  | .log n => s!"LOG{n.val}"
  | .create kind => kind.name
  | .call kind => kind.name
  | .return => "RETURN"
  | .revert => "REVERT"
  | .invalid => "INVALID"
  | .selfDestruct => "SELFDESTRUCT"

/-- A number in hexadecimal with at least two digits. -/
def hexName (b : Nat) : String :=
  "0x" ++ String.ofList (Nat.toDigits 16 (b / 16) ++ Nat.toDigits 16 (b % 16))

/-- The mnemonic of a byte; the byte in hexadecimal if it stands for no instruction. -/
def nameOfByte (b : Nat) : String :=
  match ofByte? b with
  | some op => op.name
  | none => hexName b

/-- The number of bytes after a byte that belong to its instruction; none if it stands for none. -/
def immediateSizeOfByte (b : Nat) : Nat :=
  match ofByte? b with
  | some op => op.immediateSize
  | none => 0

/-- The instruction that a number stands for, if it is the byte of one. -/
def ofNumber? (n : Int) : Option Opcode := if n < 0 then none else ofByte? n.toNat

/-- The mnemonic of a number; the number in hexadecimal if it stands for no instruction. -/
def nameOfNumber (n : Int) : String :=
  if n < 0 then "0x-" ++ String.ofList (Nat.toDigits 16 n.natAbs) else nameOfByte n.toNat

end Opcode

end EvmCore
