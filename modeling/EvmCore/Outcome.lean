import EvmCore.Address

/-!
# Outcomes

How a frame ends and what its caller learns of it. A frame halts normally, reverts, or fails; a
failure takes all of its gas and undoes all it did, a revert only the latter.
-/

namespace EvmCore

/-- Why a frame, a call or a creation fails. -/
inductive Failure where
  | stackUnderflow
  | stackOverflow
  | staticCallViolation
  | outOfGas
  | invalidMemoryAccess
  | invalidJump
  | invalidOpcode
  /-- The code to deploy is too long. -/
  | maxCodeSizeExceeded
  /-- The code to deploy starts with a reserved byte. -/
  | invalidCode
  /-- The gas left does not pay for storing the code to deploy. -/
  | codeStoreOutOfGas
  /-- Calls are nested too deep. -/
  | depth
  /-- The caller cannot pay the value to transfer. -/
  | insufficientBalance
  /-- The nonce of the creator is at its maximum. -/
  | nonceOverflow
  /-- The address of the new contract is taken. -/
  | addressCollision
  deriving DecidableEq

namespace Failure

/-- All failures. -/
def all : List Failure :=
  [.stackUnderflow, .stackOverflow, .staticCallViolation, .outOfGas, .invalidMemoryAccess,
    .invalidJump, .invalidOpcode, .maxCodeSizeExceeded, .invalidCode, .codeStoreOutOfGas, .depth,
    .insufficientBalance, .nonceOverflow, .addressCollision]

/-- The name of a failure. -/
def name : Failure → String
  | .stackUnderflow => "ErrStackUnderflow"
  | .stackOverflow => "ErrStackOverflow"
  | .staticCallViolation => "ErrStaticCallViolation"
  | .outOfGas => "ErrOutOfGas"
  | .invalidMemoryAccess => "ErrInvalidMemoryAccess"
  | .invalidJump => "ErrInvalidJump"
  | .invalidOpcode => "ErrInvalidOpcode"
  | .maxCodeSizeExceeded => "ErrMaxCodeSizeExceeded"
  | .invalidCode => "ErrInvalidCode"
  | .codeStoreOutOfGas => "ErrCodeStoreOutOfGas"
  | .depth => "ErrDepth"
  | .insufficientBalance => "ErrInsufficientBalance"
  | .nonceOverflow => "ErrNonceUintOverflow"
  | .addressCollision => "ErrContractAddressCollision"

/-- The number of a failure. -/
def number : Failure → Nat
  | .stackUnderflow => 0x41
  | .stackOverflow => 0x42
  | .staticCallViolation => 0x43
  | .outOfGas => 0x44
  | .invalidMemoryAccess => 0x45
  | .invalidJump => 0x46
  | .invalidOpcode => 0x47
  | .maxCodeSizeExceeded => 0x48
  | .invalidCode => 0x49
  | .codeStoreOutOfGas => 0x4a
  | .depth => 0x50
  | .insufficientBalance => 0x51
  | .nonceOverflow => 0x52
  | .addressCollision => 0x53

end Failure

/-- How a frame ends. -/
inductive Exit where
  /-- Normally, keeping its changes. -/
  | halted
  /-- Undoing its changes, but returning output and unused gas. -/
  | reverted
  /-- Undoing its changes and taking all of its gas. -/
  | failed (failure : Failure)
  deriving DecidableEq

namespace Exit

/-- The name of an exit. -/
def name : Exit → String
  | .halted => "Halted"
  | .reverted => "Reverted"
  | .failed failure => failure.name

/-- The number of an exit. -/
def number : Exit → Nat
  | .halted => 0x32
  | .reverted => 0x33
  | .failed failure => failure.number

/-- The failure of an exit, if it is one. -/
def failure? : Exit → Option Failure
  | .failed failure => some failure
  | _ => none

end Exit

/-- What the caller of a frame learns of it. -/
structure Outcome where
  exit : Exit
  gasLeft : Int
  output : ByteArray := .empty
  /-- The address of the contract, if one was created. -/
  created : Option Address := none

namespace Outcome

/-- Whether the frame halted normally. -/
def success (o : Outcome) : Bool := o.exit = .halted

/-- Whether the frame reverted. -/
def reverted (o : Outcome) : Bool := o.exit = .reverted

end Outcome

/-- The verdict on a transaction that was included. -/
inductive Status where
  | failure
  | success
  | revert
  deriving DecidableEq

namespace Status

/-- The verdict that follows from how the outermost frame ended. -/
def ofExit : Exit → Status
  | .halted => .success
  | .reverted => .revert
  | .failed _ => .failure

/-- The name of a verdict. -/
def name : Status → String
  | .failure => "FAILURE"
  | .success => "SUCCESS"
  | .revert => "REVERT"

/-- The number of a verdict. -/
def number : Status → Nat
  | .failure => 0
  | .success => 1
  | .revert => 2

end Status

end EvmCore
