import EvmCore.Address

/-!
# Faults

What ends a computation of this library without a result. A transaction may be refused, the source
of the accounts may fail, and a value handed in from outside may break a rule that the machine
itself always keeps. A frame that fails is none of these: it ends with a result of its own.
-/

namespace EvmCore

/-- Why a transaction cannot be included in a block. -/
inductive Rejection where
  | chainIdMismatch (tx block : Int)
  | priorityFeeAboveMaxFee (priorityFee maxFee : Int)
  | maxFeeBelowBaseFee (maxFee baseFee : Int)
  | gasLimitReached (tx block : Int)
  | intrinsicGasTooLow (available required : Int)
  | nonceMismatch (tx account : Int)
  | nonceAtMaximum
  | insufficientFunds (available required : Int)
  deriving DecidableEq

/-- The wording of a rejection. -/
def Rejection.message : Rejection → String
  | .chainIdMismatch tx block => s!"chain id mismatch: tx: {tx}, block: {block}"
  | .priorityFeeAboveMaxFee priorityFee maxFee =>
    s!"max priority fee per gas higher than max fee per gas: {priorityFee} > {maxFee}"
  | .maxFeeBelowBaseFee maxFee baseFee =>
    s!"max fee per gas less than block base fee: {maxFee} < {baseFee}"
  | .gasLimitReached tx block => s!"gas limit reached: {tx} > {block}"
  | .intrinsicGasTooLow available required =>
    s!"intrinsic gas too low: have {available}, want {required}"
  | .nonceMismatch tx account => s!"nonce mismatch: tx: {tx}, state: {account}"
  | .nonceAtMaximum => "nonce has max value"
  | .insufficientFunds available required =>
    s!"insufficient funds for gas * price + value: have {available}, want {required}"

/-- What ends a computation without a result. -/
inductive Fault where
  /-- The transaction is refused. -/
  | rejected (reason : Rejection)
  /-- The source failed to read an account. -/
  | unreadable (address : Address)
  /-- The source failed to write or delete an account. -/
  | unwritable (address : Address)
  /-- A place below the bottom of the stack was read. -/
  | badStackAccess
  /-- An item outside of a stack or a byte string was asked for. -/
  | outOfRange
  /-- Memory was written past its end. -/
  | invalidMemoryAccess
  /-- A balance would fall below zero. -/
  | negativeBalance
  /-- The refund counter would fall below zero. -/
  | negativeRefund (gas refund : Int)
  /-- A layer of the journal was committed and none was open. -/
  | commitWithoutCheckpoint
  /-- A layer of the journal was reverted and none was open. -/
  | revertWithoutCheckpoint
  /-- A frame was left in a mode that does not end it. -/
  | exitWhileActive (mode : String)
  /-- A frame was given the result of a child it does not wait for. -/
  | notWaiting (depth : Int) (mode : String)
  /-- A frame waits for a call or a creation that it never requested. -/
  | missingRequest
  /-- A creation succeeded and no address was told. -/
  | missingAddress
  /-- An integer outside the range of words was to be written in 32 bytes. -/
  | wordOverflow
  /-- A number of bits or bytes was negative, or an even number was to be inverted. -/
  | negativeCount
  /-- A signed number was to be divided by zero. -/
  | divisionByZero
  /-- A negative number was to be encoded. -/
  | negativeEncoding
  /-- A byte string was to be made that is too long to be addressed. -/
  | sizeOverflow
  /-- A byte string was to be made that there is no room for. -/
  | outOfMemory
  /-- A text is no hexadecimal text. -/
  | malformedHex
  /-- A byte string of another length than 20 was to be an address. -/
  | addressSize (size : Nat)
  /-- An execution did not end. -/
  | unbounded
  deriving DecidableEq

/-- The wording of a fault; empty for those that have no text of their own. -/
def Fault.message : Fault → String
  | .rejected reason => reason.message
  | .unreadable address => s!"failed to read account {address.hex}"
  | .unwritable address => s!"failed to write account {address.hex}"
  | .badStackAccess => "bad stack access, interpreter bug"
  | .invalidMemoryAccess => "invalid memory access, must be a bug"
  | .negativeBalance => "negative balance, must be a bug"
  | .negativeRefund gas refund => s!"refund counter below zero (gas: {gas} > refund: {refund})"
  | .commitWithoutCheckpoint => "journal commit without checkpoint"
  | .revertWithoutCheckpoint => "journal revert without checkpoint"
  | .exitWhileActive mode => s!"frame exits in non-halting mode {mode}"
  | .notWaiting depth mode => s!"frame {depth} is not waiting for a child, mode: {mode}"
  | .addressSize size => s!"address must be 20 bytes, got {size}"
  | .outOfRange | .missingRequest | .missingAddress | .wordOverflow | .negativeCount
  | .divisionByZero | .negativeEncoding | .sizeOverflow | .outOfMemory | .malformedHex
  | .unbounded => ""

/-- The byte string that a text writes. -/
def Hex.decode (text : String) : Except Fault ByteArray :=
  match Hex.decode? text with
  | some b => .ok b
  | none => .error .malformedHex

namespace Address

/-- The address that 20 bytes write. -/
def ofBytes (b : ByteArray) : Except Fault Address :=
  match ofBytes? b with
  | some a => .ok a
  | none => .error (.addressSize b.size)

/-- The address that a text writes, filled up with zeros on the left to 40 characters. -/
def ofHex (text : String) : Except Fault Address :=
  let digits := Hex.dropMark text.toList
  match Hex.readPairs .empty (List.replicate (40 - digits.length) '0' ++ digits) with
  | some b => ofBytes b
  | none => .error .malformedHex

end Address

end EvmCore
