/-!
# The gas schedule

What each kind of work costs.
-/

namespace EvmCore

namespace Gas

/-! ### Tiers of instructions -/

/-- Pushing something the frame knows. -/
def quickStep : Int := 2

/-- Simple arithmetic, and moving words on the stack or to memory. -/
def fastestStep : Int := 3

/-- Multiplication and division. -/
def fastStep : Int := 5

/-- Arithmetic on three words, and jumps. -/
def midStep : Int := 8

/-- Conditional jumps. -/
def slowStep : Int := 10

/-- Asking for the hash of a block. -/
def extStep : Int := 20

/-- Passing a jump destination. -/
def jumpDest : Int := 1

/-! ### Memory, copying and hashing -/

/-- Per word of memory, beside the quadratic part. -/
def memoryWord : Int := 3

/-- The divisor of the quadratic part of the cost of memory. -/
def quadraticDivisor : Int := 512

/-- The largest memory size that can be paid for at all. -/
def maxMemorySize : Int := 0x1FFFFFFFE0

/-- Per word copied to memory. -/
def copyWord : Int := 3

/-- Hashing, beside the cost of the data. -/
def keccak : Int := 30

/-- Per word of hashed data. -/
def keccakWord : Int := 6

/-- Exponentiation, beside the cost of the exponent. -/
def exp : Int := 10

/-- Per byte of an exponent. -/
def expByte : Int := 50

/-! ### Logs -/

/-- Any log. -/
def log : Int := 375

/-- Per topic of a log. -/
def logTopic : Int := 375

/-- Per byte of a log's data. -/
def logByte : Int := 8

/-! ### Access to accounts and storage -/

/-- The first access to an account. -/
def coldAccount : Int := 2600

/-- The first access to a storage slot. -/
def coldSlot : Int := 2100

/-- Any later access. -/
def warmAccess : Int := 100

/-- Gas that has to be left for a storage slot to be written at all. -/
def storeSentry : Int := 2300

/-- Setting a slot that was zero before the transaction. -/
def storeSet : Int := 20000

/-- Changing a slot that was not zero before the transaction. -/
def storeReset : Int := 5000 - coldSlot

/-- Given back for clearing a slot. -/
def storeClearRefund : Int := 4800

/-! ### Calls and creations -/

/-- A call that transfers value. -/
def callValueTransfer : Int := 9000

/-- A call that transfers value to an empty account. -/
def callNewAccount : Int := 25000

/-- Given to the callee of a call that transfers value. -/
def callStipend : Int := 2300

/-- A creation, beside the cost of the init code. -/
def create : Int := 32000

/-- Per byte of deployed code. -/
def createByte : Int := 200

/-- A contract that destroys itself. -/
def selfDestruct : Int := 5000

/-- A contract that destroys itself and leaves a balance to an empty account. -/
def selfDestructNewAccount : Int := 25000

/-! ### Transactions -/

/-- Any transaction that calls. -/
def tx : Int := 21000

/-- Any transaction that creates a contract. -/
def txCreate : Int := 53000

/-- Per zero byte of a transaction's data. -/
def txZeroByte : Int := 4

/-- Per other byte of a transaction's data. -/
def txNonZeroByte : Int := 16

/-- Per account that a transaction announces to access. -/
def txAccessAddress : Int := 2400

/-- Per storage slot that a transaction announces to access. -/
def txAccessKey : Int := 1900

/-- At most this fraction of the gas used is given back. -/
def refundQuotient : Int := 5

end Gas

end EvmCore
