import EvmCore.Machine

/-!
# Transactions

Applying a transaction to the accounts of a source: it is validated, its gas is bought, it runs as a
call or a creation, unused gas and part of the used gas are given back, the fee is paid, accounts
that are to go are removed, and every changed account is written back. A transaction that fails is
still included and pays for its gas; one that is refused changes nothing.
-/

namespace EvmCore

/-- An account and some of its storage slots that a transaction announces to access. -/
structure AccessEntry where
  address : Address
  keys : List Word := []

/-- A transaction. -/
structure Transaction where
  sender : Address
  nonce : Int
  gasLimit : Int
  /-- The account to call; a transaction without one creates a contract. -/
  recipient : Option Address := none
  value : Int := 0
  data : ByteArray := .empty
  /-- The price per unit of gas, if no maximum fee is given. -/
  gasPrice : Int := 0
  maxFee : Option Int := none
  priorityFee : Option Int := none
  accessList : List AccessEntry := []
  chainId : Option Int := none

/-- The result of a transaction that was included. -/
structure Receipt where
  status : Status
  /-- The failure of the outermost frame, if it failed. -/
  failure : Option Failure
  /-- The gas used, less the refund. -/
  gasUsed : Int
  refund : Int
  output : ByteArray
  logs : List Log
  created : Option Address
  selfDestructed : List Address

namespace Transaction

/-- The gas for the data: bytes that are not zero cost more. -/
def dataGas (data : ByteArray) : Int :=
  let nonZero : Int := data.data.countP (· ≠ 0)
  nonZero * Gas.txNonZeroByte + (data.size - nonZero) * Gas.txZeroByte

/-- The gas that a transaction uses before anything runs. -/
def intrinsicGas (tx : Transaction) : Int :=
  let base := if tx.recipient.isNone then Gas.txCreate else Gas.tx
  let keys := tx.accessList.flatMap AccessEntry.keys
  base + dataGas tx.data + tx.accessList.length * Gas.txAccessAddress + keys.length *
    Gas.txAccessKey

/-- The most that the sender pays per unit of gas, and the most of it that goes to the coinbase. A
gas price is both. -/
def feeCaps (tx : Transaction) : Int × Int :=
  match tx.maxFee with
  | none => (tx.gasPrice, tx.gasPrice)
  | some maxFee => (maxFee, tx.priorityFee.getD 0)

/-- What the sender pays per unit of gas in a block with a base fee. -/
def effectiveGasPrice (tx : Transaction) (baseFee : Int) : Int :=
  min tx.feeCaps.1 (baseFee + tx.feeCaps.2)

/-- Refuses for a reason unless a condition holds. -/
def require (condition : Bool) (reason : Rejection) : Action Unit :=
  if condition then pure () else throw (.rejected reason)

/-- Checks that a transaction can be included in a block. -/
def validate (tx : Transaction) (block : Block) : Action Unit := do
  let (maxFee, priorityFee) := tx.feeCaps
  if let some chainId := tx.chainId then
    require (chainId = block.chainId) (.chainIdMismatch chainId block.chainId)
  require (priorityFee ≤ maxFee) (.priorityFeeAboveMaxFee priorityFee maxFee)
  require (block.baseFee ≤ maxFee) (.maxFeeBelowBaseFee maxFee block.baseFee)
  require (tx.gasLimit ≤ block.gasLimit) (.gasLimitReached tx.gasLimit block.gasLimit)
  require (tx.intrinsicGas ≤ tx.gasLimit) (.intrinsicGasTooLow tx.gasLimit tx.intrinsicGas)
  let nonce ← World.nonce tx.sender
  require (tx.nonce = nonce) (.nonceMismatch tx.nonce nonce)
  require (nonce < maxNonce) .nonceAtMaximum
  let balance ← World.balance tx.sender
  let cost := tx.gasLimit * maxFee + tx.value
  require (cost ≤ balance) (.insufficientFunds balance cost)

/-- Warms the sender, the contracts built into the machine, and what the transaction announces. -/
def warmUp (tx : Transaction) (ctx : Context) : Action Unit := do
  discard (Substate.warmAccount tx.sender)
  ctx.precompiles.keys.forM fun a => discard (Substate.warmAccount a)
  tx.accessList.forM fun entry => do
    discard (Substate.warmAccount entry.address)
    entry.keys.forM fun key => discard (Substate.warmSlot ⟨entry.address, key⟩)

/-- Starts the call or the creation of a transaction. -/
def start (tx : Transaction) (ctx : Context) : Action Start := do
  let gas := tx.gasLimit - tx.intrinsicGas
  match tx.recipient with
  | none =>
    let address ← Creation.addressAt tx.sender tx.nonce
    discard (Substate.warmAccount address)
    Creation.start
      { creator := tx.sender, address, initCode := tx.data, gas, value := tx.value, depth := 0 }
  | some recipient =>
    World.incrementNonce tx.sender
    discard (Substate.warmAccount recipient)
    Call.start ctx
      { caller := tx.sender
        address := recipient
        codeAddress := recipient
        value := tx.value
        gas
        input := tx.data }

/-- The gas that is given back beside the unused gas: the refund counter, up to a share of the gas
used. -/
def refundOf (counter gasUsed : Int) : Int := min counter (gasUsed / Gas.refundQuotient)

/-- Removes the account at an address if it is empty. -/
def prune (a : Address) : Action Unit := do
  if ← World.isPresent a then
    if ← World.isEmpty a then World.delete a

/-- Removes the contracts that destroyed themselves and the touched accounts that are empty, each in
ascending order; the result is the former. -/
def removeAccounts : Action (List Address) := do
  let selfDestructed := (← get).substate.selfDestructs.toList
  selfDestructed.forM World.delete
  (← get).substate.touched.toList.forM prune
  return selfDestructed

/-- Gives gas back, pays the fee, removes accounts and writes the changed ones back. -/
def settle (tx : Transaction) (block : Block) (outcome : Outcome) : Action Receipt := do
  let price := tx.effectiveGasPrice block.baseFee
  let used := tx.gasLimit - outcome.gasLeft
  let refund := refundOf (← get).substate.refund used
  let gasUsed := used - refund
  World.addBalance tx.sender ((tx.gasLimit - gasUsed) * price)
  World.addBalance block.coinbase (gasUsed * (price - block.baseFee))
  Substate.touch block.coinbase
  let selfDestructed ← removeAccounts
  World.flush
  let status := Status.ofExit outcome.exit
  State.emit (.applied tx.sender tx.nonce status gasUsed refund)
  return {
    status
    failure := outcome.exit.failure?
    gasUsed
    refund
    output := outcome.output
    logs := (← get).substate.logs.toList
    created := outcome.created
    selfDestructed }

/-- Applies a transaction to the accounts of a source. -/
def apply (tx : Transaction) (block : Block)
    (precompiles : Std.ExtTreeMap Address Precompile := ∅) : Action Receipt := do
  tx.validate block
  let price := tx.effectiveGasPrice block.baseFee
  World.subBalance tx.sender (tx.gasLimit * price)
  let ctx : Context := { block, origin := tx.sender, gasPrice := price, precompiles }
  tx.warmUp ctx
  let outcome ← (← tx.start ctx).finish ctx
  tx.settle block outcome

end Transaction

end EvmCore
