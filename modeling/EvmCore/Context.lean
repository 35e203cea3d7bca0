import EvmCore.Account

/-!
# The context of an execution

What a transaction runs under and cannot change: the block, the transaction's origin and gas price,
and the contracts that are built into the machine.
-/

namespace EvmCore

/-- The block that a transaction is included in. -/
structure Block where
  coinbase : Address := 0
  gasLimit : Int := 30000000
  number : Int := 0
  time : Int := 0
  difficulty : Int := 0
  baseFee : Int := 0
  chainId : Int := 1
  /-- The hashes of recent blocks by their numbers. -/
  hashes : Std.ExtTreeMap Int ByteArray := ∅

namespace Block

/-- How many blocks back a hash can be asked for. -/
def hashHistory : Int := 256

/-- The hash of a recent block as a word; zero for the current block, later and older ones. -/
def hash (b : Block) (number : Word) : Word :=
  let oldest := if hashHistory < b.number then b.number - hashHistory else 0
  if oldest ≤ number ∧ number < b.number then
    match b.hashes[number]? with
    | some h => Bytes.toWord h
    | none => 0
  else 0

end Block

/-- A contract built into the machine: from the input and the gas available to the output and the
gas it costs. -/
abbrev Precompile := ByteArray → Int → Except Fault (ByteArray × Int)

/-- What a transaction runs under. -/
structure Context where
  block : Block := {}
  /-- The sender of the transaction. -/
  origin : Address := 0
  gasPrice : Int := 0
  precompiles : Std.ExtTreeMap Address Precompile := ∅

end EvmCore
