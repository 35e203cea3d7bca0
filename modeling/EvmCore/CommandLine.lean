import EvmCore.Decimal
import EvmCore.Json
import EvmCore.Transaction

/-!
# The command line

`run CODE` sends a call to a contract with the given code, on accounts made up for the purpose, and
prints what comes of it; `disasm CODE` prints the instructions of the code. Options may stand before
and after the code, with their value as the next argument or after an equals sign.
-/

namespace EvmCore

namespace CommandLine

/-- The gas of the call unless told otherwise. -/
def defaultGas : Int := 10000000

/-- What `run` is asked to do. -/
structure RunOptions where
  /-- The code to run, in hexadecimal. -/
  code : String
  gas : Int := defaultGas
  /-- The value sent with the call. -/
  value : Int := 0
  /-- The input of the call, in hexadecimal. -/
  callData : String := ""
  /-- Whether each step is printed. -/
  trace : Bool := false
  /-- Whether the result is printed as a record. -/
  json : Bool := false
  /-- Whether events are reported. -/
  verbose : Bool := false

/-- A command that is well formed. -/
inductive Command where
  | run (options : RunOptions)
  | disasm (code : String)

/-- What a command comes to. -/
inductive Report where
  /-- The arguments make no command. -/
  | usageError
  /-- The command ended, with this standard output and error output. -/
  | finished (output errors : String)
  /-- The command was cut short, having written this error output. -/
  | failed (fault : Fault) (errors : String)

/-! ### Arguments -/

/-- Arguments sorted into options and others. Of an option that stands twice the last counts. -/
structure Arguments where
  flags : List String := []
  values : List (String × String) := []
  positional : List String := []

namespace Arguments

/-- Sorts arguments, given the names of the options without and with a value. -/
def sort? (flags valued : List String) (found : Arguments) : List String → Option Arguments
  | [] => some { found with positional := found.positional.reverse }
  | "--" :: rest => some { found with positional := found.positional.reverse ++ rest }
  | arg :: rest =>
    if arg.startsWith "-" && arg ≠ "-" then
      if flags.contains arg then
        sort? flags valued { found with flags := arg :: found.flags } rest
      else if valued.contains arg then
        match rest with
        | [] => none
        | value :: rest =>
          sort? flags valued { found with values := (arg, value) :: found.values } rest
      else
        let name := arg.toList.takeWhile (· ≠ '=')
        let value := arg.toList.drop (name.length + 1)
        if name.length < arg.length && valued.contains (String.ofList name) then
          let entry := (String.ofList name, String.ofList value)
          sort? flags valued { found with values := entry :: found.values } rest
        else none
    else sort? flags valued { found with positional := arg :: found.positional } rest

/-- The value of an option, if it is given. -/
def value? (a : Arguments) (name : String) : Option String := a.values.lookup name

end Arguments

/-- An option that holds a number; its default if it is not given. -/
def intOption? (a : Arguments) (name : String) (default : Int) : Option Int :=
  match a.value? name with
  | none => some default
  | some text => Decimal.read? text

/-- The command that the arguments of `run` make. -/
def parseRun? (args : List String) : Option Command := do
  let a ← Arguments.sort? ["--trace", "--json", "--verbose"] ["--gas", "--value", "--calldata"] {}
    args
  match a.positional with
  | [code] =>
    return .run
      { code
        gas := ← intOption? a "--gas" defaultGas
        value := ← intOption? a "--value" 0
        callData := (a.value? "--calldata").getD ""
        trace := a.flags.contains "--trace"
        json := a.flags.contains "--json"
        verbose := a.flags.contains "--verbose" }
  | _ => none

/-- The command that the arguments of `disasm` make. -/
def parseDisasm? (args : List String) : Option Command := do
  let a ← Arguments.sort? [] [] {} args
  match a.positional with
  | [code] => return .disasm code
  | _ => none

/-- The command that the arguments make. -/
def parse? : List String → Option Command
  | "--" :: name :: args | name :: args =>
    match name with
    | "run" => parseRun? args
    | "disasm" => parseDisasm? args
    | _ => none
  | [] => none

/-! ### Disassembly -/

/-- A number in hexadecimal with at least four digits. -/
def offsetText (n : Nat) : String :=
  let digits := String.ofList (Nat.toDigits 16 n)
  "".pushn '0' (4 - digits.length) ++ digits

/-- The line of an instruction. -/
def instructionLine (i : Instruction) : String :=
  let line := offsetText i.offset ++ ": " ++ i.name
  match i.immediate? with
  | none => line
  | some immediate => line ++ " " ++ Hex.encode immediate

/-- Lines, each with its end. -/
def lines (ls : List String) : String := ls.foldl (fun text line => text ++ line ++ "\n") ""

/-! ### Running code -/

/-- The account that sends the call. -/
def sender : Address := 0x5e5de5

/-- The account that holds the code. -/
def contract : Address := 0xc0de

/-- The accounts that code is run on: a rich sender and the contract. -/
def accounts (code : ByteArray) : Source where
  accounts := Std.ExtTreeMap.insert
    (Std.ExtTreeMap.insert ∅ sender { balance := 1000000000000000000000 }) contract { code }

/-- The call that is sent. -/
def transaction (options : RunOptions) (callData : ByteArray) : Transaction where
  sender := sender
  nonce := 0
  gasLimit := options.gas
  recipient := some contract
  value := options.value
  data := callData

/-- The block that the call is included in, with room for all of its gas. -/
def block (options : RunOptions) : Block where
  gasLimit := max options.gas ({} : Block).gasLimit

/-- A log as a record. -/
def logJson (log : Log) : Json :=
  .record
    [("address", .text (Hex.encode log.address.toBytes)),
      ("topics", .list (log.topics.map fun topic => .text (Hex.encode topic))),
      ("data", .text (Hex.encode log.data))]

/-- A step as a record. -/
def stepJson (step : TraceStep) : Json :=
  .record
    [("depth", .number step.depth), ("pc", .number step.pc), ("op", .text step.opcode.name),
      ("gas", .number step.gas), ("stack", .number step.stackSize)]

/-- A receipt as a record, with the steps if they were recorded. -/
def receiptJson (receipt : Receipt) (trace : Option (List TraceStep)) : Json :=
  .record <|
    [("status", .text receipt.status.name),
      ("error", match receipt.failure with
        | some failure => .text failure.name
        | none => .null),
      ("gas_used", .number receipt.gasUsed),
      ("refund", .number receipt.refund),
      ("output", .text (Hex.encode receipt.output)),
      ("logs", .list (receipt.logs.map logJson))] ++
    match trace with
    | some steps => [("steps", .list (steps.map stepJson))]
    | none => []

/-- A text filled up with spaces on the left. -/
def padLeft (width : Nat) (s : String) : String := "".pushn ' ' (width - s.length) ++ s

/-- A text filled up with spaces on the right. -/
def padRight (width : Nat) (s : String) : String := s.pushn ' ' (width - s.length)

/-- The line of a step. -/
def stepLine (step : TraceStep) : String :=
  s!"{step.depth} {padLeft 6 (toString step.pc)} {padRight 14 step.opcode.name} " ++
    s!"gas: {step.gas} stack: {step.stackSize}"

/-- The line of a log. -/
def logLine (log : Log) : String :=
  "log: " ++ Hex.encode log.address.toBytes ++ " topics=[" ++
    String.intercalate ", " (log.topics.map Hex.encode) ++ "] data=" ++ Hex.encode log.data

/-- The lines of a receipt, after those of the steps if they were recorded. -/
def receiptLines (receipt : Receipt) (trace : Option (List TraceStep)) : List String :=
  (trace.getD []).map stepLine ++ ["status: " ++ receipt.status.name] ++
    (match receipt.failure with
      | some failure => ["error: " ++ failure.name]
      | none => []) ++
    [s!"gas used: {receipt.gasUsed}", "output: " ++ Hex.encode receipt.output] ++
    receipt.logs.map logLine

/-- Sends a call to a contract with the given code. -/
def runCode (options : RunOptions) : Report :=
  match Hex.decode? options.code, Hex.decode? options.callData with
  | some code, some callData =>
    let state : State :=
      { State.ofSource (accounts code) with trace := if options.trace then some #[] else none }
    let errors (s : State) :=
      if options.verbose then lines (s.events.toList.map Event.line) else ""
    match (transaction options callData).apply (block options) ∅ state with
    | .ok receipt s =>
      let trace := s.trace.map Array.toList
      let output :=
        if options.json then (receiptJson receipt trace).render 0 ++ "\n"
        else lines (receiptLines receipt trace)
      .finished output (errors s)
    | .error fault s => .failed fault (errors s)
  | _, _ => .failed .malformedHex ""

/-- Carries out a command. -/
def Command.report : Command → Report
  | .run options => runCode options
  | .disasm code =>
    match Hex.decode? code with
    | some bytes => .finished (lines ((disassemble bytes).map instructionLine)) ""
    | none => .failed .malformedHex ""

/-- Carries out the command that the arguments make. -/
def report (args : List String) : Report :=
  match parse? args with
  | some command => command.report
  | none => .usageError

end CommandLine

end EvmCore
