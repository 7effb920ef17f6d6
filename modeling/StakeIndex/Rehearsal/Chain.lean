import StakeIndex.Chain.Request

/-!
A chain that follows a script: heads in a row, headers by rule with exceptions, logs, and answers to view
calls.
-/
namespace StakeIndex

/-- The failure of a kind that a script lets happen. -/
def Failure.scripted (kind detail : String) : Failure :=
  match kind with
  | "Database" => .poolTimedOut
  | "Transport" => .transport detail
  | "NotFound" => .notFound detail
  | "EmptyResponse" => .emptyResponse
  | "Decode" => .decode detail
  | "InvalidParameter" => .invalidParameter detail
  | "NotSupported" => .notSupported detail
  | "Timeout" => .timeout detail
  | "Config" => .config detail
  | _ => .internal detail

inductive Scripted (α : Type) where
  | answer (a : α)
  | failure (f : Failure)
  | silence
deriving Repr

def Scripted.reply {α : Type} : Scripted α → Except ChainFault α
  | answer a => .ok a
  | failure f => .error (.failed f)
  | silence => .error .silent

/-- The answer to a view call; one without a block answers for all blocks. -/
structure ScriptedCall where
  contract : Address
  input : List UInt8
  block : Option BlockRef
  output : Scripted (List UInt8)

/-- What a header is to be other than by rule. -/
inductive ScriptedHeader where
  | fields (number : Option Nat) (timestamp : Option Nat) (hash : Option Hash)
  | failure (f : Failure)

/-- A chain that follows a script. Each question for the head takes the next answer; the last one
stays. -/
structure ScriptedChain where
  heads : List (Scripted Nat)
  headers : List (Nat × ScriptedHeader)
  logs : List RawLog
  unfiltered : Bool
  logsFailure : Option Failure
  calls : List ScriptedCall

namespace ScriptedChain

/-- A chain of a thousand blocks without logs. -/
def empty : ScriptedChain := ⟨[.answer 1000], [], [], false, none, []⟩

instance : Inhabited ScriptedChain := ⟨empty⟩

/-- The header that a block has by rule: every block takes ten seconds. -/
def plainHeader (number : Option Nat) (timestamp : Option Nat) (hash : Option Hash)
    (height : Nat) : BlockHeader :=
  let n := number.getD height
  ⟨n, hash.getD (.ofWord (.ofNat n)),
    timestamp.getD (min (1600000000 + min (10 * height) topHeight) topHeight)⟩

def header (c : ScriptedChain) (height : Nat) : Except ChainFault BlockHeader :=
  match c.headers.find? fun e => e.1 == height with
  | some (_, .failure f) => .error (.failed f)
  | some (_, .fields number timestamp hash) => .ok (plainHeader number timestamp hash height)
  | none => .ok (plainHeader none none none height)

def selectLogs (c : ScriptedChain) (first last : Nat) (addresses : List Address) : List RawLog :=
  c.logs.filter fun log =>
    first ≤ log.height && log.height ≤ last && (c.unfiltered || addresses.contains log.address)

/-- The answer to a view call: the one for its block before the one for all blocks, the latest of each.
What is not in the script does not exist. -/
def call (c : ScriptedChain) (block : BlockRef) (contract : Address) (input : List UInt8) :
    Except ChainFault (List UInt8) :=
  let fitting := c.calls.reverse.filter fun e => e.contract == contract && e.input == input
  match fitting.find? (fun e => e.block == some block), fitting.find? (fun e => e.block.isNone) with
  | some e, _ => e.output.reply
  | none, some e => e.output.reply
  | none, none => .error (.failed .emptyResponse)

end ScriptedChain

end StakeIndex
