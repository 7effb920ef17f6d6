import StakeIndex.Contract.Registry
import StakeIndex.Job

/-!
View calls: reading the state of a contract as it was at some block.
-/
namespace StakeIndex

/-- What jobs are done with: the known contracts, and how far back the chain's node answers. -/
structure Context where
  registry : Registry
  mode : NodeMode
deriving Inhabited

/-- The state to read for a height. Height zero stands for the current state. A node that keeps recent
state only is asked for its head first, and anything below it is refused. -/
def Context.stateAt (context : Context) (height : Nat) : Job BlockRef :=
  match context.mode, height with
  | .archive, 0 => return .pending
  | .archive, height => return .number height
  | .recent, 0 => return .latest
  | .recent, height => do
    let head ← Job.head
    if height < head then
      .fail (.notSupported ("state at block " ++ toString height ++
        " needs an archive node (head is " ++ toString head ++ ")"))
    else return .latest

/-- A contract whose views are called. -/
structure ViewContract where
  context : Context
  binding : Binding

namespace ViewContract

open Abi (Value)

def find (context : Context) (name : ContractName) (version : Version) : Job ViewContract := do
  return ⟨context, ← .lift (context.registry.require name version)⟩

/-- The contract of another role in the same version. -/
def sibling (c : ViewContract) (name : ContractName) : Job ViewContract :=
  find c.context name c.binding.version

def function (c : ViewContract) (method : String) : Except Failure Abi.FunctionSchema :=
  match c.binding.interface.function? method with
  | some f => .ok f
  | none => .error (.notFound ("method " ++ method ++ " not in " ++ c.binding.name.text ++ " " ++
      c.binding.version.text ++ " ABI"))

/-- The values that a function answers with in the state at a height. A call that answers with no bytes
or no values speaks of something that does not exist. -/
def call (c : ViewContract) (height : Nat) (method : String) (arguments : List Value) :
    Job (List Value) := do
  let block ← c.context.stateAt height
  let f ← .lift (c.function method)
  let input ← match f.callData? arguments with
    | some input => pure input
    | none => .fail (.invalidParameter (method ++ ": the arguments do not fit the function"))
  let output ← .chain (c.binding.name.text ++ "." ++ method) (.call block c.binding.address input)
  if output.isEmpty then .fail .emptyResponse
  else match f.outputs? output with
    | none => .fail (.decode (method ++ " output: the bytes do not fit the function"))
    | some [] => .fail .emptyResponse
    | some values => return values

/-- The number in the first field of an answer. -/
def callUint (c : ViewContract) (height : Nat) (method name : String) (arguments : List Value) :
    Job Word := do
  let values ← c.call height method arguments
  .lift (do (← Value.field values 0 name).asUint name)

end ViewContract

namespace Abi

def Value.ofWord (n : Word) : Value := .uint n 256

/-- The moment in a field of an answer. -/
def Value.asInstant (name : String) (v : Value) : Except Failure Instant := do
  return .ofSeconds (← v.asUint name).toHeight

end Abi
end StakeIndex
