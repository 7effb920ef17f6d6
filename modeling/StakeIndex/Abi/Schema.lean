import StakeIndex.Abi.Decode
import StakeIndex.Abi.Encode
import StakeIndex.Json.Form
import StakeIndex.Keccak

/-!
The interface of a contract: its events and functions, as they are described in JSON.
-/
namespace StakeIndex.Abi

/-- An input of an event or function, or an output of a function. -/
structure Param where
  name : String
  kind : Kind
  indexed : Bool
deriving Inhabited, Repr

def signature (name : String) (params : List Param) : String :=
  name ++ "(" ++ String.intercalate "," (params.map fun p => p.kind.name) ++ ")"

structure EventSchema where
  name : String
  inputs : List Param
  anonymous : Bool
deriving Inhabited, Repr

namespace EventSchema

def signature (e : EventSchema) : String := Abi.signature e.name e.inputs

/-- The digest of the signature: the first topic of a log. -/
def selector (e : EventSchema) : Hash := .ofBytes (Keccak.ofText e.signature)

/-- The inputs that stand in topics. -/
def indexedInputs (e : EventSchema) : List Param := e.inputs.filter (·.indexed)

/-- The inputs that stand in the data. -/
def bodyInputs (e : EventSchema) : List Param := e.inputs.filter fun p => !p.indexed

/-- The value that a topic holds: the value itself, or its digest when it takes more than one word. -/
def topicValue (kind : Kind) (topic : Hash) : Value :=
  if kind.isSingleWord then kind.ofWord topic.toBytes else .fixedBytes topic.toBytes

/-- A log has at most four topics. -/
def topicLimit : Nat := 4

/-- The number of topics of an event's logs. The first topic of an event that is not anonymous is its
selector. -/
def topicCount (e : EventSchema) : Nat := e.indexedInputs.length + if e.anonymous then 0 else 1

/-- The values of the indexed inputs and those of the others, if the number of topics is right. An event that
would need too many topics has no logs. -/
def values? (e : EventSchema) (topics : List Hash) (data : List UInt8) :
    Option (List Value × List Value) :=
  let kinds := e.inputs.map (·.kind)
  let values := if e.anonymous then topics else topics.drop 1
  if Kind.areKnown kinds ∧ e.topicCount ≤ topicLimit ∧ topics.length = e.topicCount then do
    let body ← decode? (e.bodyInputs.map (·.kind)) data
    return (e.indexedInputs.zipWith (fun p topic => topicValue p.kind topic) values, body)
  else none

end EventSchema

structure FunctionSchema where
  name : String
  inputs : List Param
  outputs : List Param
deriving Inhabited, Repr

namespace FunctionSchema

def signature (f : FunctionSchema) : String := Abi.signature f.name f.inputs

/-- The first four bytes of the digest of the signature. -/
def selector (f : FunctionSchema) : List UInt8 := (Keccak.ofText f.signature).take 4

/-- The data of a call with some arguments, if these are of the right types. -/
def callData? (f : FunctionSchema) (arguments : List Value) : Option (List UInt8) :=
  let kinds := f.inputs.map (·.kind)
  if Kind.areKnown kinds ∧ Value.haveKinds arguments kinds then
    some (f.selector ++ encode arguments)
  else none

def outputs? (f : FunctionSchema) (data : List UInt8) : Option (List Value) :=
  let kinds := f.outputs.map (·.kind)
  if Kind.areKnown kinds then decodeEach kinds data else none

end FunctionSchema

/-- An item of a contract's interface that can be used by name. -/
inductive Item where
  | event (e : EventSchema)
  | function (f : FunctionSchema)
  | other
deriving Inhabited, Repr

structure Interface where
  items : List Item
deriving Inhabited, Repr

namespace Interface

/-- The events in the order in which they are described. -/
def listedEvents (i : Interface) : List EventSchema :=
  i.items.filterMap fun
    | .event e => some e
    | _ => none

/-- The events in the order of their names; those of one name stay in their order. -/
def events (i : Interface) : List EventSchema :=
  i.listedEvents.mergeSort fun a b => a.name ≤ b.name

/-- The first function with a name. -/
def function? (i : Interface) (name : String) : Option FunctionSchema :=
  i.items.findSome? fun
    | .function f => if f.name = name then some f else none
    | _ => none

end Interface

namespace Param

/-- A member that is a name, possibly of no letters. -/
def name? (j : Json) : Option String := do
  let s ← j.text?
  if s.isEmpty ∨ Kind.isName s.toList then return s else none

/-- A member that may be missing. -/
def memberOr {α : Type} (j : Json) (name : String) (standard : α) (read : Json → Option α) :
    Option α :=
  match j.member? name with
  | none => some standard
  | some value => read value

/-- An input or output. Only an input of an event may say whether it is indexed. The fuel bounds how
deep components are inside each other. -/
def read? : Nat → Bool → Json → Option Param
  | 0, _, _ => none
  | fuel + 1, ofEvent, j => do
    let _ ← j.members?
    let name ← memberOr j "name" "" name?
    let type ← (← j.member? "type").text?
    let components ← memberOr j "components" [] Json.list?
    let parts ← components.mapM (read? fuel false)
    let indexed ← memberOr j "indexed" false fun value =>
      match value with
      | .null => some false
      | .bool b => if ofEvent then some b else none
      | _ => none
    let kind ← if parts.isEmpty then Kind.read? type
      else Kind.ofComponents? type (parts.map (·.kind))
    return ⟨name, kind, indexed⟩

def readList (ofEvent : Bool) (j : Json) (name : String) : Option (List Param) := do
  (← (← j.member? name).list?).mapM (read? Json.depthBound ofEvent)

end Param

namespace Item

/-- Whether the effect of a function on the state is one of the four known ones, if it is told. -/
def hasKnownEffect (j : Json) : Bool :=
  match j.member? "stateMutability" with
  | none => true
  | some (.text s) => ["pure", "view", "nonpayable", "payable"].contains s
  | some _ => false

def read? (j : Json) : Option Item := do
  let type ← (← j.member? "type").text?
  let effect := if hasKnownEffect j then some () else none
  match type with
  | "event" =>
    let name ← Param.name? (← j.member? "name")
    let inputs ← Param.readList true j "inputs"
    let anonymous ← Param.memberOr j "anonymous" false Json.bool?
    return .event ⟨name, inputs, anonymous⟩
  | "function" =>
    let name ← Param.name? (← j.member? "name")
    let inputs ← Param.readList false j "inputs"
    let outputs ← Param.readList false j "outputs"
    effect
    return .function ⟨name, inputs, outputs⟩
  | "error" =>
    let _ ← Param.name? (← j.member? "name")
    let _ ← Param.readList false j "inputs"
    return .other
  | "constructor" =>
    let _ ← Param.readList false j "inputs"
    effect
    return .other
  | "fallback" => do effect; return .other
  | "receive" => do effect; return .other
  | _ => none

end Item

def Interface.read? (j : Json) : Option Interface := do
  return ⟨← (← j.list?).mapM Item.read?⟩

end StakeIndex.Abi
