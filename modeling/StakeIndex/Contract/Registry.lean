import StakeIndex.Abi.Schema
import StakeIndex.Contract.Version
import StakeIndex.Entity.Contract

/-!
The registry of deployed contracts: which contract an address is, where the contract of a role and
version is deployed, and which event a selector stands for.
-/
namespace StakeIndex

/-- A contract: its role, version and address, and how it is spoken to. -/
structure Binding where
  name : ContractName
  version : Version
  address : Address
  interface : Abi.Interface
deriving Inhabited, Repr

structure Registry where
  byAddress : Table Address Binding
  byVersion : Table (ContractName × Version) Binding
  events : Table Hash Abi.EventSchema
deriving Repr

namespace Registry

def empty : Registry := ⟨∅, ∅, ∅⟩

instance : Inhabited Registry := ⟨empty⟩

/-- An event under its selector, unless there is one already. -/
def addEvent (events : Table Hash Abi.EventSchema) (event : Abi.EventSchema) :
    Table Hash Abi.EventSchema :=
  match events.find? event.selector with
  | some _ => events
  | none => events.insert event.selector event

/-- A binding under its address, unless one that is not older is there already. -/
def addAddress (byAddress : Table Address Binding) (binding : Binding) : Table Address Binding :=
  match byAddress.find? binding.address with
  | some present =>
    if compare present.version binding.version = .lt then byAddress.insert binding.address binding
    else byAddress
  | none => byAddress.insert binding.address binding

/-- The registry with one more contract. It takes the place of one of the same role and version; its
address is its own unless a contract that is not older has it; the first event of a selector stays. -/
def insert (registry : Registry) (binding : Binding) : Registry where
  byAddress := addAddress registry.byAddress binding
  byVersion := registry.byVersion.insert (binding.name, binding.version) binding
  events := binding.interface.events.foldl addEvent registry.events

def ofBindings (bindings : List Binding) : Registry := bindings.foldl insert empty

def atAddress? (registry : Registry) (address : Address) : Option Binding :=
  registry.byAddress.find? address

def find? (registry : Registry) (name : ContractName) (version : Version) : Option Binding :=
  registry.byVersion.find? (name, version)

def require (registry : Registry) (name : ContractName) (version : Version) :
    Except Failure Binding :=
  match registry.find? name version with
  | some binding => .ok binding
  | none => .error (.notFound (name.text ++ " " ++ version.text ++ " is not registered"))

/-- All contracts of a role, the newest first. -/
def versionsOf (registry : Registry) (name : ContractName) : List Binding :=
  (registry.byVersion.filter fun key _ => key.1 == name).values.reverse

def newest? (registry : Registry) (name : ContractName) : Option Binding :=
  (registry.byVersion.last? fun key => key.1 == name).map (·.2)

/-- For each of some roles all its contracts, the newest first, under the address of the newest one. -/
def newestFirst (registry : Registry) (names : List ContractName) : Table Address (List Binding) :=
  names.foldl (fun found name =>
    match registry.versionsOf name with
    | [] => found
    | newest :: older => found.insert newest.address (newest :: older)) ∅

def event? (registry : Registry) (selector : Hash) : Option Abi.EventSchema :=
  registry.events.find? selector

def addresses (registry : Registry) : List Address := registry.byAddress.keys

/-- The addresses of the contracts of a version in their order, each once. -/
def addressesOf (registry : Registry) (version : Version) : List Address :=
  (Table.ofList ((registry.byVersion.filter fun key _ => key.2 == version).values.map
    fun binding => (binding.address, ()))).keys

def size (registry : Registry) : Nat := registry.byVersion.size

end Registry
end StakeIndex
