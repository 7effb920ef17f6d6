import StakeIndex.Event.Log

/-!
The events that each family of contracts is followed for, with the values that their handling needs.
Events of other names are kept as they are.
-/
namespace StakeIndex

inductive ValidatorChange where
  | registered
  | addressChanged (address : Address)
  | enabled
  | disabled
  | nodeAddressAdded (address : Address)
  | nodeAddressRemoved (address : Address)
deriving DecidableEq, Repr

structure ValidatorEvent where
  validatorId : Word
  change : ValidatorChange
deriving DecidableEq, Repr

def ValidatorEvent.read? (log : DecodedLog) : Except Failure (Option ValidatorEvent) := do
  let p := log.params
  match log.event with
  | "ValidatorRegistered" => return some ⟨← p.uint "validatorId", .registered⟩
  | "ValidatorAddressChanged" =>
    return some ⟨← p.uint "validatorId", .addressChanged (← p.address "newAddress")⟩
  | "ValidatorWasEnabled" => return some ⟨← p.uint "validatorId", .enabled⟩
  | "ValidatorWasDisabled" => return some ⟨← p.uint "validatorId", .disabled⟩
  | "NodeAddressWasAdded" =>
    return some ⟨← p.uint "validatorId", .nodeAddressAdded (← p.address "nodeAddress")⟩
  | "NodeAddressWasRemoved" =>
    return some ⟨← p.uint "validatorId", .nodeAddressRemoved (← p.address "nodeAddress")⟩
  | _ => return none

inductive DelegationChange where
  | proposed
  | accepted
  | canceledByUser
  | undelegationRequested
deriving DecidableEq, Repr

structure DelegationEvent where
  delegationId : Word
  change : DelegationChange
deriving DecidableEq, Repr

def DelegationEvent.read? (log : DecodedLog) : Except Failure (Option DelegationEvent) := do
  let about := fun change => do return some ⟨← log.params.uint "delegationId", change⟩
  match log.event with
  | "DelegationProposed" => about .proposed
  | "DelegationAccepted" => about .accepted
  | "DelegationRequestCanceledByUser" => about .canceledByUser
  | "UndelegationRequested" => about .undelegationRequested
  | _ => return none

inductive NodeChange where
  | created
  | exitInitialized
  | exitCompleted
deriving DecidableEq, Repr

structure NodeEvent where
  nodeId : Word
  change : NodeChange
deriving DecidableEq, Repr

def NodeEvent.read? (log : DecodedLog) : Except Failure (Option NodeEvent) := do
  let about := fun change => do
    return some ⟨← log.params.uintAny ["nodeIndex", "nodeId"], change⟩
  match log.event with
  | "NodeCreated" => about .created
  | "ExitInitialized" => about .exitInitialized
  | "ExitCompleted" => about .exitCompleted
  | _ => return none

/-- An event of the contract that pays rewards: a payment, or any other that names a validator. -/
inductive DistributorEvent where
  | withdrawBounty (holder : Address) (validatorId : Word) (destination : Address) (amount : Word)
  | ofValidator (validatorId : Word)
deriving DecidableEq, Repr

def DistributorEvent.read? (log : DecodedLog) : Except Failure (Option DistributorEvent) := do
  let p := log.params
  if log.event = "WithdrawBounty" then
    return some (.withdrawBounty (← p.address "holder") (← p.uint "validatorId")
      (← p.address "destination") (← p.uint "amount"))
  else if (p.find? "validatorId").isSome then
    return some (.ofValidator (← p.uint "validatorId"))
  else return none

inductive PunisherEvent where
  | slash (validatorId : Word) (amount : Word)
  | forgive (wallet : Address) (amount : Word)
deriving DecidableEq, Repr

def PunisherEvent.read? (log : DecodedLog) : Except Failure (Option PunisherEvent) := do
  let p := log.params
  match log.event with
  | "Slash" => return some (.slash (← p.uint "validatorId") (← p.uint "amount"))
  | "Forgive" => return some (.forgive (← p.address "wallet") (← p.uint "amount"))
  | _ => return none

inductive TokenEvent where
  | transfer (source target : Address) (value : Word)
  | approval (owner spender : Address) (value : Word)
deriving DecidableEq, Repr

def TokenEvent.read? (log : DecodedLog) : Except Failure (Option TokenEvent) := do
  let p := log.params
  match log.event with
  | "Transfer" => return some (.transfer (← p.address "from") (← p.address "to") (← p.uint "value"))
  | "Approval" =>
    return some (.approval (← p.address "owner") (← p.address "spender") (← p.uint "value"))
  | _ => return none

end StakeIndex
