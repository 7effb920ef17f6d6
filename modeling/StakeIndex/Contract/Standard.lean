import StakeIndex.Contract.Registry
import StakeIndex.Entity.Event

/-!
The contracts of the staking system as version 1.9.0 has them, at addresses made up for rehearsals, and
the logs that their events leave.
-/
namespace StakeIndex.Standard

open Abi (Kind Param Item Interface EventSchema Value)

def version : Version := .read "1.9.0"

def address (name : ContractName) : Address := .repeated (0xa0 + UInt8.ofNat name.rank)

def number : Kind := .uint 256

def params (named : List (String × Kind)) : List Param :=
  named.map fun (name, kind) => ⟨name, kind, false⟩

def view (name : String) (inputs : List (String × Kind)) (outputs : List (String × Kind)) : Item :=
  .function ⟨name, params inputs, params outputs⟩

/-- An event with some of its inputs in topics. -/
def event (name : String) (indexed : List (String × Kind)) (body : List (String × Kind)) : Item :=
  .event ⟨name, indexed.map (fun (name, kind) => ⟨name, kind, true⟩) ++ params body, false⟩

def validatorService : Interface := ⟨[
  view "getValidator" [("validatorId", number)]
    [("", .tuple [.string, .address, .address, .string, number, number, number, .bool])],
  view "isAuthorizedValidator" [("validatorId", number)] [("", .bool)],
  event "ValidatorRegistered" [] [("validatorId", number)],
  event "ValidatorAddressChanged" [] [("validatorId", number), ("newAddress", .address)],
  event "ValidatorWasEnabled" [] [("validatorId", number)],
  event "ValidatorWasDisabled" [] [("validatorId", number)],
  event "NodeAddressWasAdded" [] [("validatorId", number), ("nodeAddress", .address)],
  event "NodeAddressWasRemoved" [] [("validatorId", number), ("nodeAddress", .address)]]⟩

def delegationController : Interface := ⟨[
  view "getDelegation" [("delegationId", number)]
    [("", .tuple [.address, number, number, number, number, number, number, .string])],
  view "getState" [("delegationId", number)] [("", .uint 8)],
  view "getDelegationsByHolderLength" [("holder", .address)] [("", number)],
  view "delegationsByHolder" [("", .address), ("", number)] [("", number)],
  view "getDelegationsByValidatorLength" [("validatorId", number)] [("", number)],
  view "delegationsByValidator" [("", number), ("", number)] [("", number)],
  view "getLockedInPendingDelegations" [("holder", .address)] [("", number)],
  event "DelegationProposed" [] [("delegationId", number)],
  event "DelegationAccepted" [] [("delegationId", number)],
  event "DelegationRequestCanceledByUser" [] [("delegationId", number)],
  event "UndelegationRequested" [] [("delegationId", number)]]⟩

def nodes : Interface := ⟨[
  view "nodes" [("", number)]
    [("name", .string), ("ip", .fixedBytes 4), ("publicIP", .fixedBytes 4), ("port", .uint 16),
      ("startBlock", number), ("lastRewardDate", number), ("finishTime", number),
      ("status", .uint 8), ("validatorId", number)],
  view "getNodeNextRewardDate" [("nodeIndex", number)] [("", number)],
  view "getValidatorNodeIndexes" [("validatorId", number)] [("", .array number)],
  event "NodeCreated" []
    [("nodeIndex", number), ("owner", .address), ("name", .string), ("ip", .fixedBytes 4),
      ("publicIP", .fixedBytes 4), ("port", .uint 16), ("nonce", .uint 16), ("time", number),
      ("gasSpend", number)],
  event "ExitInitialized" []
    [("nodeIndex", number), ("startLeavingPeriod", number), ("time", number),
      ("gasSpend", number)],
  event "ExitCompleted" [] [("nodeIndex", number), ("time", number), ("gasSpend", number)]]⟩

def distributor : Interface := ⟨[
  view "getEarnedFeeAmountOf" [("validatorId", number)] [("earned", number), ("endMonth", number)],
  event "WithdrawBounty" []
    [("holder", .address), ("validatorId", number), ("destination", .address),
      ("amount", number)],
  event "WithdrawFee" [] [("validatorId", number), ("destination", .address), ("amount", number)]]⟩

def punisher : Interface := ⟨[
  event "Slash" [] [("validatorId", number), ("amount", number)],
  event "Forgive" [] [("wallet", .address), ("amount", number)]]⟩

def manager : Interface := ⟨[
  event "BountyReceived" [("nodeIndex", number)]
    [("owner", .address), ("averageDowntime", number), ("averageLatency", number),
      ("bounty", number), ("previousBlockEvent", number), ("time", number),
      ("gasSpend", number)]]⟩

def token : Interface := ⟨[
  view "balanceOf" [("owner", .address)] [("", number)],
  view "totalSupply" [] [("", number)],
  event "Transfer" [("from", .address), ("to", .address)] [("value", number)],
  event "Approval" [("owner", .address), ("spender", .address)] [("value", number)],
  event "Minted" [("operator", .address), ("to", .address)]
    [("amount", number), ("data", .bytes), ("operatorData", .bytes)]]⟩

def interface : ContractName → Interface
  | .validatorService => validatorService
  | .delegationController => delegationController
  | .nodes => nodes
  | .distributor => distributor
  | .punisher => punisher
  | .manager => manager
  | .token => token
  | .bounty => manager
  | .bountyV2 => manager

def binding (name : ContractName) : Binding := ⟨name, version, address name, interface name⟩

/-- The registry of all contracts but the bounties. -/
def registry : Registry :=
  .ofBindings ([.validatorService, .nodes, .delegationController, .distributor, .punisher, .token,
    .manager].map binding)

/-- The word of a value that takes one. -/
def topic? (v : Value) : Option Hash :=
  match v with
  | .bool _ | .uint _ _ | .int _ _ | .address _ | .fixedBytes _ | .function _ =>
    some (.ofBytes v.part.bytes)
  | _ => none

/-- The log of an event with some values of its inputs, if those in topics take one word each. Values
beyond the inputs do not count, and inputs without a value are left out. -/
def log? (event : EventSchema) (source : Address) (values : List Value) (height index : Nat) :
    Option RawLog := do
  let given := event.inputs.zip values
  let topics ← (given.filter (·.1.indexed)).mapM fun (_, v) => topic? v
  return {
    address := source
    topics := event.selector :: topics
    data := Abi.encode ((given.filter fun (p, _) => !p.indexed).map (·.2))
    height
    txHash := .ofWord (.ofNat (height * 1000 + index))
    logIndex := index
    removed := false }

end StakeIndex.Standard
