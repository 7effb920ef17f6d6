import StakeIndex.Handling.Delegation
import StakeIndex.Handling.Validator

/-!
Events of nodes, rewards, punishments and the token, and the choice of the handling by the contract's
role. The events of the remaining contracts are kept as they are.
-/
namespace StakeIndex

/-- Handles an event of nodes: the node is read anew and its validator's counts are computed anew. -/
def handleNode (c : ViewContract) (log : DecodedLog) (e : ContractEvent) : Job ContractEvent := do
  match ← .lift (NodeEvent.read? log) with
  | none => return e
  | some parsed =>
    let n ← c.node parsed.nodeId e.height
    .store (.saveNodes [{ n with eventTime := e.time }])
    recalculateNodes (e.calculation n.validatorId)
    return e.bind .node [parsed.nodeId] []

/-- Handles an event of rewards: a payment adds to what its holder claimed. -/
def handleDistributor (log : DecodedLog) (e : ContractEvent) : Job ContractEvent := do
  match ← .lift (DistributorEvent.read? log) with
  | none => return e
  | some (.withdrawBounty holder validatorId _ amount) =>
    .store (.recordRewardClaim ⟨holder, e.height, e.logIndex, e.time, amount⟩)
    return e.bind .delegator [validatorId] [holder]
  | some (.ofValidator validatorId) => return e.bind .validator [validatorId] []

def handlePunisher (log : DecodedLog) (e : ContractEvent) : Job ContractEvent := do
  match ← .lift (PunisherEvent.read? log) with
  | none => return e
  | some (.slash validatorId amount) =>
    .store (.saveSystemEvent (((SystemEvent.start e.height e.time .slashed).receivedBy
      validatorId .zero).between 0 amount))
    return e.bind .validator [validatorId] []
  | some (.forgive wallet amount) =>
    .store (.saveSystemEvent (((SystemEvent.start e.height e.time .forgiven).receivedBy
      0 wallet).between 0 amount))
    return e.bind .account [] [wallet]

def TokenEvent.parties : TokenEvent → List Address
  | transfer source target _ => [source, target]
  | approval owner spender _ => [owner, spender]

/-- Handles an event of the token: its parties become accounts, except for the address of no account. -/
def handleToken (log : DecodedLog) (e : ContractEvent) : Job ContractEvent := do
  match ← .lift (TokenEvent.read? log) with
  | none => return e
  | some parsed =>
    for address in parsed.parties do
      if address ≠ .zero then .store (.saveAccount ⟨address, .default⟩)
    return e.bind .account [] parsed.parties

/-- Handles an event as its contract's family does. -/
def handleEvent (context : Context) (binding : Binding) (log : DecodedLog) (e : ContractEvent) :
    Job ContractEvent :=
  let c : ViewContract := ⟨context, binding⟩
  match binding.name with
  | .validatorService => handleValidator c log e
  | .nodes => handleNode c log e
  | .delegationController => handleDelegation c log e
  | .punisher => handlePunisher log e
  | .token => handleToken log e
  | .distributor => handleDistributor log e
  | .manager | .bounty | .bountyV2 => return e

end StakeIndex
