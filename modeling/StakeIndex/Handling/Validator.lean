import StakeIndex.Event.Family
import StakeIndex.View.Node
import StakeIndex.View.Validator

/-!
Events of validators: the validator is read anew, changes of its fee and of the least delegation it takes
are recorded against its last older snapshot, and what else the event tells is stored.
-/
namespace StakeIndex

/-- Computes the counts of a validator's nodes anew. -/
def recalculateNodes (at_ : Calculation) : Job Unit := do
  let _ ← .store (.calculate .activeNodes at_)
  let _ ← .store (.calculate .linkedNodes at_)

/-- The events that changes of parameters are recorded as. -/
def Validator.parameterChanges (previous current : Validator) (e : ContractEvent) :
    List SystemEvent :=
  let changes : List (SystemEventKind × Word × Word) := [
    (.feeChange, previous.feeRate, current.feeRate),
    (.minimumDelegationChange, previous.minimumDelegation, current.minimumDelegation)]
  (changes.filter fun (_, before, after) => before ≠ after).map fun (kind, before, after) =>
    ((SystemEvent.start e.height e.time kind).sentBy current.id current.address).between before after

/-- Stores what an event tells beside the validator itself. -/
def ValidatorEvent.follow (parsed : ValidatorEvent) (c : ViewContract) (v : Validator)
    (e : ContractEvent) : Job Unit := do
  let membership := fun kind =>
    Job.store (.saveSystemEvent ((SystemEvent.start e.height e.time kind).sentBy
      parsed.validatorId v.address))
  let refreshNodes : Job Unit := do
    let nodes ← (← c.sibling .nodes).validatorNodes parsed.validatorId e.height
    .store (.saveNodes (nodes.map fun n => { n with eventTime := e.time, height := e.height }))
    recalculateNodes (e.calculation parsed.validatorId)
  match parsed.change with
  | .nodeAddressAdded _ => refreshNodes
  | .nodeAddressRemoved _ => refreshNodes
  | .registered => .store (.saveAccount ⟨v.address, .validator⟩)
  | .addressChanged address => .store (.saveAccount ⟨address, .validator⟩)
  | .enabled => membership .joinedActiveSet
  | .disabled => membership .leftActiveSet

def handleValidator (c : ViewContract) (log : DecodedLog) (e : ContractEvent) :
    Job ContractEvent := do
  match ← .lift (ValidatorEvent.read? log) with
  | none => return e
  | some parsed =>
    let id := parsed.validatorId
    let v ← c.validator id e.height
    let older ← .store (.validators { id := some id, before := some e.height })
    .store (.saveValidator v)
    .store (.updateCounts id)
    if let previous :: _ := older then
      for change in previous.parameterChanges v e do
        .store (.saveSystemEvent change)
    parsed.follow c v e
    return e.bind .validator [id] []

end StakeIndex
