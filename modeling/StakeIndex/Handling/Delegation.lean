import StakeIndex.Event.Family
import StakeIndex.View.Delegation

/-!
Events of delegations: the delegation and its stage are read anew, the holder becomes a delegator, and
the stake of the validator is computed anew. An event is flagged when the stage it leads to cannot
follow the last older one.
-/
namespace StakeIndex

/-- What an event of a delegation means for the validator: the amount that comes or goes. -/
def DelegationEvent.meaning (parsed : DelegationEvent) (d : Delegation) :
    List (SystemEventKind × Word × Word) :=
  let told := match parsed.change with
    | .proposed => [(SystemEventKind.newDelegation, 0, d.amount)]
    | .accepted => [(.delegationAccepted, 0, d.amount)]
    | .undelegationRequested => [(.undelegationRequested, d.amount, 0)]
    | .canceledByUser => []
  told ++ (if d.state = .rejected then [(.delegationRejected, d.amount, 0)] else [])

/-- The events of the system that an event of a delegation is recorded as. -/
def DelegationEvent.systemEvents (parsed : DelegationEvent) (d : Delegation) (e : ContractEvent) :
    List SystemEvent :=
  (parsed.meaning d).map fun (kind, before, after) =>
    (((SystemEvent.start e.height e.time kind).sentBy parsed.delegationId d.holder).receivedBy
      d.validatorId .zero).between before after

def handleDelegation (c : ViewContract) (log : DecodedLog) (e : ContractEvent) :
    Job ContractEvent := do
  match ← .lift (DelegationEvent.read? log) with
  | none => return e
  | some parsed =>
    let id := parsed.delegationId
    let read ← c.delegation id e.height
    let d := { read with txHash := e.txHash }
    let older ← .store (.delegations { id := some id, before := some e.height })
    let flagged := match older with
      | previous :: _ => !previous.state.mayBecome d.state
      | [] => e.flagged
    .store (.saveDelegation d)
    if (← c.holderDelegationCount d.holder e.height) ≠ 0 then
      .store (.saveAccount ⟨d.holder, .delegator⟩)
    let _ ← .store (.calculate .totalStake (e.calculation d.validatorId))
    for event in parsed.systemEvents d e do
      .store (.saveSystemEvent event)
    return { e with flagged }.bind .delegation [id, d.validatorId] [d.holder]

end StakeIndex
