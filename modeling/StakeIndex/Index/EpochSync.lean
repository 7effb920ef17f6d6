import StakeIndex.View.Delegation
import StakeIndex.View.Node
import StakeIndex.View.Validator

/-!
Epoch synchronisation: every validator, node and delegation is read at one block and stored, and then the
figures of every validator are written together.
-/
namespace StakeIndex

/-- The number of nodes of a validator that are active, and of those that belong to it. -/
structure NodeCounts where
  active : Nat
  linked : Nat
deriving DecidableEq, Repr, Inhabited

abbrev CountsByValidator := Table Word NodeCounts

abbrev StakeByValidator := Table Word Word

structure SyncSummary where
  height : Nat
  validators : Nat
  nodes : Nat
  delegations : Nat
deriving DecidableEq, Repr

namespace EpochSync

/-- More ids than there are words. -/
def allIds : Nat := 1 <<< 256

/-- Stores validators from some id on, up to the first id that the chain does not know, and lists their
ids. -/
def validators (c : ViewContract) (height : Nat) : Nat → Word → Job (List Word)
  | 0, _ => return []
  | fuel + 1, id => do
    match ← (c.validator id height).ifAny with
    | none => return []
    | some v =>
      .store (.saveValidator v)
      match id.next? with
      | none => return [id]
      | some next => return id :: (← validators c height fuel next)

def countNode (counts : CountsByValidator) (n : Node) : CountsByValidator :=
  let known := (counts.find? n.validatorId).getD ⟨0, 0⟩
  counts.insert n.validatorId
    ⟨known.active + (if n.status.isActive then 1 else 0),
      known.linked + (if n.status.isLinked then 1 else 0)⟩

/-- Stores nodes from some id on, and counts them. -/
def nodes (c : ViewContract) (height : Nat) (time : Instant) :
    Nat → Word → Nat × CountsByValidator → Job (Nat × CountsByValidator)
  | 0, _, counted => return counted
  | fuel + 1, id, counted => do
    match ← (c.node id height).ifAny with
    | none => return counted
    | some n =>
      .store (.saveNodes [{ n with eventTime := time }])
      let counted := (counted.1 + 1, countNode counted.2 n)
      match id.next? with
      | none => return counted
      | some next => nodes c height time fuel next counted

/-- A delegation at a height. One that was read before in the same stage is not read again. -/
def delegation (c : ViewContract) (id : Word) (height : Nat) : Job Delegation := do
  let known ← .shared (.knownDelegation id)
  let state ← c.delegationState id height
  match known.filter (·.state == state) with
  | some d => return { d with height }
  | none =>
    let read ← c.delegationRecord id height
    .shared (.rememberDelegation { read with state })
    return { read with state, height }

def addStake (stakes : StakeByValidator) (d : Delegation) : StakeByValidator :=
  if d.state.isStaked then
    stakes.insert d.validatorId (((stakes.find? d.validatorId).getD 0).saturatingAdd d.amount)
  else stakes

/-- Stores delegations from some id on, and sums up what is staked. -/
def delegations (c : ViewContract) (height : Nat) :
    Nat → Word → Nat × StakeByValidator → Job (Nat × StakeByValidator)
  | 0, _, summed => return summed
  | fuel + 1, id, summed => do
    match ← (delegation c id height).ifAny with
    | none => return summed
    | some d =>
      .store (.saveDelegation d)
      let summed := (summed.1 + 1, addStake summed.2 d)
      match id.next? with
      | none => return summed
      | some next => delegations c height fuel next summed

def snapshot (counts : CountsByValidator) (stakes : StakeByValidator) (id : Word) :
    ValidatorSnapshot :=
  let known := (counts.find? id).getD ⟨0, 0⟩
  ⟨id, .ofNat known.active, .ofNat known.linked, (stakes.find? id).getD 0⟩

def run (context : Context) (version : Version) (height : Nat) (time : Instant) :
    Job SyncSummary := do
  let validatorService ← ViewContract.find context .validatorService version
  let nodeContract ← ViewContract.find context .nodes version
  let controller ← ViewContract.find context .delegationController version
  let ids ← validators validatorService height allIds 1
  let (nodeCount, counts) ← nodes nodeContract height time allIds 1 (0, ∅)
  let (delegationCount, stakes) ← delegations controller height registerSize 0 (0, ∅)
  .store (.saveValidatorSnapshots (ids.map (snapshot counts stakes)) height time)
  return ⟨height, ids.length, nodeCount, delegationCount⟩

end EpochSync
end StakeIndex
