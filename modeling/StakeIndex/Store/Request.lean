import StakeIndex.Entity.Query

/-!
What can be asked of a store of the index. Every write can be repeated: it takes the place of an earlier
one about the same thing.
-/
namespace StakeIndex

inductive StoreRequest where
  | saveContractEvent (e : ContractEvent)
  | saveValidator (v : Validator)
  | saveDelegation (d : Delegation)
  | saveNodes (nodes : List Node)
  | saveAccount (a : Account)
  | saveValidatorStatistic (s : ValidatorStatistic)
  | recordRewardClaim (c : RewardClaim)
  | saveSystemEvent (e : SystemEvent)
  | updateCounts (validatorId : Word)
  | calculate (figure : ValidatorFigure) (at_ : Calculation)
  | saveValidatorSnapshots (snapshots : List ValidatorSnapshot) (height : Nat) (time : Instant)
  | validators (q : ValidatorQuery)
  | delegations (q : DelegationQuery)
  | nodes (q : NodeQuery)
  | accounts (q : AccountQuery)
  | contractEvents (q : ContractEventQuery)
  | validatorStatistics (q : ValidatorStatisticQuery)
  | delegatorStatistics (q : DelegatorStatisticQuery)
  | systemEvents (q : SystemEventQuery)
  | setting (key : String)
  | setSetting (key value : String)

namespace StoreRequest

abbrev Result : StoreRequest → Type
  | saveContractEvent _ => Unit
  | saveValidator _ => Unit
  | saveDelegation _ => Unit
  | saveNodes _ => Unit
  | saveAccount _ => Unit
  | saveValidatorStatistic _ => Unit
  | recordRewardClaim _ => Unit
  | saveSystemEvent _ => Unit
  | updateCounts _ => Unit
  | calculate _ _ => Word
  | saveValidatorSnapshots _ _ _ => Unit
  | validators _ => List Validator
  | delegations _ => List Delegation
  | nodes _ => List Node
  | accounts _ => List Account
  | contractEvents _ => List ContractEvent
  | validatorStatistics _ => List ValidatorStatistic
  | delegatorStatistics _ => List DelegatorStatistic
  | systemEvents _ => List SystemEvent
  | setting _ => Option String
  | setSetting _ _ => Unit

end StoreRequest

/-- Under this key the height is kept up to which every block is indexed. -/
def lastIndexedBlock : String := "last_indexed_block"

/-- Under this key the month is kept whose start was synchronised last. -/
def lastSyncedEpoch : String := "last_synced_epoch"

end StakeIndex
