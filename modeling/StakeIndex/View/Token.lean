import StakeIndex.View.Delegation

/-!
Reading what holders and validators have: tokens, delegations and earned fees.
-/
namespace StakeIndex.ViewContract

open Abi (Value)

def balance (c : ViewContract) (holder : Address) (height : Nat) : Job Word :=
  c.callUint height "balanceOf" "balance" [.address holder]

def totalSupply (c : ViewContract) (height : Nat) : Job Word :=
  c.callUint height "totalSupply" "totalSupply" []

/-- The delegations at some places of a list that the contract keeps for a subject. -/
def delegationsAt (c : ViewContract) (method : String) (subject : Value) (height : Nat) :
    Nat → Nat → Job (List Delegation)
  | 0, _ => return []
  | count + 1, index => do
    let id ← c.callUint height method method [subject, .ofWord (.ofNat index)]
    let d ← c.delegation id height
    return d :: (← c.delegationsAt method subject height count (index + 1))

def holderDelegations (c : ViewContract) (holder : Address) (height : Nat) :
    Job (List Delegation) := do
  let count ← c.holderDelegationCount holder height
  c.delegationsAt "delegationsByHolder" (.address holder) height count.toHeight 0

def validatorDelegations (c : ViewContract) (validatorId : Word) (height : Nat) :
    Job (List Delegation) := do
  let method := "getDelegationsByValidatorLength"
  let count ← c.callUint height method method [.ofWord validatorId]
  c.delegationsAt "delegationsByValidator" (.ofWord validatorId) height count.toHeight 0

/-- The tokens of a holder in delegations that are still proposed. -/
def pendingTokens (c : ViewContract) (holder : Address) (height : Nat) : Job Word :=
  let method := "getLockedInPendingDelegations"
  c.callUint height method method [.address holder]

/-- The fee that a validator earned, and the month up to which it is accounted for. -/
def earnedFee (c : ViewContract) (validatorId : Word) (height : Nat) : Job (Word × Word) := do
  let values := Value.flatten (← c.call height "getEarnedFeeAmountOf" [.ofWord validatorId])
  .lift (do
    let earned ← (← Value.field values 0 "earned").asUint "earned"
    let month ← (← Value.field values 1 "endMonth").asUint "endMonth"
    return (earned, month))

end StakeIndex.ViewContract
