import StakeIndex.View.Contract

/-!
Reading delegations from their contract. The stage of a delegation stands apart from its record.
-/
namespace StakeIndex.ViewContract

open Abi (Value)

def delegationOf (id : Word) (height : Nat) (values : List Value) : Except Failure Delegation := do
  let field := Value.field values
  return {
    id
    holder := ← (← field 0 "holder").asAddress "holder"
    validatorId := ← (← field 1 "validatorId").asUint "validatorId"
    amount := ← (← field 2 "amount").asUint "amount"
    period := ← (← field 3 "delegationPeriod").asUint "delegationPeriod"
    created := ← (← field 4 "created").asInstant "created"
    started := ← (← field 5 "started").asUint "started"
    finished := ← (← field 6 "finished").asUint "finished"
    info := ← (← field 7 "info").asText "info"
    state := .unknown
    height
    txHash := .zero }

/-- A delegation whose stage is left open. -/
def delegationRecord (c : ViewContract) (id : Word) (height : Nat) : Job Delegation := do
  let values ← c.call height "getDelegation" [.ofWord id]
  .lift (delegationOf id height (Value.flatten values))

def delegationState (c : ViewContract) (id : Word) (height : Nat) : Job DelegationState := do
  return .ofCode (← c.callUint height "getState" "state" [.ofWord id]).toHeight

def delegation (c : ViewContract) (id : Word) (height : Nat) : Job Delegation := do
  let d ← c.delegationRecord id height
  return { d with state := ← c.delegationState id height }

/-- How many delegations a holder ever made. -/
def holderDelegationCount (c : ViewContract) (holder : Address) (height : Nat) : Job Word :=
  let method := "getDelegationsByHolderLength"
  c.callUint height method method [.address holder]

end StakeIndex.ViewContract
