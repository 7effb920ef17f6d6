import StakeIndex.View.Contract

/-!
Reading validators from their contract.
-/
namespace StakeIndex.ViewContract

open Abi (Value)

def validatorOf (id : Word) (height : Nat) (values : List Value) : Except Failure Validator := do
  let field := Value.field values
  return {
    id
    name := ← (← field 0 "name").asText "name"
    address := ← (← field 1 "validatorAddress").asAddress "validatorAddress"
    requestedAddress := ← (← field 2 "requestedAddress").asAddress "requestedAddress"
    description := ← (← field 3 "description").asText "description"
    feeRate := ← (← field 4 "feeRate").asUint "feeRate"
    registered := ← (← field 5 "registrationTime").asInstant "registrationTime"
    minimumDelegation :=
      ← (← field 6 "minimumDelegationAmount").asUint "minimumDelegationAmount"
    acceptsRequests := ← (← field 7 "acceptNewRequests").asBool "acceptNewRequests"
    authorized := false
    activeNodes := 0
    linkedNodes := 0
    staked := 0
    height }

/-- A validator without its authorisation and counters. -/
def validatorRecord (c : ViewContract) (id : Word) (height : Nat) : Job Validator := do
  let values ← c.call height "getValidator" [.ofWord id]
  .lift (validatorOf id height (Value.flatten values))

def isAuthorized (c : ViewContract) (id : Word) (height : Nat) : Job Bool := do
  let values ← c.call height "isAuthorizedValidator" [.ofWord id]
  .lift (do (← Value.field values 0 "authorized").asBool "authorized")

def validator (c : ViewContract) (id : Word) (height : Nat) : Job Validator := do
  let v ← c.validatorRecord id height
  return { v with authorized := ← c.isAuthorized id height }

end StakeIndex.ViewContract
