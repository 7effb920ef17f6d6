import StakeIndex.View.Contract

/-!
Reading nodes from their contract. The date of a node's next reward is asked for between the fields of
its record, so a fault in an earlier field is found before and one in a later field after that call.
-/
namespace StakeIndex.ViewContract

open Abi (Value)

def ipOf (bs : List UInt8) : Except Failure Ipv4 :=
  match bs with
  | [a, b, c, d] => .ok ⟨a, b, c, d⟩
  | _ => .error (.decode ("expected 4 address bytes, got " ++ toString bs.length))

def nodeNextReward (c : ViewContract) (id : Word) (height : Nat) : Job Instant := do
  let values ← c.call height "getNodeNextRewardDate" [.ofWord id]
  .lift (do (← Value.field values 0 "nextRewardDate").asInstant "nextRewardDate")

def portOf (port : Word) : Except Failure Nat :=
  if port.toNat < 65536 then .ok port.toNat
  else .error (.decode ("port " ++ port.decimal ++ " out of range"))

/-- A node. The moment of its event is left open. -/
def node (c : ViewContract) (id : Word) (height : Nat) : Job Node := do
  let values := Value.flatten (← c.call height "nodes" [.ofWord id])
  let field := fun index name => Job.lift (Value.field values index name)
  let uint := fun (index : Nat) (name : String) => do Job.lift ((← field index name).asUint name)
  let instant := fun (index : Nat) (name : String) => do
    Job.lift ((← field index name).asInstant name)
  let ip := fun (index : Nat) (name : String) => do
    let bs ← Job.lift ((← field index name).asFixedBytes name)
    Job.lift (ipOf bs)
  let port ← uint 3 "port"
  let status ← uint 7 "status"
  let name ← Job.lift ((← field 0 "name").asText "name")
  return {
    id
    name
    ip := ← ip 1 "ip"
    publicIp := ← ip 2 "publicIP"
    port := ← .lift (portOf port)
    startBlock := ← uint 4 "startBlock"
    nextReward := ← c.nodeNextReward id height
    lastReward := ← instant 5 "lastRewardDate"
    finishTime := ← instant 6 "finishTime"
    status := ← .lift (NodeStatus.ofCode status.toHeight)
    validatorId := ← uint 8 "validatorId"
    eventTime := default
    height }

def nodesOf (c : ViewContract) (height : Nat) : List Word → Job (List Node)
  | [] => return []
  | id :: rest => do
    let n ← c.node id height
    return n :: (← c.nodesOf height rest)

def validatorNodes (c : ViewContract) (validatorId : Word) (height : Nat) : Job (List Node) := do
  let values ← c.call height "getValidatorNodeIndexes" [.ofWord validatorId]
  let ids ← .lift (do (← Value.field values 0 "nodeIndexes").asUintArray "nodeIndexes")
  c.nodesOf height ids

end StakeIndex.ViewContract
