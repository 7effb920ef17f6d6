import StakeIndex.Calendar
import StakeIndex.Failure
import StakeIndex.Net.Ipv4
import StakeIndex.Word

/-!
Nodes that validators run.
-/
namespace StakeIndex

inductive NodeStatus where
  | active
  | leaving
  | left
  | inMaintenance
deriving DecidableEq, Repr, Inhabited

namespace NodeStatus

def text : NodeStatus → String
  | active => "Active"
  | leaving => "Leaving"
  | left => "Left"
  | inMaintenance => "In_Maintenance"

def all : List NodeStatus := [active, leaving, left, inMaintenance]

instance : Named NodeStatus := ⟨all, text⟩

/-- The number of a status in the contract and in its column. -/
def code : NodeStatus → Nat
  | active => 0
  | leaving => 1
  | left => 2
  | inMaintenance => 3

def ofCode (code : Nat) : Except Failure NodeStatus :=
  match code with
  | 0 => .ok active
  | 1 => .ok leaving
  | 2 => .ok left
  | 3 => .ok inMaintenance
  | other => .error (.decode ("unknown node status " ++ toString other))

def isActive : NodeStatus → Bool
  | active => true
  | _ => false

/-- Whether a node belongs to its validator: it does until it has left. -/
def isLinked : NodeStatus → Bool
  | left => false
  | _ => true

end NodeStatus

/-- A node at a block. -/
structure Node where
  id : Word
  name : String
  ip : Ipv4
  publicIp : Ipv4
  port : Nat
  startBlock : Word
  nextReward : Instant
  lastReward : Instant
  finishTime : Instant
  status : NodeStatus
  validatorId : Word
  eventTime : Instant
  height : Nat
deriving DecidableEq, Repr, Inhabited

end StakeIndex
