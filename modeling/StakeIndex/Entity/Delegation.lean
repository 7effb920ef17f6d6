import StakeIndex.Calendar
import StakeIndex.Word

/-!
Delegations of stake and the stages of their life.
-/
namespace StakeIndex

inductive DelegationState where
  | proposed
  | accepted
  | canceled
  | rejected
  | delegated
  | undelegationRequested
  | completed
  | unknown
deriving DecidableEq, Repr, Inhabited

namespace DelegationState

def text : DelegationState → String
  | proposed => "PROPOSED"
  | accepted => "ACCEPTED"
  | canceled => "CANCELED"
  | rejected => "REJECTED"
  | delegated => "DELEGATED"
  | undelegationRequested => "UNDELEGATION_REQUESTED"
  | completed => "COMPLETED"
  | unknown => "UNKNOWN"

def all : List DelegationState :=
  [proposed, accepted, canceled, rejected, delegated, undelegationRequested, completed, unknown]

instance : Named DelegationState := ⟨all, text⟩

/-- The number of a stage in the contract and in its column, -1 for an unknown one. -/
def code : DelegationState → Int
  | proposed => 0
  | accepted => 1
  | canceled => 2
  | rejected => 3
  | delegated => 4
  | undelegationRequested => 5
  | completed => 6
  | unknown => -1

/-- The stage with a number; all others are unknown. -/
def ofCode : Int → DelegationState
  | 0 => proposed
  | 1 => accepted
  | 2 => canceled
  | 3 => rejected
  | 4 => delegated
  | 5 => undelegationRequested
  | 6 => completed
  | _ => unknown

/-- Whether an amount in this stage counts towards the validator's stake. -/
def isStaked : DelegationState → Bool
  | delegated => true
  | undelegationRequested => true
  | _ => false

def successors : DelegationState → List DelegationState
  | proposed => [accepted, canceled, rejected]
  | accepted => [delegated]
  | delegated => [undelegationRequested]
  | undelegationRequested => [completed]
  | _ => []

/-- Whether a stage can be reached in at least one and at most some number of steps. -/
def reaches : Nat → DelegationState → DelegationState → Bool
  | 0, _, _ => false
  | steps + 1, s, t => s.successors.any fun u => u == t || reaches steps u t

/-- Whether a later observation may show the second stage after the first. Observations skip stages;
the longest way has four steps. Nothing contradicts an unknown stage. -/
def mayBecome (s t : DelegationState) : Bool :=
  s == t || s == unknown || t == unknown || reaches 4 s t

end DelegationState

/-- A delegation at a block. -/
structure Delegation where
  id : Word
  holder : Address
  validatorId : Word
  amount : Word
  period : Word
  created : Instant
  started : Word
  finished : Word
  info : String
  state : DelegationState
  height : Nat
  txHash : Hash
deriving DecidableEq, Repr, Inhabited

end StakeIndex
