import StakeIndex.Calendar
import StakeIndex.Decimal
import StakeIndex.Entity.Contract
import StakeIndex.Json.Basic

/-!
What the chain tells, headers of blocks and logs of contracts, and the events made of it: the decoded logs, bound to
what they are about, and the events of the staking system that are derived from them.
-/
namespace StakeIndex

/-- The part of a block's header that dates its events. -/
structure BlockHeader where
  number : Nat
  hash : Hash
  timestamp : Nat
deriving DecidableEq, Repr, Inhabited

def BlockHeader.time (h : BlockHeader) : Instant := .ofSeconds h.timestamp

structure RawLog where
  address : Address
  topics : List Hash
  data : List UInt8
  height : Nat
  txHash : Hash
  logIndex : Nat
  removed : Bool
deriving DecidableEq, Repr, Inhabited

/-- What an event is about. -/
inductive BoundType where
  | validator
  | node
  | delegation
  | delegator
  | account
deriving DecidableEq, Repr, Inhabited

namespace BoundType

def text : BoundType → String
  | validator => "validator"
  | node => "node"
  | delegation => "delegation"
  | delegator => "delegator"
  | account => "account"

def all : List BoundType := [validator, node, delegation, delegator, account]

instance : Named BoundType := ⟨all, text⟩

end BoundType

/-- A decoded log. It is flagged when it tells of a stage of a delegation that cannot follow the stage
known before. -/
structure ContractEvent where
  id : Option Int
  contract : ContractName
  event : String
  address : Address
  height : Nat
  logIndex : Nat
  time : Instant
  txHash : Hash
  params : Json
  removed : Bool
  boundType : Option BoundType
  boundIds : List Word
  boundAddresses : List Address
  flagged : Bool
deriving Repr, Inhabited

def ContractEvent.bind (e : ContractEvent) (type : BoundType) (ids : List Word)
    (addresses : List Address) : ContractEvent :=
  { e with boundType := some type, boundIds := ids, boundAddresses := addresses }

inductive SystemEventKind where
  | newDelegation
  | delegationAccepted
  | delegationRejected
  | undelegationRequested
  | joinedActiveSet
  | leftActiveSet
  | slashed
  | forgiven
  | minimumDelegationChange
  | feeChange
deriving DecidableEq, Repr, Inhabited

namespace SystemEventKind

def text : SystemEventKind → String
  | newDelegation => "new_delegation"
  | delegationAccepted => "delegation_accepted"
  | delegationRejected => "delegation_rejected"
  | undelegationRequested => "undelegation_requested"
  | joinedActiveSet => "joined_active_set"
  | leftActiveSet => "left_active_set"
  | slashed => "slashed"
  | forgiven => "forgiven"
  | minimumDelegationChange => "mdr_change"
  | feeChange => "fee_change"

def all : List SystemEventKind :=
  [newDelegation, delegationAccepted, delegationRejected, undelegationRequested, joinedActiveSet,
    leftActiveSet, slashed, forgiven, minimumDelegationChange, feeChange]

instance : Named SystemEventKind := ⟨all, text⟩

end SystemEventKind

structure SystemEvent where
  height : Nat
  time : Instant
  kind : SystemEventKind
  senderId : Word
  recipientId : Word
  sender : Address
  recipient : Address
  before : Word
  after : Word
  change : Decimal
deriving DecidableEq, Repr, Inhabited

namespace SystemEvent

/-- An event without parties and amounts. -/
def start (height : Nat) (time : Instant) (kind : SystemEventKind) : SystemEvent :=
  ⟨height, time, kind, 0, 0, .zero, .zero, 0, 0, .ofInt 0⟩

def sentBy (e : SystemEvent) (id : Word) (address : Address) : SystemEvent :=
  { e with senderId := id, sender := address }

def receivedBy (e : SystemEvent) (id : Word) (address : Address) : SystemEvent :=
  { e with recipientId := id, recipient := address }

/-- The event with its amounts and their signed difference. -/
def between (e : SystemEvent) (before after : Word) : SystemEvent :=
  { e with before, after, change := .difference before after }

end SystemEvent
end StakeIndex
