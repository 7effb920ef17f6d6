import StakeIndex.Entity.Account
import StakeIndex.Entity.Delegation
import StakeIndex.Entity.Event
import StakeIndex.Entity.Node
import StakeIndex.Entity.Validator

/-!
Questions about what is stored: each condition that is given must hold.
-/
namespace StakeIndex

/-- Validators as they were last known, before a height if one is given. -/
structure ValidatorQuery where
  id : Option Word := none
  address : Option Address := none
  before : Option Nat := none
deriving Repr

def ValidatorQuery.admits (q : ValidatorQuery) (v : Validator) : Bool :=
  q.id.all (v.id == ·) && q.address.all (v.address == ·)

/-- Delegations as they were last known. An empty list of stages admits all. -/
structure DelegationQuery where
  id : Option Word := none
  validatorId : Option Word := none
  holder : Option Address := none
  states : List DelegationState := []
  before : Option Nat := none
deriving Repr

def DelegationQuery.admits (q : DelegationQuery) (d : Delegation) : Bool :=
  q.id.all (d.id == ·) && q.validatorId.all (d.validatorId == ·) && q.holder.all (d.holder == ·) &&
    (q.states.isEmpty || q.states.contains d.state)

/-- Nodes as they were last known. -/
structure NodeQuery where
  id : Option Word := none
  validatorId : Option Word := none
  status : Option NodeStatus := none
  before : Option Nat := none
deriving Repr

def NodeQuery.admits (q : NodeQuery) (n : Node) : Bool :=
  q.id.all (n.id == ·) && q.validatorId.all (n.validatorId == ·) && q.status.all (n.status == ·)

structure AccountQuery where
  address : Option Address := none
  type : Option AccountType := none
deriving Repr

def AccountQuery.admits (q : AccountQuery) (a : Account) : Bool :=
  q.address.all (a.address == ·) && q.type.all (a.type == ·)

/-- Heights from one to another, both included. -/
structure HeightRange where
  lowest : Option Nat := none
  highest : Option Nat := none
deriving Repr

def HeightRange.admits (r : HeightRange) (height : Nat) : Bool :=
  r.lowest.all (· ≤ height) && r.highest.all (height ≤ ·)

structure ContractEventQuery where
  address : Option Address := none
  event : Option String := none
  boundType : Option BoundType := none
  boundId : Option Word := none
  boundAddress : Option Address := none
  heights : HeightRange := {}
deriving Repr

def ContractEventQuery.admits (q : ContractEventQuery) (e : ContractEvent) : Bool :=
  q.address.all (e.address == ·) && q.event.all (e.event == ·) &&
    q.boundType.all (e.boundType == some ·) && q.boundId.all (e.boundIds.contains ·) &&
    q.boundAddress.all (e.boundAddresses.contains ·) && q.heights.admits e.height

structure ValidatorStatisticQuery where
  validatorId : Option Word := none
  figure : Option ValidatorFigure := none
  heights : HeightRange := {}
deriving Repr

def ValidatorStatisticQuery.admits (q : ValidatorStatisticQuery) (s : ValidatorStatistic) : Bool :=
  q.validatorId.all (s.validatorId == ·) && q.figure.all (s.figure == ·) &&
    q.heights.admits s.height

structure DelegatorStatisticQuery where
  holder : Option Address := none
  figure : Option DelegatorFigure := none
  heights : HeightRange := {}
deriving Repr

def DelegatorStatisticQuery.admits (q : DelegatorStatisticQuery) (s : DelegatorStatistic) : Bool :=
  q.holder.all (s.holder == ·) && q.figure.all (s.figure == ·) && q.heights.admits s.height

/-- Events of the system. An address may be the sender's or the recipient's. -/
structure SystemEventQuery where
  kind : Option SystemEventKind := none
  senderId : Option Word := none
  recipientId : Option Word := none
  address : Option Address := none
  heights : HeightRange := {}
deriving Repr

def SystemEventQuery.admits (q : SystemEventQuery) (e : SystemEvent) : Bool :=
  q.kind.all (e.kind == ·) && q.senderId.all (e.senderId == ·) &&
    q.recipientId.all (e.recipientId == ·) &&
    q.address.all (fun a => e.sender == a || e.recipient == a) && q.heights.admits e.height

/-- A validator whose figures are computed anew at a height. -/
structure Calculation where
  validatorId : Word
  height : Nat
  time : Instant
deriving Repr

/-- The figures of a validator are due at the block of an event. -/
def ContractEvent.calculation (e : ContractEvent) (validatorId : Word) : Calculation :=
  ⟨validatorId, e.height, e.time⟩

end StakeIndex
