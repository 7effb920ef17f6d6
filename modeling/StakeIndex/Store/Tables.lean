import StakeIndex.Store.Request
import StakeIndex.Store.Rewards
import StakeIndex.Table

/-!
A store in tables. Snapshots of validators, delegations and nodes stand under their id and height; the
series of figures hold a row only where the amount changes; accounts are never lowered.
-/
namespace StakeIndex

structure Tables where
  validators : Table (Word × Nat) Validator
  delegations : Table (Word × Nat) Delegation
  nodes : Table (Word × Nat) Node
  accounts : Table Address AccountType
  contractEvents : Table (Hash × Nat) ContractEvent
  lastEventId : Int
  validatorStatistics : Table ((Word × ValidatorFigure) × Nat) ValidatorStatistic
  delegatorStatistics : Table ((Address × DelegatorFigure) × Nat) DelegatorStatistic
  rewardClaims : Table (Address × Nat × Nat) RewardClaim
  systemEvents : List SystemEvent
  settings : Table String String

namespace Tables

def empty : Tables := ⟨∅, ∅, ∅, ∅, ∅, 0, ∅, ∅, ∅, [], ∅⟩

instance : Inhabited Tables := ⟨empty⟩

/-- The number of an event that is stored already. -/
def eventId? (t : Tables) (e : ContractEvent) : Option Int :=
  (t.contractEvents.find? (e.txHash, e.logIndex)).bind (·.id)

/-- Stores an event under its transaction and place. It keeps the number that it had, or else gets the
next one. -/
def saveContractEvent (t : Tables) (e : ContractEvent) : Tables :=
  let put := fun id => t.contractEvents.insert (e.txHash, e.logIndex) { e with id := some id }
  match t.eventId? e with
  | some id => { t with contractEvents := put id }
  | none =>
    { t with contractEvents := put (t.lastEventId + 1), lastEventId := t.lastEventId + 1 }

def saveValidator (t : Tables) (v : Validator) : Tables :=
  { t with validators := t.validators.insert (v.id, v.height) v }

def saveDelegation (t : Tables) (d : Delegation) : Tables :=
  { t with delegations := t.delegations.insert (d.id, d.height) d }

def saveNodes (t : Tables) (nodes : List Node) : Tables :=
  { t with nodes := nodes.foldl (fun table n => table.insert (n.id, n.height) n) t.nodes }

/-- Stores an account, or lifts it to a higher type. -/
def saveAccount (t : Tables) (a : Account) : Tables :=
  let type := match t.accounts.find? a.address with
    | some known => known.max a.type
    | none => a.type
  { t with accounts := t.accounts.insert a.address type }

/-- The last row of a series at heights that pass a test. -/
def lastStatistic? (t : Tables) (id : Word) (figure : ValidatorFigure) (wanted : Nat → Bool) :
    Option ValidatorStatistic :=
  (t.validatorStatistics.last? fun key => key.1 == (id, figure) && wanted key.2).map (·.2)

/-- Stores a figure of a validator. The row is left out where the amount is that of the last older
row. -/
def saveValidatorStatistic (t : Tables) (s : ValidatorStatistic) : Tables :=
  let key := ((s.validatorId, s.figure), s.height)
  let previous := t.lastStatistic? s.validatorId s.figure (· < s.height)
  { t with
    validatorStatistics :=
      if previous.map (·.amount) = some s.amount then t.validatorStatistics.erase key
      else t.validatorStatistics.insert key s }

/-- The latest amount of a figure, zero if there is none. -/
def latestAmount (t : Tables) (id : Word) (figure : ValidatorFigure) : Word :=
  match t.lastStatistic? id figure fun _ => true with
  | some s => s.amount
  | none => 0

/-- Sets a counter on the latest snapshot of a validator, if there is one. -/
def setCounter (t : Tables) (id : Word) (figure : ValidatorFigure) (amount : Word) : Tables :=
  match t.validators.last? fun key => key.1 == id with
  | some (key, v) =>
    { t with validators := t.validators.insert key (v.setCounter figure amount) }
  | none => t

/-- Shows the latest amount of a figure on the latest snapshot of a validator. -/
def showLatest (t : Tables) (id : Word) (figure : ValidatorFigure) : Tables :=
  t.setCounter id figure (t.latestAmount id figure)

/-- Shows all latest amounts on the latest snapshot of a validator. -/
def updateCounts (t : Tables) (id : Word) : Tables :=
  ValidatorFigure.all.foldl (fun t figure => t.showLatest id figure) t

/-- Writes a figure that was computed for a height, and shows the latest one. -/
def writeFigure (t : Tables) (at_ : Calculation) (figure : ValidatorFigure) (amount : Word) :
    Tables :=
  (t.saveValidatorStatistic ⟨at_.validatorId, at_.height, at_.time, figure, amount⟩).showLatest
    at_.validatorId figure

/-- The height before which a snapshot counts for a height; after the last height all count. -/
def boundAfter (height : Nat) : Option Nat :=
  if height < topHeight then some (height + 1) else none

/-- The sum of amounts, as far as words go. -/
def sumAmounts (delegations : List Delegation) : Word :=
  delegations.foldl (fun total d => total.saturatingAdd d.amount) 0

/-- A figure of a validator as the snapshots up to a height have it. -/
def figureAt (t : Tables) (figure : ValidatorFigure) (at_ : Calculation) : Word :=
  let countNodes := fun (counts : Node → Bool) =>
    Word.ofNat ((t.nodes.current (boundAfter at_.height)).filter fun n =>
      n.validatorId == at_.validatorId && counts n).length
  match figure with
  | .totalStake =>
    sumAmounts ((t.delegations.current (boundAfter at_.height)).filter fun d =>
      d.validatorId == at_.validatorId && d.state.isStaked)
  | .activeNodes => countNodes fun n => n.status.isActive
  | .linkedNodes => countNodes fun n => n.status.isLinked

/-- Computes a figure of a validator at a height and writes it. -/
def calculate (t : Tables) (figure : ValidatorFigure) (at_ : Calculation) : Word × Tables :=
  let amount := t.figureAt figure at_
  (amount, t.writeFigure at_ figure amount)

def saveSnapshot (t : Tables) (height : Nat) (time : Instant) (s : ValidatorSnapshot) : Tables :=
  let at_ : Calculation := ⟨s.validatorId, height, time⟩
  [ValidatorFigure.activeNodes, .linkedNodes, .totalStake].foldl
    (fun t figure => t.writeFigure at_ figure (s.amount figure)) t

/-- Records a payment and writes the rows of its holder's claimed rewards anew from its height on. -/
def recordRewardClaim (t : Tables) (c : RewardClaim) : Tables :=
  let claims := t.rewardClaims.insert (c.holder, c.height, c.logIndex) c
  let ofHolder := (claims.filter fun key _ => key.1 == c.holder).values
  let kept := t.delegatorStatistics.filter fun key _ =>
    !(key.1 == (c.holder, .claimedRewards) && c.height ≤ key.2)
  let rows := (RewardClaim.rows ofHolder).filter fun row => c.height ≤ row.height
  { t with
    rewardClaims := claims
    delegatorStatistics := rows.foldl (fun table row =>
      table.insert ((row.holder, .claimedRewards), row.height) row) kept }

/-- Whether two events of the system are about the same thing. -/
def sameSubject (a b : SystemEvent) : Bool :=
  a.height == b.height && a.kind == b.kind && a.sender == b.sender && a.senderId == b.senderId &&
    a.recipient == b.recipient && a.recipientId == b.recipientId

/-- The events with one more, or with the amounts of one changed. -/
def putSystemEvent (e : SystemEvent) : List SystemEvent → List SystemEvent
  | [] => [e]
  | known :: rest =>
    if sameSubject known e then
      { known with before := e.before, after := e.after, change := e.change } :: rest
    else known :: putSystemEvent e rest

/-- Stores an event of the system, in place of the amounts of one about the same thing. -/
def saveSystemEvent (t : Tables) (e : SystemEvent) : Tables :=
  { t with systemEvents := putSystemEvent e t.systemEvents }

/-- Rows in the order of a number, those of one number in the order they had. -/
def sortedBy {α : Type} (rank : α → Nat) (rows : List α) : List α :=
  rows.mergeSort fun a b => rank a ≤ rank b

def inChainOrder (events : List ContractEvent) : List ContractEvent :=
  events.mergeSort fun a b =>
    a.height < b.height || (a.height == b.height && a.logIndex ≤ b.logIndex)

/-- What a request is answered with, and the tables after it. -/
def perform (t : Tables) : (r : StoreRequest) → r.Result × Tables
  | .saveContractEvent e => ((), t.saveContractEvent e)
  | .saveValidator v => ((), t.saveValidator v)
  | .saveDelegation d => ((), t.saveDelegation d)
  | .saveNodes nodes => ((), t.saveNodes nodes)
  | .saveAccount a => ((), t.saveAccount a)
  | .saveValidatorStatistic s => ((), t.saveValidatorStatistic s)
  | .recordRewardClaim c => ((), t.recordRewardClaim c)
  | .saveSystemEvent e => ((), t.saveSystemEvent e)
  | .updateCounts id => ((), t.updateCounts id)
  | .calculate figure at_ => t.calculate figure at_
  | .saveValidatorSnapshots snapshots height time =>
    ((), snapshots.foldl (fun t s => t.saveSnapshot height time s) t)
  | .validators q => ((t.validators.current q.before).filter q.admits, t)
  | .delegations q => ((t.delegations.current q.before).filter q.admits, t)
  | .nodes q => ((t.nodes.current q.before).filter q.admits, t)
  | .accounts q => ((t.accounts.entries.map fun e => (⟨e.1, e.2⟩ : Account)).filter q.admits, t)
  | .contractEvents q => (inChainOrder (t.contractEvents.values.filter q.admits), t)
  | .validatorStatistics q =>
    (sortedBy (·.height) (t.validatorStatistics.values.filter q.admits), t)
  | .delegatorStatistics q =>
    (sortedBy (·.height) (t.delegatorStatistics.values.filter q.admits), t)
  | .systemEvents q => (sortedBy (·.height) (t.systemEvents.filter q.admits), t)
  | .setting key => (t.settings.find? key, t)
  | .setSetting key value => ((), { t with settings := t.settings.insert key value })

end Tables
end StakeIndex
