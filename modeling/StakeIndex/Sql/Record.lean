import StakeIndex.Entity.Query
import StakeIndex.Sql.Row

/-!
Entities as rows: the columns under which each of them is stored, and the entity of a row. Reading a
stored row gives the entity back; of two values in a row that are no words of the chain, the one that
the entity names first is reported.
-/
namespace StakeIndex

open Sql

namespace Validator

def columns (v : Validator) : Row :=
  [("validator_id", .word v.id), ("block_height", .height v.height), ("name", .text v.name),
    ("validator_address", .address v.address), ("requested_address", .address v.requestedAddress),
    ("description", .text v.description), ("fee_rate", .word v.feeRate),
    ("registration_time", .time v.registered),
    ("minimum_delegation_amount", .word v.minimumDelegation),
    ("accept_new_requests", .boolean v.acceptsRequests), ("authorized", .boolean v.authorized),
    ("active_nodes", .word v.activeNodes), ("linked_nodes", .word v.linkedNodes),
    ("staked", .word v.staked)]

def ofRow (row : Row) : Except Failure Validator := do
  return {
    id := ← row.word "validator_id"
    name := ← row.text "name"
    address := ← row.address "validator_address"
    requestedAddress := ← row.address "requested_address"
    description := ← row.text "description"
    feeRate := ← row.word "fee_rate"
    registered := ← row.time "registration_time"
    minimumDelegation := ← row.word "minimum_delegation_amount"
    acceptsRequests := ← row.boolean "accept_new_requests"
    authorized := ← row.boolean "authorized"
    activeNodes := ← row.word "active_nodes"
    linkedNodes := ← row.word "linked_nodes"
    staked := ← row.word "staked"
    height := ← row.height "block_height" }

end Validator

def ValidatorFigure.column : ValidatorFigure → String
  | totalStake => "staked"
  | activeNodes => "active_nodes"
  | linkedNodes => "linked_nodes"

namespace Delegation

def columns (d : Delegation) : Row :=
  [("delegation_id", .word d.id), ("block_height", .height d.height), ("holder", .address d.holder),
    ("validator_id", .word d.validatorId), ("amount", .word d.amount),
    ("delegation_period", .word d.period), ("created", .time d.created), ("started", .word d.started),
    ("finished", .word d.finished), ("info", .text d.info), ("state", .code d.state.code),
    ("transaction_hash", .text d.txHash.hex)]

def ofRow (row : Row) : Except Failure Delegation := do
  return {
    id := ← row.word "delegation_id"
    holder := ← row.address "holder"
    validatorId := ← row.word "validator_id"
    amount := ← row.word "amount"
    period := ← row.word "delegation_period"
    created := ← row.time "created"
    started := ← row.word "started"
    finished := ← row.word "finished"
    info := ← row.text "info"
    state := .ofCode (← row.integer "state")
    height := ← row.height "block_height"
    txHash := ← row.hash "transaction_hash" }

end Delegation

namespace Node

def columns (n : Node) : Row :=
  [("node_id", .word n.id), ("block_height", .height n.height), ("name", .text n.name),
    ("ip", .text n.ip.text), ("public_ip", .text n.publicIp.text), ("port", .code n.port),
    ("start_block", .word n.startBlock), ("next_reward_date", .time n.nextReward),
    ("last_reward_date", .time n.lastReward), ("finish_time", .time n.finishTime),
    ("status", .code n.status.code), ("validator_id", .word n.validatorId),
    ("event_time", .time n.eventTime)]

def readPort (n : Int) : Except Failure Nat :=
  if 0 ≤ n ∧ n < 65536 then .ok n.toNat
  else .error (.decode ("stored port " ++ toString n ++ " out of range"))

def ofRow (row : Row) : Except Failure Node := do
  return {
    id := ← row.word "node_id"
    name := ← row.text "name"
    ip := ← row.ip "ip"
    publicIp := ← row.ip "public_ip"
    port := ← readPort (← row.integer "port")
    startBlock := ← row.word "start_block"
    nextReward := ← row.time "next_reward_date"
    lastReward := ← row.time "last_reward_date"
    finishTime := ← row.time "finish_time"
    status := ← NodeStatus.ofCode (← row.integer "status").toNat
    validatorId := ← row.word "validator_id"
    eventTime := ← row.time "event_time"
    height := ← row.height "block_height" }

end Node

namespace Account

def columns (a : Account) : Row :=
  [("address", .address a.address), ("account_type", .code a.type.rank)]

def ofRow (row : Row) : Except Failure Account := do
  return ⟨← row.address "address", .ofRank (← row.integer "account_type")⟩

end Account

namespace ContractEvent

/-- The columns of a contract's event, without the number that the table gives it. -/
def columns (e : ContractEvent) : Row :=
  [("contract_name", .text e.contract.text), ("event_name", .text e.event),
    ("contract_address", .address e.address), ("block_height", .height e.height),
    ("log_index", .height e.logIndex), ("time", .time e.time), ("tx_hash", .text e.txHash.hex),
    ("params", .json e.params), ("removed", .boolean e.removed),
    ("bound_type", .optional (fun t : BoundType => .text t.text) e.boundType),
    ("bound_ids", .numerics (e.boundIds.map .ofWord)),
    ("bound_addresses", .numerics (e.boundAddresses.map .ofAddress)), ("flagged", .boolean e.flagged)]

/-- The event of a row. A subject of an unknown kind counts as none. -/
def ofRow (row : Row) : Except Failure ContractEvent := do
  return {
    id := some (← row.integer "id")
    contract := ← ContractName.find (← row.text "contract_name")
    event := ← row.text "event_name"
    address := ← row.address "contract_address"
    height := ← row.height "block_height"
    logIndex := ← row.height "log_index"
    time := ← row.time "time"
    txHash := ← row.hash "tx_hash"
    params := ← row.json "params"
    removed := ← row.boolean "removed"
    boundType := (← row.text? "bound_type").bind Named.read?
    boundIds := ← (← row.numerics "bound_ids").mapM Decimal.word
    boundAddresses := ← (← row.numerics "bound_addresses").mapM Decimal.address
    flagged := ← row.boolean "flagged" }

end ContractEvent

def unknownFigure (code : Int) : Failure := .decode ("unknown statistic type " ++ toString code)

namespace ValidatorStatistic

def columns (s : ValidatorStatistic) : Row :=
  [("validator_id", .word s.validatorId), ("block_height", .height s.height),
    ("block_time", .time s.time), ("statistic_type", .code s.figure.code), ("amount", .word s.amount)]

/-- The figure of a row that calls the validator its subject. -/
def ofRow (row : Row) : Except Failure ValidatorStatistic := do
  let validatorId ← row.word "subject"
  let height ← row.height "block_height"
  let time ← row.time "block_time"
  let code ← row.integer "statistic_type"
  let some figure := ValidatorFigure.ofCode? code | throw (unknownFigure code)
  return ⟨validatorId, height, time, figure, ← row.word "amount"⟩

end ValidatorStatistic

namespace DelegatorStatistic

def columns (s : DelegatorStatistic) : Row :=
  [("holder", .address s.holder), ("block_height", .height s.height), ("block_time", .time s.time),
    ("statistic_type", .code s.figure.code), ("amount", .word s.amount)]

/-- The figure of a row that calls the holder its subject. -/
def ofRow (row : Row) : Except Failure DelegatorStatistic := do
  let holder ← row.address "subject"
  let height ← row.height "block_height"
  let time ← row.time "block_time"
  let code ← row.integer "statistic_type"
  let some figure := DelegatorFigure.ofCode? code | throw (unknownFigure code)
  return ⟨holder, height, time, figure, ← row.word "amount"⟩

end DelegatorStatistic

namespace RewardClaim

def columns (c : RewardClaim) : Row :=
  [("holder", .address c.holder), ("block_height", .height c.height),
    ("log_index", .height c.logIndex), ("block_time", .time c.time), ("amount", .word c.amount)]

/-- The claim of a row in the ledger of one holder. -/
def ofRow (holder : Address) (row : Row) : Except Failure RewardClaim := do
  let height ← row.height "block_height"
  let logIndex ← row.height "log_index"
  let time ← row.time "block_time"
  return ⟨holder, height, logIndex, time, ← row.word "amount"⟩

end RewardClaim

namespace SystemEvent

def columns (e : SystemEvent) : Row :=
  [("height", .height e.height), ("time", .time e.time), ("kind", .text e.kind.text),
    ("sender_id", .word e.senderId), ("recipient_id", .word e.recipientId),
    ("sender", .address e.sender), ("recipient", .address e.recipient), ("before", .word e.before),
    ("after", .word e.after), ("change", .numeric e.change)]

def readKind (name : String) : Except Failure SystemEventKind :=
  match Named.read? name with
  | some kind => .ok kind
  | none => .error (.decode ("unknown system event kind " ++ name))

def ofRow (row : Row) : Except Failure SystemEvent := do
  return {
    height := ← row.height "height"
    time := ← row.time "time"
    kind := ← readKind (← row.text "kind")
    senderId := ← row.word "sender_id"
    recipientId := ← row.word "recipient_id"
    sender := ← row.address "sender"
    recipient := ← row.address "recipient"
    before := ← row.word "before"
    after := ← row.word "after"
    change := ← row.numeric "change" }

end SystemEvent
end StakeIndex
