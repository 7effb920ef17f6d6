import StakeIndex.Entity.Account
import StakeIndex.Entity.Delegation
import StakeIndex.Entity.Event
import StakeIndex.Entity.Node
import StakeIndex.Entity.Validator
import StakeIndex.Json.Form

/-!
The JSON form of every entity: an object with one member for each field.
-/
namespace StakeIndex

open Json (field field? fields?)

namespace Validator

def fieldNames : List String :=
  ["validator_id", "name", "validator_address", "requested_address", "description", "fee_rate",
    "registration_time", "minimum_delegation_amount", "accept_new_requests", "authorized",
    "active_nodes", "linked_nodes", "staked", "block_height"]

instance : JsonForm Validator where
  write v := .ofMembers [
    ("validator_id", .of v.id), ("name", .of v.name), ("validator_address", .of v.address),
    ("requested_address", .of v.requestedAddress), ("description", .of v.description),
    ("fee_rate", .of v.feeRate), ("registration_time", .of v.registered),
    ("minimum_delegation_amount", .of v.minimumDelegation),
    ("accept_new_requests", .of v.acceptsRequests), ("authorized", .of v.authorized),
    ("active_nodes", .of v.activeNodes), ("linked_nodes", .of v.linkedNodes),
    ("staked", .of v.staked), ("block_height", .of v.height)]
  read? j := do
    let part ← fields? fieldNames j
    return {
      id := ← field part "validator_id"
      name := ← field part "name"
      address := ← field part "validator_address"
      requestedAddress := ← field part "requested_address"
      description := ← field part "description"
      feeRate := ← field part "fee_rate"
      registered := ← field part "registration_time"
      minimumDelegation := ← field part "minimum_delegation_amount"
      acceptsRequests := ← field part "accept_new_requests"
      authorized := ← field part "authorized"
      activeNodes := ← field part "active_nodes"
      linkedNodes := ← field part "linked_nodes"
      staked := ← field part "staked"
      height := ← field part "block_height" }

end Validator

namespace Delegation

def fieldNames : List String :=
  ["delegation_id", "holder", "validator_id", "amount", "delegation_period", "created", "started",
    "finished", "info", "state", "block_height", "transaction_hash"]

instance : JsonForm Delegation where
  write d := .ofMembers [
    ("delegation_id", .of d.id), ("holder", .of d.holder), ("validator_id", .of d.validatorId),
    ("amount", .of d.amount), ("delegation_period", .of d.period), ("created", .of d.created),
    ("started", .of d.started), ("finished", .of d.finished), ("info", .of d.info),
    ("state", .of d.state), ("block_height", .of d.height), ("transaction_hash", .of d.txHash)]
  read? j := do
    let part ← fields? fieldNames j
    return {
      id := ← field part "delegation_id"
      holder := ← field part "holder"
      validatorId := ← field part "validator_id"
      amount := ← field part "amount"
      period := ← field part "delegation_period"
      created := ← field part "created"
      started := ← field part "started"
      finished := ← field part "finished"
      info := ← field part "info"
      state := ← field part "state"
      height := ← field part "block_height"
      txHash := ← field part "transaction_hash" }

end Delegation

namespace Node

def fieldNames : List String :=
  ["node_id", "name", "ip", "public_ip", "port", "start_block", "next_reward_date",
    "last_reward_date", "finish_time", "status", "validator_id", "event_time", "block_height"]

instance : JsonForm Node where
  write n := .ofMembers [
    ("node_id", .of n.id), ("name", .of n.name), ("ip", .of n.ip), ("public_ip", .of n.publicIp),
    ("port", .of n.port), ("start_block", .of n.startBlock),
    ("next_reward_date", .of n.nextReward), ("last_reward_date", .of n.lastReward),
    ("finish_time", .of n.finishTime), ("status", .of n.status),
    ("validator_id", .of n.validatorId), ("event_time", .of n.eventTime),
    ("block_height", .of n.height)]
  read? j := do
    let part ← fields? fieldNames j
    return {
      id := ← field part "node_id"
      name := ← field part "name"
      ip := ← field part "ip"
      publicIp := ← field part "public_ip"
      port := ← (part "port").bind (Json.natBelow? 65536)
      startBlock := ← field part "start_block"
      nextReward := ← field part "next_reward_date"
      lastReward := ← field part "last_reward_date"
      finishTime := ← field part "finish_time"
      status := ← field part "status"
      validatorId := ← field part "validator_id"
      eventTime := ← field part "event_time"
      height := ← field part "block_height" }

end Node

namespace Account

def fieldNames : List String := ["address", "account_type"]

instance : JsonForm Account where
  write a := .ofMembers [("address", .of a.address), ("account_type", .of a.type)]
  read? j := do
    let part ← fields? fieldNames j
    return { address := ← field part "address", type := ← field part "account_type" }

end Account

namespace ContractEvent

def fieldNames : List String :=
  ["id", "contract_name", "event_name", "contract_address", "block_height", "log_index", "time",
    "tx_hash", "params", "removed", "bound_type", "bound_ids", "bound_addresses", "flagged"]

instance : JsonForm ContractEvent where
  write e := .ofMembers [
    ("id", .of e.id), ("contract_name", .of e.contract), ("event_name", .of e.event),
    ("contract_address", .of e.address), ("block_height", .of e.height),
    ("log_index", .of e.logIndex), ("time", .of e.time), ("tx_hash", .of e.txHash),
    ("params", e.params), ("removed", .of e.removed), ("bound_type", .of e.boundType),
    ("bound_ids", .of e.boundIds), ("bound_addresses", .of e.boundAddresses),
    ("flagged", .of e.flagged)]
  read? j := do
    let part ← fields? fieldNames j
    return {
      id := ← field? part "id"
      contract := ← field part "contract_name"
      event := ← field part "event_name"
      address := ← field part "contract_address"
      height := ← field part "block_height"
      logIndex := ← field part "log_index"
      time := ← field part "time"
      txHash := ← field part "tx_hash"
      params := ← field part "params"
      removed := ← field part "removed"
      boundType := ← field? part "bound_type"
      boundIds := ← field part "bound_ids"
      boundAddresses := ← field part "bound_addresses"
      flagged := ← field part "flagged" }

end ContractEvent

namespace ValidatorStatistic

def fieldNames : List String :=
  ["validator_id", "block_height", "block_time", "statistic_type", "amount"]

instance : JsonForm ValidatorStatistic where
  write s := .ofMembers [
    ("validator_id", .of s.validatorId), ("block_height", .of s.height),
    ("block_time", .of s.time), ("statistic_type", .of s.figure), ("amount", .of s.amount)]
  read? j := do
    let part ← fields? fieldNames j
    return {
      validatorId := ← field part "validator_id"
      height := ← field part "block_height"
      time := ← field part "block_time"
      figure := ← field part "statistic_type"
      amount := ← field part "amount" }

end ValidatorStatistic

namespace DelegatorStatistic

def fieldNames : List String := ["holder", "block_height", "block_time", "statistic_type", "amount"]

instance : JsonForm DelegatorStatistic where
  write s := .ofMembers [
    ("holder", .of s.holder), ("block_height", .of s.height), ("block_time", .of s.time),
    ("statistic_type", .of s.figure), ("amount", .of s.amount)]
  read? j := do
    let part ← fields? fieldNames j
    return {
      holder := ← field part "holder"
      height := ← field part "block_height"
      time := ← field part "block_time"
      figure := ← field part "statistic_type"
      amount := ← field part "amount" }

end DelegatorStatistic

namespace RewardClaim

def fieldNames : List String := ["holder", "block_height", "log_index", "block_time", "amount"]

instance : JsonForm RewardClaim where
  write c := .ofMembers [
    ("holder", .of c.holder), ("block_height", .of c.height), ("log_index", .of c.logIndex),
    ("block_time", .of c.time), ("amount", .of c.amount)]
  read? j := do
    let part ← fields? fieldNames j
    return {
      holder := ← field part "holder"
      height := ← field part "block_height"
      logIndex := ← field part "log_index"
      time := ← field part "block_time"
      amount := ← field part "amount" }

end RewardClaim

namespace ValidatorSnapshot

def fieldNames : List String := ["validator_id", "active_nodes", "linked_nodes", "total_stake"]

instance : JsonForm ValidatorSnapshot where
  write s := .ofMembers [
    ("validator_id", .of s.validatorId), ("active_nodes", .of s.activeNodes),
    ("linked_nodes", .of s.linkedNodes), ("total_stake", .of s.totalStake)]
  read? j := do
    let part ← fields? fieldNames j
    return {
      validatorId := ← field part "validator_id"
      activeNodes := ← field part "active_nodes"
      linkedNodes := ← field part "linked_nodes"
      totalStake := ← field part "total_stake" }

end ValidatorSnapshot

namespace SystemEvent

def fieldNames : List String :=
  ["height", "time", "kind", "sender_id", "recipient_id", "sender", "recipient", "before", "after",
    "change"]

instance : JsonForm SystemEvent where
  write e := .ofMembers [
    ("height", .of e.height), ("time", .of e.time), ("kind", .of e.kind),
    ("sender_id", .of e.senderId), ("recipient_id", .of e.recipientId), ("sender", .of e.sender),
    ("recipient", .of e.recipient), ("before", .of e.before), ("after", .of e.after),
    ("change", .of e.change)]
  read? j := do
    let part ← fields? fieldNames j
    return {
      height := ← field part "height"
      time := ← field part "time"
      kind := ← field part "kind"
      senderId := ← field part "sender_id"
      recipientId := ← field part "recipient_id"
      sender := ← field part "sender"
      recipient := ← field part "recipient"
      before := ← field part "before"
      after := ← field part "after"
      change := ← field part "change" }

end SystemEvent

namespace BlockHeader

def fieldNames : List String := ["number", "hash", "timestamp"]

instance : JsonForm BlockHeader where
  write h := .ofMembers [
    ("number", .of h.number), ("hash", .of h.hash), ("timestamp", .of h.timestamp)]
  read? j := do
    let part ← fields? fieldNames j
    return {
      number := ← field part "number"
      hash := ← field part "hash"
      timestamp := ← field part "timestamp" }

end BlockHeader
end StakeIndex
