import StakeIndex.Sql.Write
import StakeIndex.Store.Request

/-!
The store of the index in a relational database: each request to the store as work on the database.
-/
namespace StakeIndex

open Sql

namespace Sql

def wordParam : Option Word → Cell := .optional .word

def addressParam : Option Address → Cell := .optional .address

def heightParam : Option Nat → Cell := .optional .height

def validators (q : ValidatorQuery) : Statement :=
  ⟨Statement.oneLine [
      "SELECT * FROM ( SELECT DISTINCT ON (validator_id)",
      "validator_id, block_height, name, validator_address, requested_address, description,",
      "fee_rate, registration_time, minimum_delegation_amount, accept_new_requests, authorized,",
      "active_nodes, linked_nodes, staked FROM validators",
      "WHERE ($1::NUMERIC IS NULL OR validator_id = $1)",
      "AND ($3::BIGINT IS NULL OR block_height < $3)",
      "ORDER BY validator_id, block_height DESC ) latest",
      "WHERE ($2::NUMERIC IS NULL OR validator_address = $2) ORDER BY validator_id"],
    [wordParam q.id, addressParam q.address, heightParam q.before]⟩

def delegations (q : DelegationQuery) : Statement :=
  ⟨Statement.oneLine [
      "SELECT * FROM ( SELECT DISTINCT ON (delegation_id)",
      "delegation_id, block_height, holder, validator_id, amount, delegation_period,",
      "created, started, finished, info, state, transaction_hash FROM delegations",
      "WHERE ($1::NUMERIC IS NULL OR delegation_id = $1)",
      "AND ($5::BIGINT IS NULL OR block_height < $5)",
      "ORDER BY delegation_id, block_height DESC ) latest",
      "WHERE ($2::NUMERIC IS NULL OR validator_id = $2)",
      "AND ($3::NUMERIC IS NULL OR holder = $3)",
      "AND (cardinality($4::SMALLINT[]) = 0 OR state = ANY($4)) ORDER BY delegation_id"],
    [wordParam q.id, wordParam q.validatorId, addressParam q.holder,
      .integers (q.states.map DelegationState.code), heightParam q.before]⟩

def nodes (q : NodeQuery) : Statement :=
  ⟨Statement.oneLine [
      "SELECT * FROM ( SELECT DISTINCT ON (node_id)",
      "node_id, block_height, name, ip, public_ip, port, start_block, next_reward_date,",
      "last_reward_date, finish_time, status, validator_id, event_time FROM nodes",
      "WHERE ($1::NUMERIC IS NULL OR node_id = $1)",
      "AND ($4::BIGINT IS NULL OR block_height < $4) ORDER BY node_id, block_height DESC",
      ") latest WHERE ($2::NUMERIC IS NULL OR validator_id = $2)",
      "AND ($3::SMALLINT IS NULL OR status = $3) ORDER BY node_id"],
    [wordParam q.id, wordParam q.validatorId, .optional (fun s : NodeStatus => .code s.code) q.status,
      heightParam q.before]⟩

def accounts (q : AccountQuery) : Statement :=
  ⟨Statement.oneLine [
      "SELECT address, account_type FROM accounts",
      "WHERE ($1::NUMERIC IS NULL OR address = $1)",
      "AND ($2::SMALLINT IS NULL OR account_type = $2) ORDER BY address"],
    [addressParam q.address, .optional (fun t : AccountType => .code t.rank) q.type]⟩

def contractEvents (q : ContractEventQuery) : Statement :=
  ⟨Statement.oneLine [
      "SELECT id, contract_name, event_name, contract_address, block_height, log_index, time, tx_hash,",
      "params, removed, bound_type, bound_ids, bound_addresses, flagged",
      "FROM contract_events WHERE ($1::NUMERIC IS NULL OR contract_address = $1)",
      "AND ($2::TEXT IS NULL OR event_name = $2) AND ($3::TEXT IS NULL OR bound_type = $3)",
      "AND ($4::NUMERIC IS NULL OR $4 = ANY(bound_ids))",
      "AND ($5::NUMERIC IS NULL OR $5 = ANY(bound_addresses))",
      "AND ($6::BIGINT IS NULL OR block_height >= $6)",
      "AND ($7::BIGINT IS NULL OR block_height <= $7) ORDER BY block_height, log_index"],
    [addressParam q.address, .optional .text q.event,
      .optional (fun t : BoundType => .text t.text) q.boundType, wordParam q.boundId,
      addressParam q.boundAddress, heightParam q.heights.lowest, heightParam q.heights.highest]⟩

def validatorStatistics (q : ValidatorStatisticQuery) : Statement :=
  ⟨Statement.oneLine [
      "SELECT validator_id AS subject, block_height, block_time, statistic_type, amount",
      "FROM validator_statistics WHERE ($1::NUMERIC IS NULL OR validator_id = $1)",
      "AND ($2::SMALLINT IS NULL OR statistic_type = $2)",
      "AND ($3::BIGINT IS NULL OR block_height >= $3)",
      "AND ($4::BIGINT IS NULL OR block_height <= $4)",
      "ORDER BY block_height, validator_id, statistic_type"],
    [wordParam q.validatorId, .optional (fun f : ValidatorFigure => .code f.code) q.figure,
      heightParam q.heights.lowest, heightParam q.heights.highest]⟩

def delegatorStatistics (q : DelegatorStatisticQuery) : Statement :=
  ⟨Statement.oneLine [
      "SELECT holder AS subject, block_height, block_time, statistic_type, amount",
      "FROM delegator_statistics WHERE ($1::NUMERIC IS NULL OR holder = $1)",
      "AND ($2::SMALLINT IS NULL OR statistic_type = $2)",
      "AND ($3::BIGINT IS NULL OR block_height >= $3)",
      "AND ($4::BIGINT IS NULL OR block_height <= $4)",
      "ORDER BY block_height, holder, statistic_type"],
    [addressParam q.holder, .optional (fun f : DelegatorFigure => .code f.code) q.figure,
      heightParam q.heights.lowest, heightParam q.heights.highest]⟩

def systemEvents (q : SystemEventQuery) : Statement :=
  ⟨Statement.oneLine [
      "SELECT height, time, kind, sender_id, recipient_id, sender, recipient, before, after, change",
      "FROM system_events WHERE ($1::TEXT IS NULL OR kind = $1)",
      "AND ($2::NUMERIC IS NULL OR sender_id = $2)",
      "AND ($3::NUMERIC IS NULL OR recipient_id = $3)",
      "AND ($4::NUMERIC IS NULL OR sender = $4 OR recipient = $4)",
      "AND ($5::BIGINT IS NULL OR height >= $5) AND ($6::BIGINT IS NULL OR height <= $6)",
      "ORDER BY height, id"],
    [.optional (fun k : SystemEventKind => .text k.text) q.kind, wordParam q.senderId,
      wordParam q.recipientId, addressParam q.address, heightParam q.heights.lowest,
      heightParam q.heights.highest]⟩

def setting (key : String) : Statement :=
  ⟨"SELECT value FROM indexer_state WHERE key = $1", [.text key]⟩

def entities {α : Type} (ofRow : Row → Except Failure α) (s : Statement) : Sql (List α) := do
  lift ((← query s).mapM ofRow)

end Sql

def StoreRequest.onDatabase : (r : StoreRequest) → Sql r.Result
  | saveContractEvent e => Sql.saveContractEvent e
  | saveValidator v => Sql.saveValidator v
  | saveDelegation d => Sql.saveDelegation d
  | saveNodes ns => Sql.saveNodes ns
  | saveAccount a => Sql.saveAccount a
  | saveValidatorStatistic s => Sql.run s.upsert
  | recordRewardClaim c => Sql.recordClaim c
  | saveSystemEvent e => Sql.saveSystemEvent e
  | updateCounts id => Sql.run (Sql.setCounters id)
  | calculate figure at_ => Sql.calculate figure at_
  | saveValidatorSnapshots snapshots height time => Sql.saveSnapshots snapshots height time
  | validators q => Sql.entities Validator.ofRow (Sql.validators q)
  | delegations q => Sql.entities Delegation.ofRow (Sql.delegations q)
  | nodes q => Sql.entities Node.ofRow (Sql.nodes q)
  | accounts q => Sql.entities Account.ofRow (Sql.accounts q)
  | contractEvents q => Sql.entities ContractEvent.ofRow (Sql.contractEvents q)
  | validatorStatistics q => Sql.entities ValidatorStatistic.ofRow (Sql.validatorStatistics q)
  | delegatorStatistics q => Sql.entities DelegatorStatistic.ofRow (Sql.delegatorStatistics q)
  | systemEvents q => Sql.entities SystemEvent.ofRow (Sql.systemEvents q)
  | setting key => do
    match ← Sql.query (Sql.setting key) with
    | [] => return none
    | row :: _ => return some (← Sql.lift (Row.text row "value"))
  | setSetting key value => Sql.setSetting key value

end StakeIndex
