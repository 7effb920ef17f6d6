import StakeIndex.Sql.Record
import StakeIndex.Store.Rewards

/-!
The statements that write entities and keep the rows derived from them. A figure is written only where it
changes, a counter always shows the latest row of its figure, and what takes several statements happens
in one transaction.
-/
namespace StakeIndex

open Sql

/-- Adds a figure's row unless the latest row below it carries the same amount already; a row at the
same height that becomes superfluous so is removed. -/
def ValidatorStatistic.upsert (s : ValidatorStatistic) : Statement :=
  ⟨Statement.oneLine [
      "WITH prev AS ( SELECT amount FROM validator_statistics",
      "WHERE validator_id = $1 AND statistic_type = $4 AND block_height < $2",
      "ORDER BY block_height DESC LIMIT 1 ), redundant AS (",
      "DELETE FROM validator_statistics",
      "WHERE validator_id = $1 AND statistic_type = $4 AND block_height = $2",
      "AND EXISTS (SELECT 1 FROM prev WHERE amount = $5) )",
      "INSERT INTO validator_statistics (validator_id, block_height, block_time, statistic_type, amount)",
      "SELECT $1::NUMERIC, $2::BIGINT, $3::TIMESTAMPTZ, $4::SMALLINT, $5::NUMERIC",
      "WHERE NOT EXISTS (SELECT 1 FROM prev WHERE amount = $5)",
      "ON CONFLICT (validator_id, block_height, statistic_type)",
      "DO UPDATE SET amount = EXCLUDED.amount, block_time = EXCLUDED.block_time"],
    s.columns.map (·.2)⟩

namespace Sql

def latestValidatorRow : String :=
  "validator_id = $1 AND block_height = (SELECT MAX(block_height) FROM validators WHERE validator_id = $1)"

def latestAmount (figure : String) : String :=
  "COALESCE((SELECT amount FROM validator_statistics WHERE validator_id = $1 AND statistic_type = " ++
    figure ++ " ORDER BY block_height DESC LIMIT 1), 0)"

/-- Points a validator's counter at the latest row of its figure, which may belong to a later block than
the row written last. -/
def setCounter (validatorId : Word) (figure : ValidatorFigure) : Statement :=
  ⟨"UPDATE validators SET " ++ figure.column ++ " = " ++ latestAmount "$2" ++ " WHERE " ++
    latestValidatorRow, [.word validatorId, .code figure.code]⟩

/-- Points all counters of a validator at the latest rows of their figures. -/
def setCounters (validatorId : Word) : Statement :=
  let counter := fun (figure : ValidatorFigure) =>
    figure.column ++ " = " ++ latestAmount (toString figure.code)
  ⟨"UPDATE validators SET " ++
    Statement.listed ([.totalStake, .activeNodes, .linkedNodes].map counter) ++ " WHERE " ++
    latestValidatorRow, [.word validatorId]⟩

/-- The latest row of each id among those of a validator up to a height, if it meets a condition. -/
def latestRows (columns id table condition : String) : String :=
  Statement.oneLine [
    "( SELECT DISTINCT ON (" ++ id ++ ")", columns, "FROM", table,
    "WHERE validator_id = $1 AND block_height <= $2 ORDER BY", id ++ ",", "block_height DESC ) latest",
    "WHERE", condition]

/-- The question for the amount of a figure at a height. -/
def amount : ValidatorFigure → String
  | .totalStake =>
    let staked := [DelegationState.delegated, .undelegationRequested].map fun s => toString s.code
    "SELECT COALESCE(SUM(amount), 0)::NUMERIC FROM " ++
      latestRows "amount, state" "delegation_id" "delegations"
        ("state IN (" ++ Statement.listed staked ++ ")")
  | .activeNodes =>
    "SELECT COUNT(*)::NUMERIC FROM " ++
      latestRows "status" "node_id" "nodes" ("status = " ++ toString NodeStatus.active.code)
  | .linkedNodes =>
    "SELECT COUNT(*)::NUMERIC FROM " ++
      latestRows "status" "node_id" "nodes" ("status <> " ++ toString NodeStatus.left.code)

/-- Computes a figure from what is stored up to a height, writes its row and its counter. -/
def calculate (figure : ValidatorFigure) (at_ : Calculation) : Sql Word := isolated do
  let row ← queryOne ⟨amount figure, [.word at_.validatorId, .height at_.height]⟩
  let total ← lift (Row.firstWord row)
  run (ValidatorStatistic.upsert ⟨at_.validatorId, at_.height, at_.time, figure, total⟩)
  run (setCounter at_.validatorId figure)
  return total

def saveFigure (s : ValidatorStatistic) : Sql Unit := do
  run s.upsert
  run (setCounter s.validatorId s.figure)

def saveSnapshots (snapshots : List ValidatorSnapshot) (height : Nat) (time : Instant) : Sql Unit :=
  transaction do
    for s in snapshots do
      saveFigure ⟨s.validatorId, height, time, .activeNodes, s.activeNodes⟩
      saveFigure ⟨s.validatorId, height, time, .linkedNodes, s.linkedNodes⟩
      saveFigure ⟨s.validatorId, height, time, .totalStake, s.totalStake⟩

/-- Lets one claim of a holder be recorded at a time, so that each rebuilds from the whole ledger. -/
def lockHolder (holder : Address) : Statement :=
  ⟨"SELECT pg_advisory_xact_lock(hashtextextended($1::TEXT, 0))", [.address holder]⟩

def ledger (holder : Address) : Statement :=
  ⟨Statement.oneLine [
      "SELECT block_height, log_index, block_time, amount FROM reward_claims",
      "WHERE holder = $1 ORDER BY block_height, log_index"], [.address holder]⟩

/-- Removes a holder's rows from a height on. -/
def dropTotals (holder : Address) (height : Nat) : Statement :=
  ⟨"DELETE FROM delegator_statistics WHERE holder = $1 AND statistic_type = $2 AND block_height >= $3",
    [.address holder, .code DelegatorFigure.claimedRewards.code, .height height]⟩

/-- Records a claim and builds the holder's rows anew from its height on. -/
def recordClaim (claim : RewardClaim) : Sql Unit := transaction do
  run (lockHolder claim.holder)
  run (.upsert "reward_claims" ["holder", "block_height", "log_index"] ["amount", "block_time"]
    claim.columns)
  let claims ← lift ((← query (ledger claim.holder)).mapM (RewardClaim.ofRow claim.holder))
  run (dropTotals claim.holder claim.height)
  for row in (RewardClaim.rows claims).filter (claim.height ≤ ·.height) do
    run (.insert "delegator_statistics" row.columns)

/-- Writes nodes together, or nothing if there are none. -/
def saveNodes (nodes : List Node) : Sql Unit :=
  if nodes.isEmpty then return
  else transaction do
    for n in nodes do
      let key := ["node_id", "block_height"]
      run (.upsert "nodes" key (Statement.others n.columns key) n.columns)

/-- Writes a contract's event over an earlier one with the same place in the chain. -/
def saveContractEvent (e : ContractEvent) : Sql Unit :=
  let key := ["tx_hash", "log_index"]
  run (.upsert "contract_events" key (Statement.others e.columns key) e.columns)

/-- Writes a validator; the counters of a row that is there stay. -/
def saveValidator (v : Validator) : Sql Unit :=
  let key := ["validator_id", "block_height"]
  run (.upsert "validators" key
    (Statement.others v.columns (key ++ ["active_nodes", "linked_nodes", "staked"])) v.columns)

def saveDelegation (d : Delegation) : Sql Unit :=
  let key := ["delegation_id", "block_height"]
  run (.upsert "delegations" key (Statement.others d.columns key) d.columns)

/-- Writes an account unless it is known as something higher. -/
def saveAccount (a : Account) : Sql Unit :=
  let added := Statement.insert "accounts" a.columns
  run ⟨added.text ++ Statement.oneLine [
      " ON CONFLICT (address) DO UPDATE SET account_type = EXCLUDED.account_type,",
      "updated_at = NOW() WHERE accounts.account_type < EXCLUDED.account_type"], added.params⟩

/-- Writes an event of the system; the moment of one that is there stays. -/
def saveSystemEvent (e : SystemEvent) : Sql Unit :=
  run (.upsert "system_events"
    ["height", "kind", "sender", "sender_id", "recipient", "recipient_id"]
    ["before", "after", "change"] e.columns)

def setSetting (key value : String) : Sql Unit :=
  run ⟨Statement.oneLine [
      "INSERT INTO indexer_state (key, value, updated_at) VALUES ($1, $2, NOW())",
      "ON CONFLICT (key) DO UPDATE SET value = $2, updated_at = NOW()"], [.text key, .text value]⟩

end Sql
end StakeIndex
