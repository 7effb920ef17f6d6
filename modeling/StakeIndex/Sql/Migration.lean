import StakeIndex.Dialogue
import StakeIndex.Failure

/-!
The schema of the database as a sequence of migrations, each applied once. The database remembers which
were applied, and a migration that is no longer what was applied stops everything.
-/
namespace StakeIndex.Sql

/-- A script that changes the schema, and the SHA-384 checksum of its text. -/
structure Migration where
  version : Nat
  description : String
  checksum : String
  script : String
deriving DecidableEq, Repr

namespace Migration

def initial : Migration where
  version := 20240601000000
  description := "initial"
  checksum :=
    "48f94df54418c81301a0018c97f0071e623fc915b89f028a4c839d227b0a505e" ++
    "a2ef60ecdd0feac1c9ead1642d067a09"
  script := "-- Entity tables keep one row per (id, block_height) snapshot; the highest
-- block_height is the current state.

CREATE TABLE IF NOT EXISTS validators (
    validator_id NUMERIC(78, 0) NOT NULL,
    block_height BIGINT NOT NULL,
    name TEXT NOT NULL,
    validator_address NUMERIC(78, 0) NOT NULL,
    requested_address NUMERIC(78, 0) NOT NULL,
    description TEXT NOT NULL,
    fee_rate NUMERIC(78, 0) NOT NULL,
    registration_time TIMESTAMPTZ NOT NULL,
    minimum_delegation_amount NUMERIC(78, 0) NOT NULL,
    accept_new_requests BOOLEAN NOT NULL,
    authorized BOOLEAN NOT NULL,
    active_nodes NUMERIC(78, 0) NOT NULL DEFAULT 0,
    linked_nodes NUMERIC(78, 0) NOT NULL DEFAULT 0,
    staked NUMERIC(78, 0) NOT NULL DEFAULT 0,
    PRIMARY KEY (validator_id, block_height)
);

CREATE INDEX IF NOT EXISTS idx_validators_address ON validators(validator_address);

CREATE TABLE IF NOT EXISTS delegations (
    delegation_id NUMERIC(78, 0) NOT NULL,
    block_height BIGINT NOT NULL,
    holder NUMERIC(78, 0) NOT NULL,
    validator_id NUMERIC(78, 0) NOT NULL,
    amount NUMERIC(78, 0) NOT NULL,
    delegation_period NUMERIC(78, 0) NOT NULL,
    created TIMESTAMPTZ NOT NULL,
    started NUMERIC(78, 0) NOT NULL,
    finished NUMERIC(78, 0) NOT NULL,
    info TEXT NOT NULL,
    state SMALLINT NOT NULL,
    transaction_hash TEXT NOT NULL,
    PRIMARY KEY (delegation_id, block_height)
);

CREATE INDEX IF NOT EXISTS idx_delegations_validator ON delegations(validator_id, block_height DESC);
CREATE INDEX IF NOT EXISTS idx_delegations_holder ON delegations(holder);

CREATE TABLE IF NOT EXISTS nodes (
    node_id NUMERIC(78, 0) NOT NULL,
    block_height BIGINT NOT NULL,
    name TEXT NOT NULL,
    ip TEXT NOT NULL,
    public_ip TEXT NOT NULL,
    port INTEGER NOT NULL,
    start_block NUMERIC(78, 0) NOT NULL,
    next_reward_date TIMESTAMPTZ NOT NULL,
    last_reward_date TIMESTAMPTZ NOT NULL,
    finish_time TIMESTAMPTZ NOT NULL,
    status SMALLINT NOT NULL,
    validator_id NUMERIC(78, 0) NOT NULL,
    event_time TIMESTAMPTZ NOT NULL,
    PRIMARY KEY (node_id, block_height)
);

CREATE INDEX IF NOT EXISTS idx_nodes_validator ON nodes(validator_id, block_height DESC);

CREATE TABLE IF NOT EXISTS accounts (
    address NUMERIC(78, 0) PRIMARY KEY,
    account_type SMALLINT NOT NULL,
    updated_at TIMESTAMPTZ NOT NULL DEFAULT NOW()
);

CREATE TABLE IF NOT EXISTS contract_events (
    id BIGSERIAL PRIMARY KEY,
    contract_name TEXT NOT NULL,
    event_name TEXT NOT NULL,
    contract_address NUMERIC(78, 0) NOT NULL,
    block_height BIGINT NOT NULL,
    log_index BIGINT NOT NULL,
    time TIMESTAMPTZ NOT NULL,
    tx_hash TEXT NOT NULL,
    params JSONB NOT NULL,
    removed BOOLEAN NOT NULL DEFAULT FALSE,
    bound_type TEXT,
    bound_ids NUMERIC(78, 0)[] NOT NULL DEFAULT '\x7b\x7d',
    bound_addresses NUMERIC(78, 0)[] NOT NULL DEFAULT '\x7b\x7d',
    flagged BOOLEAN NOT NULL DEFAULT FALSE,
    UNIQUE (tx_hash, log_index)
);

CREATE INDEX IF NOT EXISTS idx_contract_events_height ON contract_events(block_height);
CREATE INDEX IF NOT EXISTS idx_contract_events_bound_ids ON contract_events USING GIN (bound_ids);
CREATE INDEX IF NOT EXISTS idx_contract_events_bound_addresses ON contract_events USING GIN (bound_addresses);

CREATE TABLE IF NOT EXISTS validator_statistics (
    validator_id NUMERIC(78, 0) NOT NULL,
    block_height BIGINT NOT NULL,
    block_time TIMESTAMPTZ NOT NULL,
    statistic_type SMALLINT NOT NULL,
    amount NUMERIC(78, 0) NOT NULL,
    UNIQUE (validator_id, block_height, statistic_type)
);

CREATE INDEX IF NOT EXISTS idx_validator_statistics_lookup
    ON validator_statistics(validator_id, statistic_type, block_height DESC);

CREATE TABLE IF NOT EXISTS delegator_statistics (
    holder NUMERIC(78, 0) NOT NULL,
    block_height BIGINT NOT NULL,
    block_time TIMESTAMPTZ NOT NULL,
    statistic_type SMALLINT NOT NULL,
    amount NUMERIC(78, 0) NOT NULL,
    UNIQUE (holder, block_height, statistic_type)
);

CREATE TABLE IF NOT EXISTS system_events (
    id BIGSERIAL PRIMARY KEY,
    height BIGINT NOT NULL,
    time TIMESTAMPTZ NOT NULL,
    kind TEXT NOT NULL,
    sender_id NUMERIC(78, 0) NOT NULL,
    recipient_id NUMERIC(78, 0) NOT NULL,
    sender NUMERIC(78, 0) NOT NULL,
    recipient NUMERIC(78, 0) NOT NULL,
    before NUMERIC(78, 0) NOT NULL,
    after NUMERIC(78, 0) NOT NULL,
    change NUMERIC(79, 0) NOT NULL,
    UNIQUE (height, kind, sender, sender_id, recipient, recipient_id)
);

CREATE TABLE IF NOT EXISTS indexer_state (
    key TEXT PRIMARY KEY,
    value TEXT NOT NULL,
    updated_at TIMESTAMPTZ NOT NULL DEFAULT NOW()
);
"

/-- The ledger behind the claimed rewards. -/
def rewardClaims : Migration where
  version := 20240715000000
  description := "reward claims"
  checksum :=
    "4f505a9462072d795c477235bb2683623cd0db2ec66c705cef41d28afe27da2e" ++
    "95b674eaddd22a937fcb88360c193998"
  script := "-- Withdrawal ledger behind the CLAIMED_REWARDS delegator statistic
CREATE TABLE IF NOT EXISTS reward_claims (
    holder NUMERIC(78, 0) NOT NULL,
    block_height BIGINT NOT NULL,
    log_index BIGINT NOT NULL,
    block_time TIMESTAMPTZ NOT NULL,
    amount NUMERIC(78, 0) NOT NULL,
    UNIQUE (holder, block_height, log_index)
);
"

def all : List Migration := [initial, rewardClaims]

end Migration

/-- What the database remembers about a migration. -/
structure AppliedMigration where
  version : Nat
  checksum : String
  succeeded : Bool
deriving DecidableEq, Repr

/-- Why the schema cannot be brought up to date. -/
inductive MigrationFault where
  | incomplete (version : Nat)
  | unknown (version : Nat)
  | changed (version : Nat)
  | failed (version : Nat) (message : String)
deriving DecidableEq, Repr

namespace MigrationFault

def message : MigrationFault → String
  | incomplete v => "migration " ++ toString v ++
      " is partially applied; fix and remove row from `_sqlx_migrations` table"
  | unknown v => "migration " ++ toString v ++
      " was previously applied but is missing in the resolved migrations"
  | changed v => "migration " ++ toString v ++ " was previously applied but has been modified"
  | failed v message => "while executing migration " ++ toString v ++ ": " ++ message

def toFailure (fault : MigrationFault) : Failure := .database fault.message

end MigrationFault

/-- Work that runs migrations; a script that fails is answered with a message. -/
abbrev MigrationSteps := ExceptT MigrationFault (Dialogue Migration fun _ => Option String)

namespace Migration

/-- Runs a migration that was not applied, and checks that one that was applied is still the same. -/
def apply (applied : List AppliedMigration) (m : Migration) : MigrationSteps Unit :=
  match applied.find? fun a => a.version == m.version with
  | some a => if a.checksum = m.checksum then pure () else throw (.changed m.version)
  | none => ExceptT.mk <| .ask m fun
    | none => .done (.ok ())
    | some message => .done (.error (.failed m.version message))

/-- Brings the schema up to date. A migration that broke off, or one that nobody knows, is reported
before any script is run. -/
def bringUpToDate (applied : List AppliedMigration) : MigrationSteps Unit := do
  if let some v := ((applied.filter fun a => !a.succeeded).map (·.version)).min? then
    throw (.incomplete v)
  if let some a := applied.find? fun a => all.all fun m => m.version ≠ a.version then
    throw (.unknown a.version)
  all.forM (apply applied)

end Migration
end StakeIndex.Sql
