import StakeIndex.Index.Indexer
import StakeIndex.Net.SocketAddress

/-!
The configuration of the program, read from the variables of its environment. The first variable that is
missing or does not fit is reported; they are read in the order of the fields.
-/
namespace StakeIndex

abbrev Environment := String → Option String

structure Configuration where
  databaseUrl : String
  databaseConnections : Nat
  rpcUrl : String
  rpcRequestsPerSecond : Nat
  abiDirectory : String
  network : String
  chainId : Option Nat
  controlAddress : SocketAddress
  metricsAddress : Option SocketAddress
  nodeMode : NodeMode
  contractVersion : Option String
  scrapeWorkers : Nat
  syncWorkers : Nat
  syncBatchSize : Nat
  viewCallTimeout : Nat
  startBlock : Nat
  batchSize : Nat
  pollInterval : Nat
deriving Repr

/-- A variable without which nothing works, or one whose text does not fit. -/
inductive ConfigurationFault where
  | missing (name : String)
  | invalid (name : String)
deriving DecidableEq, Repr

def ConfigurationFault.message : ConfigurationFault → String
  | missing name => name ++ " must be set"
  | invalid name => "Invalid " ++ name

namespace Configuration

def required (env : Environment) (name : String) : Except ConfigurationFault String :=
  match env name with
  | some text => .ok text
  | none => .error (.missing name)

/-- The value of a variable, or of the text that stands for it when it is not set. -/
def parsed {α : Type} (env : Environment) (name : String) (plain : String)
    (read : String → Option α) : Except ConfigurationFault α :=
  match read ((env name).getD plain) with
  | some value => .ok value
  | none => .error (.invalid name)

/-- The value of a variable that may be missing. -/
def parsed? {α : Type} (env : Environment) (name : String) (read : String → Option α) :
    Except ConfigurationFault (Option α) :=
  match env name with
  | none => .ok none
  | some text =>
    match read text with
    | some value => .ok (some value)
    | none => .error (.invalid name)

/-- A number of 32 bits. -/
def half (text : String) : Option Nat := Numeral.read? (1 <<< 32) text

/-- A number of 64 bits. -/
def whole (text : String) : Option Nat := Numeral.read? registerSize text

/-- The names of all variables in the order in which they are read. -/
def variableNames : List String :=
  ["DATABASE_URL", "DB_MAX_CONNECTIONS", "RPC_URL", "RPC_REQUESTS_PER_SECOND", "ABI_DIR", "NETWORK",
    "CHAIN_ID", "CONTROL_ADDR", "METRICS_ADDR", "NODE_MODE", "CONTRACT_VERSION", "SCRAPE_WORKERS",
    "SYNC_WORKERS", "SYNC_BATCH_SIZE", "VIEW_CALL_TIMEOUT_SECS", "START_BLOCK", "BATCH_SIZE",
    "POLL_INTERVAL_SECS"]

def read (env : Environment) : Except ConfigurationFault Configuration := do
  return {
    databaseUrl := ← required env "DATABASE_URL"
    databaseConnections := ← parsed env "DB_MAX_CONNECTIONS" "20" half
    rpcUrl := ← required env "RPC_URL"
    rpcRequestsPerSecond := ← parsed env "RPC_REQUESTS_PER_SECOND" "100" half
    abiDirectory := ← required env "ABI_DIR"
    network := ← required env "NETWORK"
    chainId := ← parsed? env "CHAIN_ID" whole
    controlAddress := ← parsed env "CONTROL_ADDR" "0.0.0.0:8080" SocketAddress.read?
    metricsAddress := ← parsed? env "METRICS_ADDR" SocketAddress.read?
    nodeMode := ← parsed env "NODE_MODE" "archive" fun text => (NodeMode.find text).toOption
    contractVersion := env "CONTRACT_VERSION"
    scrapeWorkers := ← parsed env "SCRAPE_WORKERS" "5" whole
    syncWorkers := ← parsed env "SYNC_WORKERS" "40" whole
    syncBatchSize := ← parsed env "SYNC_BATCH_SIZE" "10" whole
    viewCallTimeout := ← parsed env "VIEW_CALL_TIMEOUT_SECS" "30" whole
    startBlock := ← parsed env "START_BLOCK" "0" whole
    batchSize := ← parsed env "BATCH_SIZE" "1000" whole
    pollInterval := ← parsed env "POLL_INTERVAL_SECS" "5" whole }

/-- What of the configuration concerns the indexer. A batch holds at least one block. -/
def indexerOptions (c : Configuration) : IndexerOptions where
  network := c.network
  chainId := c.chainId
  startBlock := c.startBlock
  batchSize := max c.batchSize 1
  pollInterval := c.pollInterval
  scrapeWorkers := c.scrapeWorkers
  syncWorkers := c.syncWorkers
  syncBatchSize := c.syncBatchSize
  version := c.contractVersion.map Version.read

end Configuration
end StakeIndex
