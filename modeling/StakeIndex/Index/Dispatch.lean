import StakeIndex.Chain.HeaderCache
import StakeIndex.Handling.Family

/-!
From a log to an event of the index: the log's contract is looked up, the log is dated by its block and
decoded, and the event is handled by its family.
-/
namespace StakeIndex

/-- The event of a decoded log, before it is handled. -/
def ContractEvent.ofLog (binding : Binding) (header : BlockHeader) (log : RawLog)
    (decoded : DecodedLog) : ContractEvent where
  id := none
  contract := binding.name
  event := decoded.event
  address := log.address
  height := log.height
  logIndex := log.logIndex
  time := header.time
  txHash := log.txHash
  params := decoded.params.json
  removed := log.removed
  boundType := none
  boundIds := []
  boundAddresses := []
  flagged := false

/-- Decodes and handles a log of a contract in a block with some header. -/
def handleLog (context : Context) (binding : Binding) (header : BlockHeader) (log : RawLog) :
    Job ContractEvent := do
  let decoded ← .lift (DecodedLog.ofLog context.registry log)
  handleEvent context binding decoded (.ofLog binding header log decoded)

/-- Why a log of an unknown contract is not handled. -/
def unknownContract (log : RawLog) : Failure :=
  .notFound ("contract not found for address " ++ log.address.checksummed)

/-- Handles a log of a known contract in a block, and stores the event. -/
def recordLog (context : Context) (binding : Binding) (header : BlockHeader) (log : RawLog) :
    Job ContractEvent := do
  let event ← handleLog context binding header log
  .store (.saveContractEvent event)
  return event

/-- Turns a log into an event. The header of its block is taken from the cache or added to it, also
when the log cannot be handled. -/
def dispatch (context : Context) (cache : HeaderCache) (log : RawLog) :
    Steps (Except Stop ContractEvent × HeaderCache) := do
  match context.registry.atAddress? log.address with
  | none => return (.error (.failed (unknownContract log)), cache)
  | some binding =>
    let (header, cache) ← cache.fetch log.height
    match header with
    | .error stop => return (.error stop, cache)
    | .ok header => return (← (handleLog context binding header log).outcome, cache)

/-- Turns a log into an event and stores the event when its handling succeeded. -/
def process (context : Context) (cache : HeaderCache) (log : RawLog) :
    Steps (Except Stop ContractEvent × HeaderCache) := do
  let (result, cache) ← dispatch context cache log
  match result with
  | .error stop => return (.error stop, cache)
  | .ok event =>
    match ← (Job.store (.saveContractEvent event)).outcome with
    | .ok _ => return (.ok event, cache)
    | .error stop => return (.error stop, cache)

end StakeIndex
