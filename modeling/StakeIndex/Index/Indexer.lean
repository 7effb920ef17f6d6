import StakeIndex.Index.Turn

/-!
The indexer: scrapes of given ranges, scrapes from a height up to the head, and epoch synchronisation on
request.
-/
namespace StakeIndex

structure IndexerOptions where
  network : String
  chainId : Option Nat
  startBlock : Nat
  batchSize : Nat
  pollInterval : Nat
  scrapeWorkers : Nat
  syncWorkers : Nat
  syncBatchSize : Nat
  version : Option Version
deriving Repr

structure Indexer where
  context : Context
  options : IndexerOptions

/-- A request to index everything after some height up to the head. -/
structure CatchUpRequest where
  network : String
  chainId : Option Nat
  version : Option String
  lastHeight : Nat
deriving Repr

/-- How far a scrape up to the head got, and what ended it early. -/
structure CatchUpReport where
  lastHeight : Nat
  error : Option String
deriving DecidableEq, Repr

/-- The answer to a request to catch up. Only one is worked on at a time. -/
inductive CatchUpOutcome where
  | completed (report : CatchUpReport)
  | processing (report : CatchUpReport)
deriving DecidableEq, Repr

namespace Indexer

def scrapeRange (i : Indexer) (first last : Nat) : Job ScrapeReport :=
  if last < first then
    .fail (.invalidParameter ("from (" ++ toString first ++ ") must not exceed to (" ++
      toString last ++ ")"))
  else
    ScrapePlan.scrape ⟨i.options.scrapeWorkers, false⟩ i.context ⟨first, last⟩
      i.context.registry.addresses

/-- The contracts that a request is about, if it is meant for this indexer. -/
def target (i : Indexer) (request : CatchUpRequest) : Except Failure (List Address) := do
  if request.network ≠ i.options.network then
    .error (.invalidParameter ("indexer serves network " ++ i.options.network ++ ", not " ++
      request.network))
  if let (some served, some asked) := (i.options.chainId, request.chainId) then
    if served ≠ asked then
      .error (.invalidParameter ("indexer serves chain " ++ toString served ++ ", not " ++
        toString asked))
  match request.version with
  | none => return i.context.registry.addresses
  | some text =>
    let version := Version.read text
    match i.context.registry.find? .validatorService version with
    | some _ => return i.context.registry.addressesOf version
    | none =>
      .error (.notFound ("contract version " ++ version.text ++ " is not registered"))

def batchEnd (i : Indexer) (lastHeight head : Nat) : Nat :=
  min (min (lastHeight + i.options.batchSize) topHeight) head

/-- How a request of a turn is met by one step after another. -/
def meet (i : Indexer) : (r : TurnRequest) → Steps r.Answer
  | .plain r => .request r
  | .scrape plan range addresses => (plan.scrape i.context range addresses).outcome
  | .sync version height time => (EpochSync.run i.context version height time).outcome

/-- Scrapes batch after batch up to the head, and stops after the first one that is not clean. -/
def catchUpFrom (i : Indexer) (addresses : List Address) (head : Nat) :
    Nat → Nat → TurnJob CatchUpReport
  | 0, lastHeight => return ⟨lastHeight, none⟩
  | fuel + 1, lastHeight =>
    if head ≤ lastHeight then return ⟨lastHeight, none⟩
    else do
      let last := i.batchEnd lastHeight head
      let plan : ScrapePlan := ⟨i.options.scrapeWorkers, false⟩
      match ← TurnJob.steps (TurnJob.scrape plan ⟨lastHeight + 1, last⟩ addresses).run with
      | .error .crashed => throw .crashed
      | .error (.failed failure) => return ⟨lastHeight, some failure.message⟩
      | .ok report =>
        if report.isClean then
          TurnJob.plain (.shared (.reachedHeight last))
          i.catchUpFrom addresses head fuel last
        else
          return ⟨lastHeight, some (toString report.failures.length ++ " of " ++
            toString report.total ++ " logs failed in blocks " ++ toString report.range.first ++
            " to " ++ toString report.range.last)⟩

def catchUp (i : Indexer) (addresses : List Address) (lastHeight : Nat) : TurnJob CatchUpReport := do
  let head ← TurnJob.plain Job.head
  TurnJob.plain (.shared (.reachedHeight lastHeight))
  i.catchUpFrom addresses head (head - lastHeight) lastHeight

/-- Answers a request to catch up. While one is worked on, the next one learns how far that is. -/
def answerCatchUp (i : Indexer) (request : CatchUpRequest) : TurnJob CatchUpOutcome := do
  let addresses ← TurnJob.plain (.lift (i.target request))
  match ← TurnJob.plain (.shared .beginCatchUp) with
  | some reached => return .processing ⟨reached, none⟩
  | none =>
    let outcome ← TurnJob.steps (i.catchUp addresses request.lastHeight).run
    TurnJob.plain (.shared .endCatchUp)
    match outcome with
    | .ok report => return .completed report
    | .error stop => throw stop

/-- The answer to a request to catch up, one step after another. -/
def scrapeLatest (i : Indexer) (request : CatchUpRequest) : Job CatchUpOutcome :=
  ExceptT.mk ((i.answerCatchUp request).run.mapRequests i.meet)

/-- The version that is synchronised unless another one is asked for. -/
def syncVersion (i : Indexer) : Except Failure Version :=
  match i.options.version, i.context.registry.newest? .validatorService with
  | some version, _ => .ok version
  | none, some binding => .ok binding.version
  | none, none => .error (.config "no validator_service contract registered")

/-- Synchronises a version at a block, the head unless another one is asked for. -/
def sync (i : Indexer) (version : Option String) (height : Option Nat) : Job SyncSummary := do
  let version ← match version with
    | some text => pure (Version.read text)
    | none => .lift i.syncVersion
  let height ← match height with
    | some height => pure height
    | none => Job.head
  let header ← Job.header height
  EpochSync.run i.context version height header.time

end Indexer
end StakeIndex
