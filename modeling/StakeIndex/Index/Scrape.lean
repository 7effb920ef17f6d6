import StakeIndex.Index.Dispatch

/-!
Scraping a range of blocks: all logs of some contracts are fetched and handled by a number of workers.
What becomes of a log is reported for each log by itself; a lost worker fails the whole scrape.
-/
namespace StakeIndex

/-- What became of a log. The order is its place in the chain's answer. -/
structure ScrapeOutput where
  order : Nat
  log : RawLog
  result : Except Failure ContractEvent

/-- What became of a range of blocks: the outputs by height and place in the block, and the number of
logs there were. -/
structure ScrapeReport where
  range : BlockRange
  outputs : List ScrapeOutput
  total : Nat
  cancelled : Bool

namespace ScrapeReport

def failures (report : ScrapeReport) : List (ScrapeOutput × Failure) :=
  report.outputs.filterMap fun output =>
    match output.result with
    | .ok _ => none
    | .error failure => some (output, failure)

def processed (report : ScrapeReport) : Nat := report.outputs.length - report.failures.length

def isClean (report : ScrapeReport) : Bool :=
  !report.cancelled && report.outputs.length == report.total && report.failures.isEmpty

end ScrapeReport

/-- How a range is scraped: by how many workers, and whether they stop when the work is called off. -/
structure ScrapePlan where
  workers : Nat
  heedsCancel : Bool

/-- Whether the workers stop now. -/
def ScrapePlan.stops (plan : ScrapePlan) : Steps Bool :=
  if plan.heedsCancel then .ask (.shared .isCancelled) .done else return false

/-- What the workers make of logs, each taken by the next worker that is left, and how many workers were
lost. A crash costs its worker, and its log has no output. -/
def ScrapePlan.handleAll (plan : ScrapePlan) (context : Context) :
    Nat → HeaderCache → List (Nat × RawLog) → Steps (List ScrapeOutput × Nat)
  | _, _, [] => return ([], 0)
  | 0, _, _ :: _ => return ([], 0)
  | workers + 1, cache, (order, log) :: rest => do
    if ← plan.stops then return ([], 0)
    else
      let (result, cache) ← process context cache log
      match result with
      | .ok event => do
        let (outputs, lost) ← plan.handleAll context (workers + 1) cache rest
        return (⟨order, log, .ok event⟩ :: outputs, lost)
      | .error (.failed failure) => do
        let (outputs, lost) ← plan.handleAll context (workers + 1) cache rest
        return (⟨order, log, .error failure⟩ :: outputs, lost)
      | .error .crashed => do
        let (outputs, lost) ← plan.handleAll context workers cache rest
        return (outputs, lost + 1)

/-- Whether an output comes before another one or at the same place. -/
def ScrapeOutput.notAfter (a b : ScrapeOutput) : Bool :=
  a.log.height < b.log.height || (a.log.height == b.log.height && a.log.logIndex ≤ b.log.logIndex)

/-- The report on a range with a number of logs, from what was put out in any order. There is none when
workers were lost. -/
def ScrapeReport.conclude (range : BlockRange) (total : Nat) (outputs : List ScrapeOutput)
    (lost : Nat) : Except Failure ScrapeReport :=
  if 0 < lost then
    .error (.internal (toString lost ++ " scrape workers failed in blocks " ++
      toString range.first ++ " to " ++ toString range.last ++ "; " ++ toString outputs.length ++
      " of " ++ toString total ++ " logs handled"))
  else
    .ok { range, outputs := outputs.mergeSort ScrapeOutput.notAfter, total,
          cancelled := outputs.length < total }

def numbered (logs : List RawLog) : List (Nat × RawLog) := (List.range logs.length).zip logs

def ScrapePlan.crew (plan : ScrapePlan) (total : Nat) : Nat := min (max plan.workers 1) total

def ScrapePlan.scrape (plan : ScrapePlan) (context : Context) (range : BlockRange)
    (addresses : List Address) : Job ScrapeReport := do
  let logs ← Job.logs range.first range.last addresses
  let (outputs, lost) ←
    .steps (plan.handleAll context (plan.crew logs.length) .empty (numbered logs))
  .lift (ScrapeReport.conclude range logs.length outputs lost)

end StakeIndex
