import StakeIndex.Program.Launch
import StakeIndex.Index.Follow
import StakeIndex.Program.Retry

/-!
The work of a program that has started: the two commands that end by themselves, and what is said about
them. Serving and following go on until the program is called off; a follow that fails is repeated as the
retries say.
-/
namespace StakeIndex

/-- A line of the program's log. A line about a log of the chain names its block and transaction. -/
structure LogLine where
  isError : Bool
  place : Option (Nat × Hash) := none
  message : String
deriving DecidableEq, Repr

namespace Launched

def indexer (l : Launched) : Indexer where
  context := ⟨l.registry, l.configuration.nodeMode⟩
  options := l.configuration.indexerOptions

end Launched

def ScrapeReport.lines (report : ScrapeReport) : List LogLine :=
  report.failures.map fun (output, failure) =>
    ⟨true, some (output.log.height, output.log.txHash), "Log failed: " ++ failure.message⟩

/-- How a program ends that scraped some blocks: only a clean scrape is a success. -/
def ScrapeReport.ending (report : ScrapeReport) : Ending :=
  if report.isClean then .done
  else .failed (toString report.failures.length ++ " of " ++ toString report.total ++
    " logs failed in blocks " ++ toString report.range.first ++ " to " ++ toString report.range.last)

def SyncSummary.line (s : SyncSummary) : LogLine where
  isError := false
  message := "Synchronised " ++ toString s.validators ++ " validators, " ++ toString s.nodes ++
    " nodes, " ++ toString s.delegations ++ " delegations at block " ++ toString s.height

/-- The line about a follow that failed, after some failures in a row that count. -/
def Failure.followLine (f : Failure) (counted : Nat) : LogLine where
  isError := true
  message := "Follow loop failed: " ++ f.message ++ ". Restarting in " ++
    toString (Retry.delay counted) ++ "s (attempt " ++ toString (counted + 1) ++ ")..."

/-- The work of a command that ends by itself: the lines of the log and how the program ends. -/
def Command.work (i : Indexer) : Command → Option (Job (List LogLine × Ending))
  | .scrape first last => some do
    let report ← i.scrapeRange first last
    return (report.lines, report.ending)
  | .sync block version => some do
    let summary ← i.sync version block
    return ([summary.line], .done)
  | _ => none

end StakeIndex
