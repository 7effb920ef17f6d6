import StakeIndex.Index.EpochSync
import StakeIndex.Index.Scrape

/-!
Work that asks for a whole scrape or a whole synchronisation at once, however that is done: a scrape up to the
head, and a turn of following the chain.
-/
namespace StakeIndex

/-- What a turn asks: what any job may ask, for a scrape, or for a synchronisation. -/
inductive TurnRequest where
  | plain (r : Request)
  | scrape (plan : ScrapePlan) (range : BlockRange) (addresses : List Address)
  | sync (version : Version) (height : Nat) (time : Instant)

abbrev TurnRequest.Answer : TurnRequest → Type
  | plain r => r.Answer
  | scrape .. => Except Stop ScrapeReport
  | sync .. => Except Stop SyncSummary

/-- A part of a turn that cannot stop early. -/
abbrev TurnSteps := Dialogue TurnRequest TurnRequest.Answer

abbrev TurnJob := ExceptT Stop TurnSteps

namespace TurnJob

def plain {α : Type} (job : Job α) : TurnJob α :=
  ExceptT.mk (job.run.mapRequests fun r => .request (.plain r))

def steps {α : Type} (s : TurnSteps α) : TurnJob α := ExceptT.lift s

def scrape (plan : ScrapePlan) (range : BlockRange) (addresses : List Address) : TurnJob ScrapeReport :=
  ExceptT.mk (Dialogue.ask (.scrape plan range addresses) .done)

def sync (version : Version) (height : Nat) (time : Instant) : TurnJob SyncSummary :=
  ExceptT.mk (Dialogue.ask (.sync version height time) .done)

end TurnJob

end StakeIndex
