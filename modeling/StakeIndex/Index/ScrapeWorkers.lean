import StakeIndex.Index.Scrape

/-!
Scraping by programs that take turns. One of them offers the logs in a queue and then closes it; the workers
take one log after another from there, handle them with the headers that they keep in common, and deliver
what became of them. The work may be called off at any moment.
-/
namespace StakeIndex

/-- What the programs of a scrape ask. Whatever is asked while a log is handled carries the place of the
log. -/
inductive ScrapeRequest where
  | offer (order : Nat) (log : RawLog)
  | close
  | isCalledOff
  | take (heedsCancel : Bool)
  | handling (order : Nat) (r : Request)
  | knownHeader (height : Nat)
  | rememberHeader (height : Nat) (header : BlockHeader)
  | deliver (output : ScrapeOutput)

/-- What a request is answered with. A closed queue accepts nothing, and has nothing more to take when it is
empty; a worker that waits for a log also learns that the work is called off. -/
abbrev ScrapeRequest.Answer : ScrapeRequest → Type
  | offer .. => Bool
  | close => Unit
  | isCalledOff => Bool
  | take _ => Option (Nat × RawLog)
  | handling _ r => r.Answer
  | knownHeader _ => Option BlockHeader
  | rememberHeader .. => Unit
  | deliver _ => Unit

/-- A program of a scrape that is under way. -/
abbrev ScrapeSteps := Dialogue ScrapeRequest ScrapeRequest.Answer

namespace ScrapeSteps

def ask (r : ScrapeRequest) : ScrapeSteps r.Answer := Dialogue.ask r .done

def handling {α : Type} (order : Nat) (steps : Steps α) : ScrapeSteps α :=
  steps.mapRequests fun r => ask (.handling order r)

/-- Offers logs one after another, as long as the queue accepts them, and closes it. -/
def offerAll : List (Nat × RawLog) → ScrapeSteps (Except Stop Unit)
  | [] => do
    let _ ← ask .close
    return .ok ()
  | (order, log) :: rest => do
    if ← ask (.offer order log) then offerAll rest
    else
      let _ ← ask .close
      return .ok ()

/-- The header of a block from what the workers keep, or else from the chain. -/
def header (order height : Nat) : ScrapeSteps (Except Stop BlockHeader) := do
  match ← ask (.knownHeader height) with
  | some header => return .ok header
  | none =>
    match ← handling order (Job.header height).outcome with
    | .error stop => return .error stop
    | .ok header =>
      let _ ← ask (.rememberHeader height header)
      return .ok header

def handle (context : Context) (order : Nat) (log : RawLog) :
    ScrapeSteps (Except Stop ContractEvent) := do
  match context.registry.atAddress? log.address with
  | none => return .error (.failed (unknownContract log))
  | some binding =>
    match ← header order log.height with
    | .error stop => return .error stop
    | .ok header => handling order (recordLog context binding header log).outcome

def stops (heedsCancel : Bool) : ScrapeSteps Bool :=
  if heedsCancel then ask .isCalledOff else return false

/-- A worker: one log after another until there is none left. A crash is the end of the worker, and its log
has no output. No worker takes more logs than there are, so the number of rounds is bounded. -/
def worker (context : Context) (heedsCancel : Bool) : Nat → ScrapeSteps (Except Stop Unit)
  | 0 => return .ok ()
  | rounds + 1 => do
    if ← stops heedsCancel then return .ok ()
    else
      match ← ask (.take heedsCancel) with
      | none => return .ok ()
      | some (order, log) =>
        match ← handle context order log with
        | .error .crashed => return .error .crashed
        | .error (.failed failure) =>
          let _ ← ask (.deliver ⟨order, log, .error failure⟩)
          worker context heedsCancel rounds
        | .ok event =>
          let _ ← ask (.deliver ⟨order, log, .ok event⟩)
          worker context heedsCancel rounds

end ScrapeSteps

def ScrapePlan.parts (plan : ScrapePlan) (context : Context) (logs : List RawLog) :
    List (ScrapeSteps (Except Stop Unit)) :=
  .offerAll (numbered logs) ::
    List.replicate (plan.crew logs.length) (.worker context plan.heedsCancel (logs.length + 1))

def lostWorkers (results : List (Except Stop Unit)) : Nat := results.countP (!·.isOk)

end StakeIndex
