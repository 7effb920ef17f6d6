import StakeIndex.Index.Indexer

/-!
Following the chain: batch after batch is scraped up to the head, the checkpoint moves behind each batch,
and the contracts are synchronised at the first block of every month.
-/
namespace StakeIndex

/-- Where the indexer goes on: the next block, and the month that was reached. -/
structure FollowCursor where
  nextBlock : Nat
  epoch : Option String
deriving DecidableEq, Repr, Inhabited

namespace Indexer

/-- The block after a stored checkpoint, the first one if nothing is stored. -/
def blockAfter : Option String → Job Nat
  | none => return 0
  | some text =>
    match Numeral.read registerSize text with
    | .ok n => Job.nextHeight n
    | .error fault =>
      .fail (.internal ("corrupt " ++ lastIndexedBlock ++ " checkpoint " ++ text ++ ": " ++ fault.message))

/-- The place behind the stored checkpoint. -/
def resume (i : Indexer) : Job FollowCursor := do
  let next ← blockAfter (← .store (.setting lastIndexedBlock))
  return ⟨max next i.options.startBlock, ← .store (.setting lastSyncedEpoch)⟩

/-- The header of the first block of a range whose month is later than a given one, found by halving
the range; the last block is later. -/
def firstBlockAfter (month : String) : Nat → Nat → Nat → Job BlockHeader
  | 0, low, _ => Job.header low
  | fuel + 1, low, high =>
    if low < high then do
      let middle := low + (high - low) / 2
      if month < (← Job.header middle).time.monthText then firstBlockAfter month fuel low middle
      else firstBlockAfter month fuel (middle + 1) high
    else Job.header low

/-- The cursor after the month of a range is known. When it is a later month, the contracts are
synchronised at its first block. -/
def rollEpoch (i : Indexer) (cursor : FollowCursor) (first last : Nat) : TurnJob FollowCursor := do
  let month := (← TurnJob.plain (Job.header last)).time.monthText
  match cursor.epoch with
  | none =>
    TurnJob.plain (.store (.setSetting lastSyncedEpoch month))
    return { cursor with epoch := some month }
  | some previous =>
    if month ≤ previous then return cursor
    else
      let boundary ← TurnJob.plain (firstBlockAfter previous (last - first) first last)
      let version ← TurnJob.plain (.lift i.syncVersion)
      let _ ← TurnJob.sync version boundary.number boundary.time
      TurnJob.plain (.store (.setSetting lastSyncedEpoch month))
      return { cursor with epoch := some month }

def nextBatchEnd (i : Indexer) (first head : Nat) : Nat :=
  min (min (first + (i.options.batchSize - 1)) topHeight) head

def failedLogs (range : BlockRange) (failures : Nat) (output : ScrapeOutput) (failure : Failure) : Failure :=
  .internal (toString failures ++ " logs failed in blocks " ++ toString range.first ++ " to " ++
    toString range.last ++ ", first at block " ++ toString output.log.height ++ " tx " ++
    output.log.txHash.hex ++ ": " ++ failure.message)

/-- Scrapes the next batch and rolls the month: the cursor then and the last block of the batch, or
nothing when the head is reached or the work is called off. A failed log fails the batch. -/
def nextBatch (i : Indexer) (cursor : FollowCursor) : TurnJob (Option (FollowCursor × Nat)) := do
  let head ← TurnJob.plain Job.head
  let first := cursor.nextBlock
  if head < first then return none
  else
    let last := i.nextBatchEnd first head
    let report ← TurnJob.scrape ⟨i.options.scrapeWorkers, true⟩ ⟨first, last⟩ i.context.registry.addresses
    if report.cancelled then return none
    else match report.failures with
      | [] => return some (← i.rollEpoch cursor first last, last)
      | (output, failure) :: _ =>
        throw (.failed (failedLogs ⟨first, last⟩ report.failures.length output failure))

def checkpoint (last : Nat) : Job Nat := do
  .store (.setSetting lastIndexedBlock (toString last))
  Job.nextHeight last

/-- Goes on by one batch, and tells whether it did. When only the checkpoint fails, the cursor has the
new month already. -/
def turn (i : Indexer) (cursor : FollowCursor) : TurnSteps (Except Stop Bool × FollowCursor) := do
  match ← (i.nextBatch cursor).run with
  | .error stop => return (.error stop, cursor)
  | .ok none => return (.ok false, cursor)
  | .ok (some (rolled, last)) =>
    match ← (TurnJob.plain (checkpoint last)).run with
    | .error stop => return (.error stop, rolled)
    | .ok next => return (.ok true, { rolled with nextBlock := next })

/-- A turn, one step after another. -/
def advance (i : Indexer) (cursor : FollowCursor) : Steps (Except Stop Bool × FollowCursor) :=
  (i.turn cursor).mapRequests i.meet

/-- Goes on from a cursor until the work is called off, for at most some number of turns. At the head it
waits for the next turn. -/
def followFrom (i : Indexer) : Nat → FollowCursor → Job Unit
  | 0, _ => return ()
  | turns + 1, cursor => do
    if ← .shared .isCancelled then return ()
    else
      let (moved, cursor) ← .steps (i.advance cursor)
      match moved with
      | .error stop => throw stop
      | .ok _ => i.followFrom turns cursor

def follow (i : Indexer) (turns : Nat) : Job Unit := do
  i.followFrom turns (← i.resume)

end Indexer
end StakeIndex
