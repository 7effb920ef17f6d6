import StakeIndex.Index.Follow
import StakeIndex.Rehearsal.Chain
import StakeIndex.Rehearsal.Transcript
import StakeIndex.Store.Tables

/-!
Rehearsals: jobs run against a chain that follows a script and a store in tables, and everything they ask
is written down.
-/
namespace StakeIndex

/-- When the work is called off: at a header or at a question for the head, counted in the step. -/
inductive CancelPoint where
  | never
  | atHeader (count : Nat)
  | atHead (count : Nat)
deriving DecidableEq, Repr

structure Rehearsal where
  chain : ScriptedChain
  tables : Tables
  failing : List String
  crashing : List String
  cancelled : Bool
  cancelPoint : CancelPoint
  catchUpRunning : Bool
  reachedHeight : Nat
  delegations : Table Word Delegation
  transcript : Transcript

namespace Rehearsal

def start (chain : ScriptedChain) : Rehearsal :=
  ⟨chain, .empty, [], [], false, .never, false, 0, ∅, .empty⟩

instance : Inhabited Rehearsal := ⟨start .empty⟩

def askHead (w : Rehearsal) : Except ChainFault Nat × Rehearsal :=
  let count := w.transcript.headFetches + 1
  let asked := { w with
    transcript := { w.transcript with headFetches := count }
    cancelled := w.cancelled || w.cancelPoint == .atHead count }
  match w.chain.heads with
  | [] => (.error .silent, asked)
  | [last] => (last.reply, asked)
  | next :: rest => (next.reply, { asked with chain := { w.chain with heads := rest } })

def answerChain (w : Rehearsal) : (r : ChainRequest) → Except ChainFault r.Result × Rehearsal
  | .head => w.askHead
  | .header height =>
    let headers := w.transcript.headers ++ [height]
    (w.chain.header height, { w with
      transcript := { w.transcript with headers }
      cancelled := w.cancelled || w.cancelPoint == .atHeader headers.length })
  | .logs first last addresses =>
    let asked := { w with transcript := { w.transcript with
      logQueries := w.transcript.logQueries ++ [(first, last, addresses.length)] } }
    match w.chain.logsFailure with
    | some f => (.error (.failed f), asked)
    | none => (.ok (w.chain.selectLogs first last addresses), asked)
  | .call block contract input =>
    (w.chain.call block contract input, { w with
      transcript := { w.transcript with
        calls := w.transcript.calls ++ [(block, contract, input.take 4)] } })

def answerStore (w : Rehearsal) (r : StoreRequest) : Except Stop r.Result × Rehearsal :=
  if w.crashing.contains r.name then (.error .crashed, w)
  else if w.failing.contains r.name then (.error (.failed .poolTimedOut), w)
  else
    let (result, tables) := w.tables.perform r
    let writes := if r.isEntityWrite then w.transcript.writes ++ [r] else w.transcript.writes
    (.ok result, { w with tables, transcript := { w.transcript with writes } })

def answerShared (w : Rehearsal) : (r : SharedRequest) → r.Result × Rehearsal
  | .isCancelled => (w.cancelled, w)
  | .beginCatchUp =>
    if w.catchUpRunning then (some w.reachedHeight, w) else (none, { w with catchUpRunning := true })
  | .reachedHeight height => ((), { w with reachedHeight := height })
  | .endCatchUp => ((), { w with catchUpRunning := false })
  | .knownDelegation id => (w.delegations.find? id, w)
  | .rememberDelegation d => ((), { w with delegations := w.delegations.insert d.id d })

def answer (r : Request) (w : Rehearsal) : r.Answer × Rehearsal :=
  match r with
  | .chain r => w.answerChain r
  | .store r => w.answerStore r
  | .shared r => w.answerShared r

def run {α : Type} (w : Rehearsal) (job : Job α) : Except Stop α × Rehearsal :=
  job.outcome.run answer w

/-- The answer to a request while another job waits to be run: it is run when logs are asked for the
`count`-th time in the step, before these logs are given. -/
def answerWith {β : Type} (count : Nat) (other : Steps β) (r : Request)
    (w : Rehearsal × Option β) : r.Answer × (Rehearsal × Option β) :=
  let (reply, next) := answer r w.1
  let due := match r, w.2 with
    | .chain (.logs _ _ _), none => next.transcript.logQueries.length == count
    | _, _ => false
  if due then
    let (b, next) := other.run answer next
    (reply, (next, some b))
  else (reply, (next, w.2))

/-- Runs a job, and another one in the middle of it. -/
def runWith {α β : Type} (w : Rehearsal) (count : Nat) (job : Job α) (other : Job β) :
    Except Stop α × Option (Except Stop β) × Rehearsal :=
  let (a, (w, b)) := job.outcome.run (answerWith count other.outcome) (w, none)
  (a, b, w)

/-- The same world with an empty transcript, and the work not called off until some point. -/
def nextStep (w : Rehearsal) (cancelPoint : CancelPoint) : Rehearsal :=
  { w with transcript := .empty, cancelled := false, cancelPoint }

end Rehearsal
end StakeIndex
