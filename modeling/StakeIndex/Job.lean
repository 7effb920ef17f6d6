import StakeIndex.Chain.Request
import StakeIndex.Dialogue
import StakeIndex.Store.Request

/-!
The work of the indexer: dialogues with the chain, with the store and with the memory that its parts
share. A job that fails stops there; what it had written stays.
-/
namespace StakeIndex

/-- Memory that outlives a job: whether the work was called off, whether a scrape up to the head is
running and how far the last one got, and the delegations that epoch synchronisation has read. -/
inductive SharedRequest where
  | isCancelled
  | beginCatchUp
  | reachedHeight (height : Nat)
  | endCatchUp
  | knownDelegation (id : Word)
  | rememberDelegation (d : Delegation)

namespace SharedRequest

/-- What a request is answered with. A scrape that may not begin learns how far the running one is. -/
abbrev Result : SharedRequest → Type
  | isCancelled => Bool
  | beginCatchUp => Option Nat
  | reachedHeight _ => Unit
  | endCatchUp => Unit
  | knownDelegation _ => Option Delegation
  | rememberDelegation _ => Unit

end SharedRequest

inductive Request where
  | chain (r : ChainRequest)
  | store (r : StoreRequest)
  | shared (r : SharedRequest)

/-- Why a job ends early. A crash is a defect of a store, not an answer of it. -/
inductive Stop where
  | failed (failure : Failure)
  | crashed
deriving DecidableEq, Repr

abbrev Request.Answer : Request → Type
  | chain r => Except ChainFault r.Result
  | store r => Except Stop r.Result
  | shared r => r.Result

/-- A part of a job that cannot stop early. -/
abbrev Steps := Dialogue Request Request.Answer

/-- Work that ends with a result or stops early. -/
abbrev Job := ExceptT Stop Steps

namespace Job

def fail {α : Type} (failure : Failure) : Job α := throw (.failed failure)

def lift {α : Type} : Except Failure α → Job α
  | .ok a => pure a
  | .error failure => fail failure

def steps {α : Type} (s : Steps α) : Job α := ExceptT.lift s

/-- The next height. There is none after the last one, and to go there is a defect. -/
def nextHeight (height : Nat) : Job Nat :=
  if height < topHeight then pure (height + 1) else throw .crashed

def outcome {α : Type} (job : Job α) : Steps (Except Stop α) := job.run

/-- Asks the chain; silence counts as a failure of `what`. -/
def chain (what : String) (r : ChainRequest) : Job r.Result :=
  ExceptT.mk <| .ask (.chain r) fun reply =>
    .done (reply.mapError fun fault => .failed (fault.toFailure what))

def store (r : StoreRequest) : Job r.Result := ExceptT.mk <| .ask (.store r) .done

def shared (r : SharedRequest) : Job r.Result :=
  ExceptT.mk <| .ask (.shared r) fun reply => .done (.ok reply)

/-- A job whose empty answer from the chain means that there is nothing. -/
def ifAny {α : Type} (job : Job α) : Job (Option α) :=
  ExceptT.mk do
    match ← job.outcome with
    | .ok a => return .ok (some a)
    | .error (.failed .emptyResponse) => return .ok none
    | .error stop => return .error stop

/-- The name under which silence on the chain's head is reported. -/
def headCall : String := "eth_blockNumber"

def head : Job Nat := chain headCall .head

def header (height : Nat) : Job BlockHeader := chain "eth_getBlockByNumber" (.header height)

def logs (first last : Nat) (addresses : List Address) : Job (List RawLog) :=
  chain "eth_getLogs" (.logs first last addresses)

end Job
end StakeIndex
