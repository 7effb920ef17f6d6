import StakeIndex.Index.EpochSync

/-!
Epoch synchronisation by parts that take turns: one for the validators, one for the nodes, and workers for
the delegations. Each worker claims one batch of ids after another, until some worker has come upon an id
that the chain does not know.
-/
namespace StakeIndex

/-- What a part of a synchronisation asks: what any job may ask, or of the memory that the workers of this
synchronisation have in common. -/
inductive PartRequest where
  | plain (r : Request)
  | claimBatch
  | isExhausted
  | exhaust

/-- What a request is answered with: a claim by the number of a batch that nobody claimed before. -/
abbrev PartRequest.Answer : PartRequest → Type
  | plain r => r.Answer
  | claimBatch => Nat
  | isExhausted => Bool
  | exhaust => Unit

/-- A part of a synchronisation that is under way, and ends with a result or stops early. -/
abbrev PartSteps (α : Type) := Dialogue PartRequest PartRequest.Answer (Except Stop α)

abbrev Part := ExceptT Stop (Dialogue PartRequest PartRequest.Answer)

namespace Part

def plain {α : Type} (job : Job α) : Part α :=
  ExceptT.mk (job.run.mapRequests fun r => .request (.plain r))

def ask (r : PartRequest) : Part r.Answer := ExceptT.mk <| .ask r fun reply => .done (.ok reply)

end Part

/-- How many workers read delegations, and how many ids each of them claims at once. -/
structure SyncPlan where
  workers : Nat
  batchSize : Nat

/-- The contracts of one version that a synchronisation reads. -/
structure SyncContracts where
  validatorService : ViewContract
  nodes : ViewContract
  controller : ViewContract

inductive PartResult where
  | validators (ids : List Word)
  | nodes (counted : Nat × CountsByValidator)
  | delegations (summed : Nat × StakeByValidator)

namespace EpochSync

/-- The first id of a batch. Ids are kept in a 64-bit register and do not pass its end. -/
def batchStart (size n : Nat) : Nat := min (n * size) topHeight

def batchLength (size n : Nat) : Nat := min (batchStart size n + size) topHeight - batchStart size n

/-- Stores the delegations of a batch from some id on. The first id that the chain does not know ends the
batch, and is the end of the delegations to all workers. -/
def batch (c : ViewContract) (height : Nat) :
    Nat → Nat → Nat × StakeByValidator → Part (Nat × StakeByValidator)
  | 0, _, summed => return summed
  | left + 1, id, summed => do
    match ← Part.plain (delegation c (.ofNat id) height).ifAny with
    | none =>
      Part.ask .exhaust
      return summed
    | some d =>
      Part.plain (.store (.saveDelegation d))
      batch c height left (id + 1) (summed.1 + 1, addStake summed.2 d)

/-- A worker: batches until the delegations have come to an end. Batches are numbered in a 64-bit register,
whose end no run comes to: a worker that goes through as many batches as it has numbers is taken to crash. -/
def worker (c : ViewContract) (height size : Nat) :
    Nat → Nat × StakeByValidator → Part (Nat × StakeByValidator)
  | 0, _ => throw .crashed
  | fuel + 1, summed => do
    if ← Part.ask .isExhausted then return summed
    else
      let n ← Part.ask .claimBatch
      let summed ← batch c height (batchLength size n) (batchStart size n) summed
      worker c height size fuel summed

/-- Stakes with those that another worker has summed up. -/
def mergeStakes (total part : StakeByValidator) : StakeByValidator :=
  part.entries.foldl (fun total (id, amount) =>
    total.insert id (((total.find? id).getD 0).saturatingAdd amount)) total

def mergeAll (sums : List (Nat × StakeByValidator)) : Nat × StakeByValidator :=
  sums.foldl (fun total part => (total.1 + part.1, mergeStakes total.2 part.2)) (0, ∅)

/-- The contracts of a version, which must all be known. -/
def findContracts (context : Context) (version : Version) : Except Failure SyncContracts := do
  let find := fun name => context.registry.require name version
  return ⟨⟨context, ← find .validatorService⟩, ⟨context, ← find .nodes⟩,
    ⟨context, ← find .delegationController⟩⟩

/-- The workers of a plan: at least one, with at least one id in a batch. -/
def workers (plan : SyncPlan) (c : ViewContract) (height : Nat) : List (PartSteps PartResult) :=
  List.replicate (max plan.workers 1)
    (PartResult.delegations <$> worker c height (max plan.batchSize 1) registerSize (0, ∅)).run

def parts (plan : SyncPlan) (c : SyncContracts) (height : Nat) (time : Instant) :
    List (PartSteps PartResult) :=
  (PartResult.validators <$> Part.plain (validators c.validatorService height allIds 1)).run ::
  (PartResult.nodes <$> Part.plain (nodes c.nodes height time allIds 1 (0, ∅))).run ::
  workers plan c.controller height

def closing (ids : List Word) (counts : CountsByValidator) (stakes : StakeByValidator) (height : Nat)
    (time : Instant) : StoreRequest :=
  .saveValidatorSnapshots (ids.map (snapshot counts stakes)) height time

end EpochSync
end StakeIndex
