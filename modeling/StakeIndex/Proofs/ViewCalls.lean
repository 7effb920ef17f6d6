import StakeIndex.Index.Dispatch
import StakeIndex.Index.EpochWorkers

/-!
Jobs that read contracts at one height. Whatever the handling of a log and a synchronisation learn of a
contract they learn by view calls, and all these calls are for the height of the log, or of the
synchronisation. What holds of such a call, and of jobs that are put together, holds of both.
-/
namespace StakeIndex

open Job

/-- Jobs that ask the chain by view calls at one height only. -/
inductive CallsAt (context : Context) (height : Nat) : {α : Type} → Job α → Prop where
  | pure {α : Type} (a : α) : CallsAt context height (pure a : Job α)
  | throw {α : Type} (stop : Stop) : CallsAt context height (throw stop : Job α)
  | store (r : StoreRequest) : CallsAt context height (Job.store r)
  | shared (r : SharedRequest) : CallsAt context height (Job.shared r)
  | call (binding : Binding) (method : String) (arguments : List Abi.Value) :
    CallsAt context height (ViewContract.call ⟨context, binding⟩ height method arguments)
  | bind {α β : Type} {job : Job α} {f : α → Job β} : CallsAt context height job →
    (∀ a, CallsAt context height (f a)) → CallsAt context height (job >>= f)
  | ifAny {α : Type} {job : Job α} : CallsAt context height job → CallsAt context height job.ifAny

variable {context : Context} {height : Nat}

theorem callsAt_lift {α : Type} (value : Except Failure α) : CallsAt context height (lift value) := by
  cases value with
  | ok a => exact .pure a
  | error failure => exact .throw _

theorem callsAt_store_bind {α : Type} {r : StoreRequest} {f : r.Result → Job α}
    (next : ∀ a, CallsAt context height (f a)) : CallsAt context height (store r >>= f) :=
  (CallsAt.store r).bind next

theorem callsAt_lift_bind {α β : Type} {value : Except Failure α} {f : α → Job β}
    (next : ∀ a, CallsAt context height (f a)) : CallsAt context height (lift value >>= f) :=
  (callsAt_lift value).bind next

theorem callsAt_forIn {ι : Type} {turn : ι → PUnit → Job (ForInStep PUnit)} (items : List ι)
    (each : ∀ i, CallsAt context height (turn i PUnit.unit)) :
    CallsAt context height (forIn items PUnit.unit turn) := by
  induction items with
  | nil => exact .pure _
  | cons i rest ih =>
    rw [List.forIn_cons]
    apply (each i).bind
    intro step
    cases step with
    | done => exact .pure _
    | yield => exact ih

namespace ViewContract

variable (c : ViewContract) (height : Nat)

theorem call_callsAt (method : String) (arguments : List Abi.Value) :
    CallsAt c.context height (c.call height method arguments) := .call c.binding method arguments

/-- A job whose result is read from an answer. -/
theorem read_callsAt {α : Type} (method : String) (arguments : List Abi.Value)
    (read : List Abi.Value → Except Failure α) :
    CallsAt c.context height (do lift (read (← c.call height method arguments))) :=
  (c.call_callsAt height method arguments).bind fun _ => callsAt_lift _

theorem callUint_callsAt (method name : String) (arguments : List Abi.Value) :
    CallsAt c.context height (c.callUint height method name arguments) :=
  c.read_callsAt height method arguments _

theorem delegationRecord_callsAt (id : Word) :
    CallsAt c.context height (c.delegationRecord id height) := c.read_callsAt height _ _ _

theorem delegationState_callsAt (id : Word) : CallsAt c.context height (c.delegationState id height) :=
  (c.callUint_callsAt height ..).bind fun _ => .pure _

theorem delegation_callsAt (id : Word) : CallsAt c.context height (c.delegation id height) :=
  (c.delegationRecord_callsAt height id).bind fun _ =>
    (c.delegationState_callsAt height id).bind fun _ => .pure _

theorem validator_callsAt (id : Word) : CallsAt c.context height (c.validator id height) := by
  apply (c.read_callsAt height _ _ _).bind
  intro v
  apply (c.read_callsAt height _ _ _).bind
  intro authorized
  exact .pure _

theorem field_callsAt {α : Type} (values : List Abi.Value) (index : Nat) (name : String)
    (read : Abi.Value → Except Failure α) :
    CallsAt c.context height (do lift (read (← lift (Abi.Value.field values index name)))) :=
  callsAt_lift_bind fun _ => callsAt_lift _

theorem ip_callsAt (values : List Abi.Value) (index : Nat) (name : String) :
    CallsAt c.context height (do
      let bs ← lift ((← lift (Abi.Value.field values index name)).asFixedBytes name)
      lift (ipOf bs)) :=
  callsAt_lift_bind fun _ => callsAt_lift_bind fun _ => callsAt_lift _

theorem node_callsAt (id : Word) : CallsAt c.context height (c.node id height) := by
  unfold node
  refine (c.call_callsAt height ..).bind fun output => ?_
  refine (c.field_callsAt height _ 3 _ _).bind fun port => (c.field_callsAt height _ 7 _ _).bind fun status => ?_
  refine callsAt_lift_bind fun text => callsAt_lift_bind fun name => ?_
  refine (c.ip_callsAt height _ 1 _).bind fun ip => (c.ip_callsAt height _ 2 _).bind fun publicIp => ?_
  refine callsAt_lift_bind fun port => (c.field_callsAt height _ 4 _ _).bind fun startBlock => ?_
  refine (c.read_callsAt height _ _ _).bind fun nextReward => ?_
  refine (c.field_callsAt height _ 5 _ _).bind fun lastReward => ?_
  refine (c.field_callsAt height _ 6 _ _).bind fun finishTime => ?_
  exact callsAt_lift_bind fun status => (c.field_callsAt height _ 8 _ _).bind fun validatorId => .pure _

theorem nodesOf_callsAt (ids : List Word) : CallsAt c.context height (c.nodesOf height ids) := by
  induction ids with
  | nil => exact .pure _
  | cons id rest ih => exact (c.node_callsAt height id).bind fun n => ih.bind fun nodes => .pure _

theorem validatorNodes_callsAt (validatorId : Word) :
    CallsAt c.context height (c.validatorNodes validatorId height) := by
  apply (c.call_callsAt height ..).bind
  intro values
  apply callsAt_lift_bind
  intro ids
  exact c.nodesOf_callsAt height ids

end ViewContract

section Handlers

variable (c : ViewContract) (log : DecodedLog) (e : ContractEvent)

theorem recalculateNodes_callsAt (at_ : Calculation) : CallsAt context height (recalculateNodes at_) :=
  callsAt_store_bind fun _ => callsAt_store_bind fun _ => .pure _

theorem saveSystemEvents_callsAt (events : List SystemEvent) :
    CallsAt context height (forIn events PUnit.unit fun event _ => do
      store (.saveSystemEvent event)
      pure (ForInStep.yield PUnit.unit)) :=
  callsAt_forIn events fun _ => callsAt_store_bind fun _ => .pure _

theorem handleDelegation_callsAt : CallsAt c.context e.height (handleDelegation c log e) := by
  unfold handleDelegation
  apply callsAt_lift_bind
  intro found
  cases found with
  | none => exact .pure e
  | some parsed =>
    apply (c.delegation_callsAt e.height parsed.delegationId).bind
    intro read
    apply callsAt_store_bind
    intro older
    have rest (flagged : Bool) : CallsAt c.context e.height (do
        let _ ← store (.calculate .totalStake (e.calculation read.validatorId))
        for event in parsed.systemEvents { read with txHash := e.txHash } e do
          store (.saveSystemEvent event)
        return ({ e with flagged }.bind .delegation [parsed.delegationId, read.validatorId]
          [read.holder] : ContractEvent)) := by
      apply callsAt_store_bind
      intro _
      exact (saveSystemEvents_callsAt _).bind fun _ => .pure _
    apply callsAt_store_bind
    intro _
    apply (c.callUint_callsAt e.height _ _ _).bind
    intro count
    dsimp only
    split
    · exact callsAt_store_bind fun _ => rest _
    · exact rest _

theorem follow_callsAt (parsed : ValidatorEvent) (v : Validator) :
    CallsAt c.context e.height (parsed.follow c v e) := by
  have refreshed : CallsAt c.context e.height (do
      let nodes ← (← c.sibling .nodes).validatorNodes parsed.validatorId e.height
      store (.saveNodes (nodes.map fun n => { n with eventTime := e.time, height := e.height }))
      recalculateNodes (e.calculation parsed.validatorId)) := by
    unfold ViewContract.sibling ViewContract.find
    rw [bind_assoc]
    apply callsAt_lift_bind
    intro binding
    rw [pure_bind]
    apply (ViewContract.validatorNodes_callsAt ⟨c.context, binding⟩ e.height parsed.validatorId).bind
    intro nodes
    exact callsAt_store_bind fun _ => recalculateNodes_callsAt _
  obtain ⟨id, change⟩ := parsed
  cases change with
  | nodeAddressAdded | nodeAddressRemoved => exact refreshed
  | registered | addressChanged | enabled | disabled => exact .store _

theorem handleValidator_callsAt : CallsAt c.context e.height (handleValidator c log e) := by
  unfold handleValidator
  apply callsAt_lift_bind
  intro found
  cases found with
  | none => exact .pure e
  | some parsed =>
    apply (c.validator_callsAt e.height parsed.validatorId).bind
    intro v
    apply callsAt_store_bind
    intro older
    have rest : CallsAt c.context e.height (do
        parsed.follow c v e
        return (e.bind .validator [parsed.validatorId] [] : ContractEvent)) :=
      (follow_callsAt c e parsed v).bind fun _ => .pure _
    apply callsAt_store_bind
    intro _
    apply callsAt_store_bind
    intro _
    cases older with
    | nil => exact rest
    | cons previous tail => exact (saveSystemEvents_callsAt _).bind fun _ => rest

theorem handleNode_callsAt : CallsAt c.context e.height (handleNode c log e) := by
  unfold handleNode
  apply callsAt_lift_bind
  intro found
  cases found with
  | none => exact .pure e
  | some parsed =>
    apply (c.node_callsAt e.height parsed.nodeId).bind
    intro n
    apply callsAt_store_bind
    intro _
    exact (recalculateNodes_callsAt _).bind fun _ => .pure _

theorem handleDistributor_callsAt : CallsAt context height (handleDistributor log e) := by
  unfold handleDistributor
  apply callsAt_lift_bind
  intro found
  rcases found with _ | ⟨holder, validatorId, receiver, amount⟩ | validatorId
  · exact .pure e
  · exact callsAt_store_bind fun _ => .pure _
  · exact .pure _

theorem handlePunisher_callsAt : CallsAt context height (handlePunisher log e) := by
  unfold handlePunisher
  apply callsAt_lift_bind
  intro found
  rcases found with _ | ⟨validatorId, amount⟩ | ⟨wallet, amount⟩
  · exact .pure e
  · exact callsAt_store_bind fun _ => .pure _
  · exact callsAt_store_bind fun _ => .pure _

theorem handleToken_callsAt : CallsAt context height (handleToken log e) := by
  unfold handleToken
  apply callsAt_lift_bind
  intro found
  cases found with
  | none => exact .pure e
  | some parsed =>
    refine CallsAt.bind ?_ fun _ => .pure _
    apply callsAt_forIn
    intro address
    split
    · exact callsAt_store_bind fun _ => .pure _
    · exact .pure _

theorem handleEvent_callsAt (context : Context) (binding : Binding) :
    CallsAt context e.height (handleEvent context binding log e) := by
  unfold handleEvent
  dsimp only
  split
  · exact handleValidator_callsAt ⟨context, binding⟩ log e
  · exact handleNode_callsAt ⟨context, binding⟩ log e
  · exact handleDelegation_callsAt ⟨context, binding⟩ log e
  · exact handlePunisher_callsAt ..
  · exact handleToken_callsAt ..
  · exact handleDistributor_callsAt ..
  all_goals exact .pure e

theorem handleLog_callsAt (context : Context) (binding : Binding) (header : BlockHeader) (log : RawLog) :
    CallsAt context log.height (handleLog context binding header log) := by
  unfold handleLog
  apply callsAt_lift_bind
  intro decoded
  exact handleEvent_callsAt decoded (.ofLog binding header log decoded) context binding

end Handlers

namespace EpochSync

variable (c : ViewContract) (height : Nat)

theorem validators_callsAt (fuel : Nat) (id : Word) :
    CallsAt c.context height (validators c height fuel id) := by
  induction fuel generalizing id with
  | zero => exact .pure _
  | succ fuel ih =>
    unfold validators
    apply (c.validator_callsAt height id).ifAny.bind
    intro found
    cases found with
    | none => exact .pure _
    | some v =>
      apply callsAt_store_bind
      intro _
      cases id.next? with
      | none => exact .pure _
      | some next => exact (ih next).bind fun _ => .pure _

theorem nodes_callsAt (time : Instant) (fuel : Nat) (id : Word) (counted : Nat × CountsByValidator) :
    CallsAt c.context height (nodes c height time fuel id counted) := by
  induction fuel generalizing id counted with
  | zero => exact .pure _
  | succ fuel ih =>
    rw [nodes]
    apply (c.node_callsAt height id).ifAny.bind
    intro found
    cases found with
    | none => exact .pure _
    | some n =>
      apply callsAt_store_bind
      intro _
      cases id.next? with
      | none => exact .pure _
      | some next => exact ih next _

theorem delegation_callsAt (id : Word) : CallsAt c.context height (delegation c id height) := by
  unfold delegation
  apply (CallsAt.shared (.knownDelegation id)).bind
  intro known
  apply (c.delegationState_callsAt height id).bind
  intro state
  split
  · exact .pure _
  · apply (c.delegationRecord_callsAt height id).bind
    intro read
    exact (CallsAt.shared _).bind fun _ => .pure _

end EpochSync

end StakeIndex
