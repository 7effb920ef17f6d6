import StakeIndex.Index.Dispatch
import StakeIndex.Proofs.Repeat
import StakeIndex.Proofs.Views

/-!
What the handling of a log asks of the store. No handler stores the event of the contract itself or a setting:
the event is stored once, after its handling has succeeded, and under the place of its log. What a handler
stores stands at the height of its event, and the snapshot of a validator is stored before any counter is set.
-/
namespace StakeIndex

open Job

/-- What a handler may ask of the store. -/
inductive HandlerMay : StoreRequest → Prop where
  | validator (v : Validator) : HandlerMay (.saveValidator v)
  | counts (id : Word) : HandlerMay (.updateCounts id)
  | delegation (d : Delegation) : HandlerMay (.saveDelegation d)
  | nodes (nodes : List Node) : HandlerMay (.saveNodes nodes)
  | account (a : Account) : HandlerMay (.saveAccount a)
  | rewardClaim (c : RewardClaim) : HandlerMay (.recordRewardClaim c)
  | systemEvent (e : SystemEvent) : HandlerMay (.saveSystemEvent e)
  | calculate (figure : ValidatorFigure) (at_ : Calculation) : HandlerMay (.calculate figure at_)
  | askValidators (q : ValidatorQuery) : HandlerMay (.validators q)
  | askDelegations (q : DelegationQuery) : HandlerMay (.delegations q)

/-- What a handler does leaves the events of the contracts and the settings as they are. -/
theorem HandlerMay.frame {r : StoreRequest} (may : HandlerMay r) (t : Tables) :
    (t.perform r).2.contractEvents = t.contractEvents ∧ (t.perform r).2.settings = t.settings := by
  cases may with
  | counts id =>
    change (t.updateCounts id).contractEvents = _ ∧ (t.updateCounts id).settings = _
    rw [Tables.updateCounts_eq]
    exact ⟨rfl, rfl⟩
  | calculate figure at_ =>
    exact ⟨Tables.calculate_frame (·.contractEvents) (fun _ _ _ => rfl) ..,
      Tables.calculate_frame (·.settings) (fun _ _ _ => rfl) ..⟩
  | _ => exact ⟨rfl, rfl⟩

/-- What a handler asks of the store first, when its event is about a validator. -/
inductive SnapsAt (height : Nat) : StoreRequest → Prop where
  | older (q : ValidatorQuery) : SnapsAt height (.validators q)
  | validator {v : Validator} : v.height = height → SnapsAt height (.saveValidator v)

/-- What a handler asks of the store at a height, but for snapshots of validators. -/
inductive HandlesAt (height : Nat) : StoreRequest → Prop where
  | counts (id : Word) : HandlesAt height (.updateCounts id)
  | delegation {d : Delegation} : d.height = height → HandlesAt height (.saveDelegation d)
  | nodes {nodes : List Node} : (∀ n ∈ nodes, n.height = height) → HandlesAt height (.saveNodes nodes)
  | account (a : Account) : HandlesAt height (.saveAccount a)
  | rewardClaim {c : RewardClaim} : c.height = height → HandlesAt height (.recordRewardClaim c)
  | systemEvent {e : SystemEvent} : e.height = height → HandlesAt height (.saveSystemEvent e)
  | calculate (figure : ValidatorFigure) {at_ : Calculation} : at_.height = height →
    HandlesAt height (.calculate figure at_)
  | older (q : DelegationQuery) : HandlesAt height (.delegations q)

/-- What a handler asks at a height when its event is not about delegations. -/
def HandlesBeside (height : Nat) (r : StoreRequest) : Prop :=
  HandlesAt height r ∧ ∀ d, r ≠ .saveDelegation d

theorem SnapsAt.may {height : Nat} {r : StoreRequest} (snaps : SnapsAt height r) : HandlerMay r := by
  cases snaps with
  | older q => exact .askValidators q
  | validator => exact .validator _

theorem HandlesAt.may {height : Nat} {r : StoreRequest} (handles : HandlesAt height r) :
    HandlerMay r := by
  cases handles with
  | counts id => exact .counts id
  | delegation => exact .delegation _
  | nodes => exact .nodes _
  | account a => exact .account a
  | rewardClaim => exact .rewardClaim _
  | systemEvent => exact .systemEvent _
  | calculate figure => exact .calculate figure _
  | older q => exact .askDelegations q

/-- Two events of the same log. -/
structure ContractEvent.SameLog (e e' : ContractEvent) : Prop where
  address : e'.address = e.address
  height : e'.height = e.height
  logIndex : e'.logIndex = e.logIndex
  txHash : e'.txHash = e.txHash

theorem ContractEvent.sameLog_refl (e : ContractEvent) : e.SameLog e := ⟨rfl, rfl, rfl, rfl⟩

/-- Two events of the same log, both flagged or not. -/
structure ContractEvent.SameFlag (e e' : ContractEvent) : Prop extends e.SameLog e' where
  flagged : e'.flagged = e.flagged

theorem ContractEvent.sameFlag_refl (e : ContractEvent) : e.SameFlag e := ⟨e.sameLog_refl, rfl⟩

theorem ContractEvent.sameFlag_bind (e : ContractEvent) (type : BoundType) (ids : List Word)
    (addresses : List Address) : e.SameFlag (e.bind type ids addresses) := ⟨⟨rfl, rfl, rfl, rfl⟩, rfl⟩

section Loops

variable {allowed : StoreRequest → Prop}

theorem within_forIn {ι : Type} {turn : ι → PUnit → Job (ForInStep PUnit)} (items : List ι)
    (each : ∀ i ∈ items, Within allowed (turn i PUnit.unit) fun _ => True) :
    Within allowed (forIn items PUnit.unit turn) fun _ => True := by
  induction items with
  | nil => exact within_pure trivial
  | cons i rest ih =>
    obtain ⟨first, others⟩ := List.forall_mem_cons.1 each
    rw [List.forIn_cons]
    apply first.bind
    intro step _
    cases step with
    | done => exact within_pure trivial
    | yield => exact ih others

theorem within_store_bind {α : Type} {r : StoreRequest} {f : r.Result → Job α} {holds : α → Prop}
    (may : allowed r) (next : ∀ a, Within allowed (f a) holds) : Within allowed (store r >>= f) holds :=
  (within_store may).bind fun a _ => next a

theorem within_lift_bind {α β : Type} {value : Except Failure α} {f : α → Job β} {holds : β → Prop}
    (next : ∀ a, Within allowed (f a) holds) : Within allowed (lift value >>= f) holds := by
  have looked : Consults (lift value) fun _ => True := consults_lift fun _ _ => trivial
  exact looked.within.bind fun a _ => next a

end Loops

section Phases

variable {first later : StoreRequest → Prop}

/-- Programs whose requests to the store are of one kind up to some moment, and of another kind from then
on. -/
inductive AsksThen {ρ : Type} (first later : StoreRequest → Prop) (holds : ρ → Prop) : Steps ρ → Prop where
  | later {steps : Steps ρ} : Asks later holds steps → AsksThen first later holds steps
  | chain {r : ChainRequest} {next : Request.Answer (.chain r) → Steps ρ} :
    (∀ reply, AsksThen first later holds (next reply)) → AsksThen first later holds (.ask (.chain r) next)
  | shared {r : SharedRequest} {next : Request.Answer (.shared r) → Steps ρ} :
    (∀ reply, AsksThen first later holds (next reply)) → AsksThen first later holds (.ask (.shared r) next)
  | store {r : StoreRequest} {next : Request.Answer (.store r) → Steps ρ} : first r →
    (∀ reply, AsksThen first later holds (next reply)) → AsksThen first later holds (.ask (.store r) next)

theorem AsksThen.bind {ρ ρ' : Type} {holds : ρ → Prop} {holds' : ρ' → Prop} {steps : Steps ρ}
    {f : ρ → Steps ρ'} (asks : AsksThen first later holds steps)
    (next : ∀ result, holds result → Asks later holds' (f result)) :
    AsksThen first later holds' (steps >>= f) := by
  induction asks with
  | later asks => exact .later (asks.bind next)
  | chain _ ih => exact .chain ih
  | shared _ ih => exact .shared ih
  | store may _ ih => exact .store may ih

theorem Job.Asks.bind_then {ρ ρ' : Type} {holds : ρ → Prop} {holds' : ρ' → Prop} {steps : Steps ρ}
    {f : ρ → Steps ρ'} (asks : Asks first holds steps)
    (next : ∀ result, holds result → AsksThen first later holds' (f result)) :
    AsksThen first later holds' (steps >>= f) := by
  induction asks with
  | done h => exact next _ h
  | chain _ ih => exact .chain ih
  | shared _ ih => exact .shared ih
  | store may _ ih => exact .store may ih

theorem AsksThen.weaken {ρ : Type} {holds : ρ → Prop} {steps : Steps ρ} {later' : StoreRequest → Prop}
    (asks : AsksThen first later holds steps) (implies : ∀ r, later r → later' r) :
    AsksThen first later' holds steps := by
  induction asks with
  | later asks => exact .later (asks.weaken implies)
  | chain _ ih => exact .chain ih
  | shared _ ih => exact .shared ih
  | store may _ ih => exact .store may ih

theorem AsksThen.asks {ρ : Type} {holds : ρ → Prop} {steps : Steps ρ} {allowed : StoreRequest → Prop}
    (asks : AsksThen first later holds steps) (before : ∀ r, first r → allowed r)
    (after : ∀ r, later r → allowed r) : Asks allowed holds steps := by
  induction asks with
  | later asks => exact asks.weaken after
  | chain _ ih => exact .chain ih
  | shared _ ih => exact .shared ih
  | store may _ ih => exact .store (before _ may) ih

/-- A run of such a program has made some requests of the one kind and then some of the other. -/
theorem AsksThen.run_any {ρ : Type} {holds : ρ → Prop} {steps : Steps ρ}
    (asks : AsksThen first later holds steps) {t t' : Tables} {result : ρ}
    (run : Dialogue.Runs AnyAnswer steps t result t') :
    holds result ∧ ∃ requests requests', (∀ r ∈ requests, first r) ∧ (∀ r ∈ requests', later r) ∧
      t' = (t.performAll requests).performAll requests' := by
  induction asks generalizing t with
  | later asks =>
    obtain ⟨h, requests, may, same⟩ := asks.run_any run
    exact ⟨h, [], requests, fun _ member => (nomatch member), may, same⟩
  | chain _ ih =>
    cases run with
    | ask answered rest =>
      cases answered
      exact ih _ rest
  | shared _ ih =>
    cases run with
    | ask answered rest =>
      cases answered
      exact ih _ rest
  | @store r _ may _ ih =>
    cases run with
    | ask answered rest =>
      obtain ⟨-, rfl⟩ | ⟨stop, -, rfl⟩ := answered
      · obtain ⟨h, requests, requests', before, after, same⟩ := ih _ rest
        exact ⟨h, r :: requests, requests', List.forall_mem_cons.2 ⟨may, before⟩, after, same⟩
      · exact ih _ rest

variable {α β : Type} {job : Job α}

/-- A job whose requests to the store are of one kind first and of another kind later. -/
def WithinThen (first later : StoreRequest → Prop) (job : Job α) (holds : α → Prop) : Prop :=
  AsksThen first later (fun result : Except Stop α => ∀ a, result = .ok a → holds a) job.run

theorem Job.Within.then {holds : α → Prop} (within : Within later job holds) :
    WithinThen first later job holds := .later within

theorem Job.Within.bind_then {holds : α → Prop} {holds' : β → Prop} {f : α → Job β}
    (within : Within first job holds) (next : ∀ a, holds a → WithinThen first later (f a) holds') :
    WithinThen first later (job >>= f) holds' := by
  refine Asks.bind_then within fun result h => ?_
  cases result with
  | ok a => exact next a (h a rfl)
  | error stop => exact .later (.done fun _ wrong => (nomatch wrong))

theorem WithinThen.bind {holds : α → Prop} {holds' : β → Prop} {f : α → Job β}
    (within : WithinThen first later job holds) (next : ∀ a, holds a → Within later (f a) holds') :
    WithinThen first later (job >>= f) holds' := by
  refine AsksThen.bind within fun result h => ?_
  cases result with
  | ok a => exact next a (h a rfl)
  | error stop => exact .done fun _ wrong => (nomatch wrong)

theorem WithinThen.mono {holds holds' : α → Prop} (within : WithinThen first later job holds)
    (implies : ∀ a, holds a → holds' a) : WithinThen first later job holds' := by
  rw [← bind_pure job]
  exact within.bind fun a h => within_pure (implies a h)

end Phases

section Handlers

variable (c : ViewContract) (log : DecodedLog) (e : ContractEvent)

theorem recalculateNodes_within (validatorId : Word) :
    Within (HandlesBeside e.height) (recalculateNodes (e.calculation validatorId)) fun _ => True := by
  unfold recalculateNodes
  apply within_store_bind ⟨.calculate .activeNodes rfl, fun _ => nofun⟩
  intro _
  apply within_store_bind ⟨.calculate .linkedNodes rfl, fun _ => nofun⟩
  intro _
  exact within_pure trivial

theorem saveSystemEvents_within {height : Nat} {events : List SystemEvent}
    (at_ : ∀ event ∈ events, event.height = height) :
    Within (HandlesBeside height) (forIn events PUnit.unit fun event _ => do
      store (.saveSystemEvent event)
      pure (ForInStep.yield PUnit.unit)) fun _ => True := by
  apply within_forIn
  intro event member
  apply within_store_bind ⟨.systemEvent (at_ event member), fun _ => nofun⟩
  intro _
  exact within_pure trivial

theorem height_systemEvents (parsed : DelegationEvent) (d : Delegation) :
    ∀ event ∈ parsed.systemEvents d e, event.height = e.height :=
  List.forall_mem_map.2 fun _ _ => rfl

theorem height_parameterChanges (previous current : Validator) :
    ∀ event ∈ previous.parameterChanges current e, event.height = e.height :=
  List.forall_mem_map.2 fun _ _ => rfl

/-- What follows once a delegation is stored. -/
theorem tellDelegation_within (parsed : DelegationEvent) (d : Delegation) (flagged : Bool) :
    Within (HandlesBeside e.height) (do
      if (← c.holderDelegationCount d.holder e.height) ≠ 0 then
        store (.saveAccount ⟨d.holder, .delegator⟩)
      let _ ← store (.calculate .totalStake (e.calculation d.validatorId))
      for event in parsed.systemEvents d e do
        store (.saveSystemEvent event)
      return ({ e with flagged }.bind .delegation [parsed.delegationId, d.validatorId] [d.holder] : ContractEvent))
      { e with flagged }.SameFlag := by
  have rest : Within (HandlesBeside e.height) (do
      let _ ← store (.calculate .totalStake (e.calculation d.validatorId))
      for event in parsed.systemEvents d e do
        store (.saveSystemEvent event)
      return ({ e with flagged }.bind .delegation [parsed.delegationId, d.validatorId] [d.holder] : ContractEvent))
      { e with flagged }.SameFlag := by
    apply within_store_bind ⟨.calculate .totalStake rfl, fun _ => nofun⟩
    intro _
    apply (saveSystemEvents_within (height_systemEvents e parsed d)).bind
    intro _ _
    exact within_pure (ContractEvent.sameFlag_bind ..)
  apply (c.callUint_consults e.height _ _ _).within.bind
  intro count _
  dsimp only
  split
  · apply within_store_bind ⟨.account _, fun _ => nofun⟩
    intro _
    exact rest
  · exact rest

theorem handleDelegation_within :
    Within (HandlesAt e.height) (handleDelegation c log e) e.SameLog := by
  unfold handleDelegation
  apply within_lift_bind
  intro found
  cases found with
  | none => exact within_pure e.sameLog_refl
  | some parsed =>
    apply (c.delegation_consults e.height parsed.delegationId).within.bind
    intro read place
    apply within_store_bind (.older _)
    intro older
    apply within_store_bind (.delegation place.2)
    intro _
    exact ((tellDelegation_within c e parsed _ _).weaken fun _ => And.left).mono fun _ same =>
      ⟨same.address, same.height, same.logIndex, same.txHash⟩

theorem follow_within (parsed : ValidatorEvent) (v : Validator) :
    Within (HandlesBeside e.height) (parsed.follow c v e) fun _ => True := by
  have refreshed : Within (HandlesBeside e.height) (do
      let nodes ← (← c.sibling .nodes).validatorNodes parsed.validatorId e.height
      store (.saveNodes (nodes.map fun n => { n with eventTime := e.time, height := e.height }))
      recalculateNodes (e.calculation parsed.validatorId)) fun _ => True := by
    apply (ViewContract.find_consults c.context .nodes c.binding.version).within.bind
    intro sibling _
    apply (sibling.validatorNodes_consults e.height parsed.validatorId).within.bind
    intro nodes _
    apply within_store_bind ⟨.nodes (List.forall_mem_map.2 fun _ _ => rfl), fun _ => nofun⟩
    intro _
    exact recalculateNodes_within e _
  have account (a : Account) : Within (HandlesBeside e.height) (store (.saveAccount a)) fun _ => True :=
    within_store ⟨.account a, fun _ => nofun⟩
  have member (kind : SystemEventKind) : Within (HandlesBeside e.height)
      (store (.saveSystemEvent ((SystemEvent.start e.height e.time kind).sentBy parsed.validatorId v.address)))
      fun _ => True := within_store ⟨.systemEvent rfl, fun _ => nofun⟩
  obtain ⟨id, change⟩ := parsed
  cases change with
  | nodeAddressAdded => exact refreshed
  | nodeAddressRemoved => exact refreshed
  | registered => exact account _
  | addressChanged => exact account _
  | enabled => exact member .joinedActiveSet
  | disabled => exact member .leftActiveSet

theorem handleValidator_within :
    WithinThen (SnapsAt e.height) (HandlesBeside e.height) (handleValidator c log e) e.SameFlag := by
  unfold handleValidator
  have looked (value : Except Failure (Option ValidatorEvent)) :
      Within (SnapsAt e.height) (lift value) fun _ => True :=
    Consults.within (consults_lift fun _ _ => trivial)
  apply (looked _).bind_then
  intro found _
  cases found with
  | none => exact Within.then (within_pure e.sameFlag_refl)
  | some parsed =>
    apply (c.validator_consults e.height parsed.validatorId).within.bind_then
    intro v place
    apply (within_store (.older _)).bind_then
    intro older _
    have rest : Within (HandlesBeside e.height) (do
        parsed.follow c v e
        return (e.bind .validator [parsed.validatorId] [] : ContractEvent)) e.SameFlag := by
      apply (follow_within c e parsed v).bind
      intro _ _
      exact within_pure (e.sameFlag_bind ..)
    apply (within_store (.validator place.2.1)).bind_then
    intro _ _
    apply Within.then
    apply within_store_bind ⟨.counts _, fun _ => nofun⟩
    intro _
    cases older with
    | nil => exact rest
    | cons previous tail =>
      apply (saveSystemEvents_within (height_parameterChanges e previous v)).bind
      intro _ _
      exact rest

theorem handleNode_within : Within (HandlesBeside e.height) (handleNode c log e) e.SameFlag := by
  unfold handleNode
  apply within_lift_bind
  intro found
  cases found with
  | none => exact within_pure e.sameFlag_refl
  | some parsed =>
    apply (c.node_consults e.height parsed.nodeId).within.bind
    intro n place
    apply within_store_bind ⟨.nodes (List.forall_mem_singleton.2 place.2), fun _ => nofun⟩
    intro _
    apply (recalculateNodes_within e _).bind
    intro _ _
    exact within_pure (e.sameFlag_bind ..)

theorem handleDistributor_within :
    Within (HandlesBeside e.height) (handleDistributor log e) e.SameFlag := by
  unfold handleDistributor
  apply within_lift_bind
  intro found
  rcases found with _ | ⟨holder, validatorId, receiver, amount⟩ | validatorId
  · exact within_pure e.sameFlag_refl
  · apply within_store_bind ⟨.rewardClaim rfl, fun _ => nofun⟩
    intro _
    exact within_pure (e.sameFlag_bind ..)
  · exact within_pure (e.sameFlag_bind ..)

theorem handlePunisher_within : Within (HandlesBeside e.height) (handlePunisher log e) e.SameFlag := by
  unfold handlePunisher
  apply within_lift_bind
  intro found
  rcases found with _ | ⟨validatorId, amount⟩ | ⟨wallet, amount⟩
  · exact within_pure e.sameFlag_refl
  · apply within_store_bind ⟨.systemEvent rfl, fun _ => nofun⟩
    intro _
    exact within_pure (e.sameFlag_bind ..)
  · apply within_store_bind ⟨.systemEvent rfl, fun _ => nofun⟩
    intro _
    exact within_pure (e.sameFlag_bind ..)

/-- What a handler asks when its event is of the token. -/
inductive Introduces : StoreRequest → Prop where
  | account {a : Account} : a.address ≠ .zero → Introduces (.saveAccount a)

theorem Introduces.beside {r : StoreRequest} (introduces : Introduces r) (height : Nat) :
    HandlesBeside height r := by
  cases introduces
  exact ⟨.account _, fun _ => nofun⟩

theorem handleToken_within : Within Introduces (handleToken log e) e.SameFlag := by
  unfold handleToken
  apply within_lift_bind
  intro found
  cases found with
  | none => exact within_pure e.sameFlag_refl
  | some parsed =>
    refine Within.bind (?_ : Within Introduces _ fun _ => True) fun _ _ => ?_
    · apply within_forIn
      intro address _
      split
      next other =>
        apply within_store_bind (.account other)
        intro _
        exact within_pure trivial
      next => exact within_pure trivial
    · exact within_pure (e.sameFlag_bind ..)

/-- Only events of delegations make a handler store delegations, or flag the event. -/
theorem handleEvent_beside {binding : Binding} (other : binding.name ≠ .delegationController)
    (context : Context) : WithinThen (SnapsAt e.height) (HandlesBeside e.height)
      (handleEvent context binding log e) e.SameFlag := by
  unfold handleEvent
  dsimp only
  split
  next => exact handleValidator_within ..
  next => exact (handleNode_within ..).then
  next mine => exact absurd mine other
  next => exact (handlePunisher_within ..).then
  next => exact ((handleToken_within ..).weaken fun _ introduces => introduces.beside _).then
  next => exact (handleDistributor_within ..).then
  all_goals exact Within.then (within_pure e.sameFlag_refl)

theorem handleEvent_within (context : Context) (binding : Binding) :
    WithinThen (SnapsAt e.height) (HandlesAt e.height) (handleEvent context binding log e) e.SameLog := by
  by_cases mine : binding.name = .delegationController
  · unfold handleEvent
    dsimp only
    rw [mine]
    exact (handleDelegation_within ..).then
  · have handled := (handleEvent_beside log e mine context).weaken fun _ => And.left
    exact WithinThen.mono handled fun _ same => same.toSameLog

/-- The event of a log, as far as it is known without its data. -/
structure ContractEvent.IsOf (e : ContractEvent) (log : RawLog) : Prop where
  address : e.address = log.address
  height : e.height = log.height
  logIndex : e.logIndex = log.logIndex
  txHash : e.txHash = log.txHash

theorem handleLog_stays (context : Context) (binding : Binding) (header : BlockHeader) (log : RawLog) :
    WithinThen (SnapsAt log.height) (HandlesAt log.height) (handleLog context binding header log)
      fun e => e.IsOf log := by
  unfold handleLog
  have looked : Within (SnapsAt log.height) (lift (DecodedLog.ofLog context.registry log))
      fun _ => True := Consults.within (consults_lift fun _ _ => trivial)
  apply looked.bind_then
  intro decoded _
  have handled := handleEvent_within decoded (.ofLog binding header log decoded) context binding
  exact handled.mono fun _ same => ⟨same.address, same.height, same.logIndex, same.txHash⟩

theorem handleLog_within (context : Context) (binding : Binding) (header : BlockHeader) (log : RawLog) :
    Within HandlerMay (handleLog context binding header log) fun e => e.IsOf log :=
  (handleLog_stays context binding header log).asks (fun _ => SnapsAt.may) fun _ => HandlesAt.may

end Handlers

end StakeIndex
