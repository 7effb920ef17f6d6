import StakeIndex.Handling.Family
import StakeIndex.Proofs.Views

/-!
What the handling of an event writes. Each family reads the chain first, and then writes one list of
requests, which depends on what it read there and on the older rows of its subject.
-/
namespace StakeIndex

open Job

/-- The delegations with an id before a height. -/
def Tables.olderDelegations (t : Tables) (id : Word) (height : Nat) : List Delegation :=
  (t.perform (.delegations { id := some id, before := some height })).1

/-- The validators with an id before a height. -/
def Tables.olderValidators (t : Tables) (id : Word) (height : Nat) : List Validator :=
  (t.perform (.validators { id := some id, before := some height })).1

theorem does_askDelegations {chain : ChainAnswers} (t : Tables) (id : Word) (height : Nat) :
    Does chain (store (.delegations { id := some id, before := some height })) t
      (t.olderDelegations id height) [] :=
  does_question (fun _ => rfl) t

theorem does_askValidators {chain : ChainAnswers} (t : Tables) (id : Word) (height : Nat) :
    Does chain (store (.validators { id := some id, before := some height })) t
      (t.olderValidators id height) [] :=
  does_question (fun _ => rfl) t

section Delegations

/-- What is written about an event of a delegation. -/
def DelegationEvent.writes (parsed : DelegationEvent) (d : Delegation) (count : Word)
    (e : ContractEvent) : List StoreRequest :=
  .saveDelegation d :: ((if count ≠ 0 then [.saveAccount ⟨d.holder, .delegator⟩] else []) ++
    .calculate .totalStake (e.calculation d.validatorId) ::
      (parsed.systemEvents d e).map .saveSystemEvent)

/-- The event of a delegation as it is stored. -/
def DelegationEvent.outcome (parsed : DelegationEvent) (d : Delegation) (e : ContractEvent)
    (older : List Delegation) : ContractEvent :=
  let flagged := match older with
    | previous :: _ => !previous.state.mayBecome d.state
    | [] => e.flagged
  { e with flagged }.bind .delegation [parsed.delegationId, d.validatorId] [d.holder]

variable {chain : ChainAnswers} {c : ViewContract} {log : DecodedLog} {e : ContractEvent}

theorem does_saveSystemEvents (events : List SystemEvent) (t : Tables) :
    Does chain (forIn events PUnit.unit fun event _ => do
      store (.saveSystemEvent event)
      pure (ForInStep.yield PUnit.unit)) t PUnit.unit (events.map .saveSystemEvent) := by
  rw [List.map_eq_flatMap]
  refine does_forIn (fun event t => ?_) events t
  refine (does_store t (.saveSystemEvent event)).bind ?_
  exact does_pure ..

theorem handleDelegation_does {parsed : DelegationEvent} {read : Delegation} {count : Word}
    (known : DelegationEvent.read? log = .ok (some parsed))
    (delegation : ∀ t, Does chain (c.delegation parsed.delegationId e.height) t read [])
    (held : ∀ t, Does chain (c.holderDelegationCount read.holder e.height) t count []) (t : Tables) :
    Does chain (handleDelegation c log e) t
      (parsed.outcome { read with txHash := e.txHash } e
        (t.olderDelegations parsed.delegationId e.height))
      (parsed.writes { read with txHash := e.txHash } count e) := by
  rw [handleDelegation, known]
  set d := { read with txHash := e.txHash } with stamped
  have rest (t : Tables) (event : ContractEvent) (older : List Delegation)
      (told : event = parsed.outcome d e older) : Does chain (do
        let _ ← store (.calculate .totalStake (e.calculation d.validatorId))
        for event in parsed.systemEvents d e do
          store (.saveSystemEvent event)
        return event) t (parsed.outcome d e older)
          (.calculate .totalStake (e.calculation d.validatorId) ::
            (parsed.systemEvents d e).map .saveSystemEvent) := by
    refine (does_store t _).bind ?_
    rw [← List.append_nil (List.map ..), told]
    refine (does_saveSystemEvents ..).bind ?_
    exact does_pure ..
  refine (does_pure t (some parsed)).bind ((delegation _).bind ((does_askDelegations ..).bind ?_))
  refine (does_store _ (.saveDelegation d)).bind ((held _).bind ?_)
  dsimp only [Tables.performAll_nil]
  split
  · refine (does_store _ _).bind (rest _ _ _ ?_)
    cases t.olderDelegations parsed.delegationId e.height <;> rfl
  · refine rest _ _ _ ?_
    cases t.olderDelegations parsed.delegationId e.height <;> rfl

/-- The handling of an event of a delegation fails, or there is nothing to do, or it writes down what the
chain tells of the delegation. -/
theorem handleDelegation_cases (chain : ChainAnswers) (c : ViewContract) (log : DecodedLog)
    (e : ContractEvent) : Never chain (handleDelegation c log e) ∨
      (DelegationEvent.read? log = .ok none ∧ ∀ t, Does chain (handleDelegation c log e) t e []) ∨
      ∃ (parsed : DelegationEvent) (read d : Delegation) (count : Word),
        DelegationEvent.read? log = .ok (some parsed) ∧
        told? chain (c.delegation parsed.delegationId e.height) = some read ∧
        told? chain (c.holderDelegationCount read.holder e.height) = some count ∧
        d = { read with txHash := e.txHash } ∧
        ∀ t, Does chain (handleDelegation c log e) t
          (parsed.outcome d e (t.olderDelegations parsed.delegationId e.height))
          (parsed.writes d count e) := by
  cases known : DelegationEvent.read? log with
  | error failure =>
    refine .inl ?_
    rw [handleDelegation, known]
    exact (never_throw _).bind
  | ok found =>
    cases found with
    | none =>
      refine .inr (.inl ⟨rfl, fun t => ?_⟩)
      rw [handleDelegation, known]
      exact (does_pure t _).bind (does_pure _ e)
    | some parsed =>
      obtain never | ⟨read, delegation⟩ :=
        c.delegation_reads chain e.height parsed.delegationId
      · refine .inl ?_
        rw [handleDelegation, known]
        exact .next (does_pure · _) never.bind
      obtain never | ⟨count, held⟩ :=
        c.holderDelegationCount_reads chain e.height read.holder
      · refine .inl ?_
        rw [handleDelegation, known]
        exact .next (does_pure · _) (.next delegation (.after fun _ => .after fun _ => never.bind))
      · exact .inr (.inr ⟨parsed, read, _, count, rfl, told?_of_does delegation, told?_of_does held, rfl,
          handleDelegation_does known delegation held⟩)

end Delegations

section Validators

/-- The changes of parameters since the last older snapshot. -/
def Validator.changesSince (older : List Validator) (v : Validator) (e : ContractEvent) :
    List SystemEvent :=
  match older with
  | previous :: _ => previous.parameterChanges v e
  | [] => []

/-- What an event of a validator tells beside the validator, where its nodes are as the chain has them. -/
def ValidatorEvent.follows (parsed : ValidatorEvent) (nodes : List Node) (v : Validator)
    (e : ContractEvent) : List StoreRequest :=
  let membership := fun kind =>
    StoreRequest.saveSystemEvent ((SystemEvent.start e.height e.time kind).sentBy
      parsed.validatorId v.address)
  let refreshed := [
    .saveNodes (nodes.map fun n => { n with eventTime := e.time, height := e.height }),
    .calculate .activeNodes (e.calculation parsed.validatorId),
    .calculate .linkedNodes (e.calculation parsed.validatorId)]
  match parsed.change with
  | .nodeAddressAdded _ => refreshed
  | .nodeAddressRemoved _ => refreshed
  | .registered => [.saveAccount ⟨v.address, .validator⟩]
  | .addressChanged address => [.saveAccount ⟨address, .validator⟩]
  | .enabled => [membership .joinedActiveSet]
  | .disabled => [membership .leftActiveSet]

/-- What is written about an event of a validator. -/
def ValidatorEvent.writes (parsed : ValidatorEvent) (nodes : List Node) (v : Validator)
    (e : ContractEvent) (older : List Validator) : List StoreRequest :=
  .saveValidator v :: .updateCounts parsed.validatorId ::
    ((v.changesSince older e).map .saveSystemEvent ++ parsed.follows nodes v e)

variable {chain : ChainAnswers} {c : ViewContract} {log : DecodedLog} {e : ContractEvent}

theorem recalculateNodes_does (at_ : Calculation) (t : Tables) :
    Does chain (recalculateNodes at_) t ⟨⟩
      [.calculate .activeNodes at_, .calculate .linkedNodes at_] :=
  (does_store t _).bind ((does_store ..).bind (does_pure ..))

/-- Whether an event of a validator is about the nodes that act for it. -/
def ValidatorEvent.aboutNodes (parsed : ValidatorEvent) : Bool :=
  match parsed.change with
  | .nodeAddressAdded _ => true
  | .nodeAddressRemoved _ => true
  | _ => false

/-- The nodes of a validator as the contract of nodes lists them. -/
def ViewContract.listedNodes (c : ViewContract) (validatorId : Word) (height : Nat) : Job (List Node) := do
  (← c.sibling .nodes).validatorNodes validatorId height

theorem follow_cases (chain : ChainAnswers) (parsed : ValidatorEvent) (c : ViewContract)
    (v : Validator) (e : ContractEvent) : Never chain (parsed.follow c v e) ∨
      ∃ nodes, (parsed.aboutNodes → told? chain (c.listedNodes parsed.validatorId e.height) = some nodes) ∧
        ∀ t, Does chain (parsed.follow c v e) t ⟨⟩ (parsed.follows nodes v e) := by
  have refreshed : Never chain (do
      let nodes ← (← c.sibling .nodes).validatorNodes parsed.validatorId e.height
      store (.saveNodes (nodes.map fun n => { n with eventTime := e.time, height := e.height }))
      recalculateNodes (e.calculation parsed.validatorId)) ∨ ∃ nodes : List Node,
      told? chain (c.listedNodes parsed.validatorId e.height) = some nodes ∧ ∀ t, Does chain (do
        let nodes ← (← c.sibling .nodes).validatorNodes parsed.validatorId e.height
        store (.saveNodes (nodes.map fun n => { n with eventTime := e.time, height := e.height }))
        recalculateNodes (e.calculation parsed.validatorId)) t ⟨⟩ [
          .saveNodes (nodes.map fun n => { n with eventTime := e.time, height := e.height }),
          .calculate .activeNodes (e.calculation parsed.validatorId),
          .calculate .linkedNodes (e.calculation parsed.validatorId)] := by
    obtain never | ⟨sibling, found⟩ := c.sibling_reads chain .nodes
    · exact .inl never.bind
    obtain never | ⟨nodes, read⟩ := sibling.validatorNodes_reads chain e.height parsed.validatorId
    · exact .inl (.next found never.bind)
    · have listed (t : Tables) : Does chain (c.listedNodes parsed.validatorId e.height) t nodes [] :=
        (found t).bind (read _)
      refine .inr ⟨nodes, told?_of_does listed, fun t => ?_⟩
      refine (found t).bind ((read _).bind ((does_store _ _).bind ?_))
      exact recalculateNodes_does ..
  obtain ⟨id, change⟩ := parsed
  cases change with
  | nodeAddressAdded => exact refreshed.imp_right fun ⟨nodes, told, does⟩ => ⟨nodes, fun _ => told, does⟩
  | nodeAddressRemoved => exact refreshed.imp_right fun ⟨nodes, told, does⟩ => ⟨nodes, fun _ => told, does⟩
  | _ => exact .inr ⟨[], fun wrong => (nomatch wrong), fun t => does_store ..⟩

theorem handleValidator_does {parsed : ValidatorEvent} {v : Validator} {nodes : List Node}
    (known : ValidatorEvent.read? log = .ok (some parsed))
    (validator : ∀ t, Does chain (c.validator parsed.validatorId e.height) t v [])
    (follow : ∀ t, Does chain (parsed.follow c v e) t ⟨⟩ (parsed.follows nodes v e)) (t : Tables) :
    Does chain (handleValidator c log e) t (e.bind .validator [parsed.validatorId] [])
      (parsed.writes nodes v e (t.olderValidators parsed.validatorId e.height)) := by
  rw [handleValidator, known]
  have rest (t : Tables) : Does chain (do
      parsed.follow c v e
      return e.bind .validator [parsed.validatorId] []) t (e.bind .validator [parsed.validatorId] [])
        (parsed.follows nodes v e) := by
    rw [← List.append_nil (parsed.follows nodes v e)]
    refine (follow t).bind ?_
    exact does_pure ..
  refine (does_pure t (some parsed)).bind ((validator _).bind ((does_askValidators ..).bind ?_))
  refine (does_store _ (.saveValidator v)).bind ((does_store _ (.updateCounts _)).bind ?_)
  dsimp only [Tables.performAll_nil]
  cases t.olderValidators parsed.validatorId e.height with
  | nil => exact rest ..
  | cons previous tail => exact (does_saveSystemEvents ..).bind (rest ..)

/-- The handling of an event of a validator fails, or there is nothing to do, or it writes down what the
chain tells of the validator. -/
theorem handleValidator_cases (chain : ChainAnswers) (c : ViewContract) (log : DecodedLog)
    (e : ContractEvent) : Never chain (handleValidator c log e) ∨
      (ValidatorEvent.read? log = .ok none ∧ ∀ t, Does chain (handleValidator c log e) t e []) ∨
      ∃ (parsed : ValidatorEvent) (nodes : List Node) (v : Validator),
        ValidatorEvent.read? log = .ok (some parsed) ∧
        told? chain (c.validator parsed.validatorId e.height) = some v ∧
        (parsed.aboutNodes → told? chain (c.listedNodes parsed.validatorId e.height) = some nodes) ∧
        ∀ t, Does chain (handleValidator c log e) t (e.bind .validator [parsed.validatorId] [])
          (parsed.writes nodes v e (t.olderValidators parsed.validatorId e.height)) := by
  cases known : ValidatorEvent.read? log with
  | error failure =>
    refine .inl ?_
    rw [handleValidator, known]
    exact (never_throw _).bind
  | ok found =>
    cases found with
    | none =>
      refine .inr (.inl ⟨rfl, fun t => ?_⟩)
      rw [handleValidator, known]
      exact (does_pure t _).bind (does_pure _ e)
    | some parsed =>
      obtain never | ⟨v, validator⟩ := c.validator_reads chain e.height parsed.validatorId
      · refine .inl ?_
        rw [handleValidator, known]
        exact .next (does_pure · _) never.bind
      obtain never | ⟨nodes, listed, follow⟩ := follow_cases chain parsed c v e
      · refine .inl ?_
        rw [handleValidator, known]
        refine .next (does_pure · _) (.next validator ?_)
        refine .after fun older => .after fun _ => .after fun _ => ?_
        cases older with
        | nil => exact never.bind
        | cons previous tail => exact .after fun _ => never.bind
      · exact .inr (.inr ⟨parsed, nodes, v, rfl, told?_of_does validator, listed,
          handleValidator_does known validator follow⟩)

end Validators

section Others

/-- What is written about an event of a node. -/
def NodeEvent.writes (n : Node) (e : ContractEvent) : List StoreRequest := [
  .saveNodes [{ n with eventTime := e.time }],
  .calculate .activeNodes (e.calculation n.validatorId),
  .calculate .linkedNodes (e.calculation n.validatorId)]

/-- What is written about an event of rewards. -/
def DistributorEvent.writes (parsed : DistributorEvent) (e : ContractEvent) : List StoreRequest :=
  match parsed with
  | .withdrawBounty holder _ _ amount =>
    [.recordRewardClaim ⟨holder, e.height, e.logIndex, e.time, amount⟩]
  | .ofValidator _ => []

/-- The event of rewards as it is stored. -/
def DistributorEvent.outcome (parsed : DistributorEvent) (e : ContractEvent) : ContractEvent :=
  match parsed with
  | .withdrawBounty holder validatorId _ _ => e.bind .delegator [validatorId] [holder]
  | .ofValidator validatorId => e.bind .validator [validatorId] []

/-- The event of the system that a punishment is recorded as. -/
def PunisherEvent.systemEvent (parsed : PunisherEvent) (e : ContractEvent) : SystemEvent :=
  match parsed with
  | .slash validatorId amount =>
    ((SystemEvent.start e.height e.time .slashed).receivedBy validatorId .zero).between 0 amount
  | .forgive wallet amount =>
    ((SystemEvent.start e.height e.time .forgiven).receivedBy 0 wallet).between 0 amount

/-- The event of punishment as it is stored. -/
def PunisherEvent.outcome (parsed : PunisherEvent) (e : ContractEvent) : ContractEvent :=
  match parsed with
  | .slash validatorId _ => e.bind .validator [validatorId] []
  | .forgive wallet _ => e.bind .account [] [wallet]

/-- The accounts that the parties of an event of the token become. -/
def TokenEvent.accounts (parsed : TokenEvent) : List Account :=
  (parsed.parties.filter (· ≠ .zero)).map (⟨·, .default⟩)

variable (chain : ChainAnswers) (log : DecodedLog) (e : ContractEvent)

theorem handleNode_cases (c : ViewContract) : Never chain (handleNode c log e) ∨
    (NodeEvent.read? log = .ok none ∧ ∀ t, Does chain (handleNode c log e) t e []) ∨
    ∃ (parsed : NodeEvent) (n : Node), NodeEvent.read? log = .ok (some parsed) ∧
      told? chain (c.node parsed.nodeId e.height) = some n ∧
      ∀ t, Does chain (handleNode c log e) t (e.bind .node [parsed.nodeId] []) (NodeEvent.writes n e) := by
  unfold handleNode
  cases NodeEvent.read? log with
  | error failure => exact .inl (never_throw _).bind
  | ok found =>
    cases found with
    | none => exact .inr (.inl ⟨rfl, fun t => (does_pure t _).bind (does_pure _ e)⟩)
    | some parsed =>
      obtain never | ⟨n, read⟩ := c.node_reads chain e.height parsed.nodeId
      · exact .inl (.next (does_pure · _) never.bind)
      · refine .inr (.inr ⟨parsed, n, rfl, told?_of_does read, fun t => ?_⟩)
        refine (does_pure t (some parsed)).bind ((read _).bind ?_)
        refine (does_store _ (.saveNodes [{ n with eventTime := e.time }])).bind ?_
        exact (recalculateNodes_does ..).bind (does_pure ..)

theorem handleDistributor_cases : Never chain (handleDistributor log e) ∨
    (DistributorEvent.read? log = .ok none ∧ ∀ t, Does chain (handleDistributor log e) t e []) ∨
    ∃ parsed : DistributorEvent, DistributorEvent.read? log = .ok (some parsed) ∧
      ∀ t, Does chain (handleDistributor log e) t (parsed.outcome e) (parsed.writes e) := by
  unfold handleDistributor
  cases DistributorEvent.read? log with
  | error failure => exact .inl (never_throw _).bind
  | ok found =>
    rcases found with _ | ⟨holder, validatorId, receiver, amount⟩ | validatorId
    · exact .inr (.inl ⟨rfl, fun t => (does_pure t _).bind (does_pure ..)⟩)
    · exact .inr (.inr ⟨_, rfl, fun t =>
        (does_pure t _).bind ((does_store ..).bind (does_pure ..))⟩)
    · exact .inr (.inr ⟨_, rfl, fun t => (does_pure t _).bind (does_pure ..)⟩)

theorem handlePunisher_cases : Never chain (handlePunisher log e) ∨
    (PunisherEvent.read? log = .ok none ∧ ∀ t, Does chain (handlePunisher log e) t e []) ∨
    ∃ parsed : PunisherEvent, PunisherEvent.read? log = .ok (some parsed) ∧
      ∀ t, Does chain (handlePunisher log e) t (parsed.outcome e)
        [.saveSystemEvent (parsed.systemEvent e)] := by
  unfold handlePunisher
  cases PunisherEvent.read? log with
  | error failure => exact .inl (never_throw _).bind
  | ok found =>
    rcases found with _ | ⟨validatorId, amount⟩ | ⟨wallet, amount⟩
    · exact .inr (.inl ⟨rfl, fun t => (does_pure t _).bind (does_pure ..)⟩)
    · exact .inr (.inr ⟨_, rfl, fun t =>
        (does_pure t _).bind ((does_store ..).bind (does_pure ..))⟩)
    · exact .inr (.inr ⟨_, rfl, fun t =>
        (does_pure t _).bind ((does_store ..).bind (does_pure ..))⟩)

theorem saveParties_does (parsed : TokenEvent) (t : Tables) :
    Does chain (forIn parsed.parties PUnit.unit fun address _ =>
      if address ≠ .zero then do
        store (.saveAccount ⟨address, .default⟩)
        pure (ForInStep.yield PUnit.unit)
      else pure (ForInStep.yield PUnit.unit)) t PUnit.unit (parsed.accounts.map .saveAccount) := by
  have writes : parsed.accounts.map StoreRequest.saveAccount =
      parsed.parties.flatMap fun address =>
        if address ≠ .zero then [.saveAccount ⟨address, .default⟩] else [] := by
    rw [TokenEvent.accounts, List.map_map]
    induction parsed.parties with
    | nil => rfl
    | cons address rest ih => by_cases zero : address = .zero <;> simp_all
  rw [writes]
  refine does_forIn (fun address t => ?_) parsed.parties t
  split
  · refine (does_store t (.saveAccount ⟨address, .default⟩)).bind ?_
    exact does_pure ..
  · exact does_pure ..

theorem handleToken_cases : Never chain (handleToken log e) ∨
    (TokenEvent.read? log = .ok none ∧ ∀ t, Does chain (handleToken log e) t e []) ∨
    ∃ parsed : TokenEvent, TokenEvent.read? log = .ok (some parsed) ∧
      ∀ t, Does chain (handleToken log e) t (e.bind .account [] parsed.parties)
        (parsed.accounts.map .saveAccount) := by
  unfold handleToken
  cases TokenEvent.read? log with
  | error failure => exact .inl (never_throw _).bind
  | ok found =>
    cases found with
    | none => exact .inr (.inl ⟨rfl, fun t => (does_pure t _).bind (does_pure _ e)⟩)
    | some parsed =>
      refine .inr (.inr ⟨parsed, rfl, fun t => ?_⟩)
      refine (does_pure t (some parsed)).bind ?_
      rw [← List.append_nil (List.map ..)]
      refine (saveParties_does chain parsed _).bind ?_
      exact does_pure ..

end Others

end StakeIndex
