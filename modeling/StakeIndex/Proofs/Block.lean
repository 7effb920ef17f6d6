import StakeIndex.Proofs.Interleaving
import StakeIndex.Proofs.Registration
import StakeIndex.Proofs.Retry
import StakeIndex.Proofs.Scrape
import StakeIndex.Proofs.Settle

/-!
The logs of one block in any order. What the handling of a log writes follows from what the chain tells at
the block and from the snapshots before it, which no log of the block changes. So the logs of a block make
the same requests in every order, and they leave stores that agree.
-/
namespace StakeIndex

open Job Tables

/-- The registry knows one contract at most for each role. -/
structure Registry.OneOfEach (registry : Registry) (role : ContractName → Binding) : Prop where
  atAddress : ∀ address binding, registry.atAddress? address = some binding →
    binding = role binding.name
  find : ∀ name version binding, registry.find? name version = some binding → binding = role name

section Facts

/-- What the chain tells at a block, where each role has one contract, and what some tables tell of the
time before it. -/
def factsAt (chain : ChainAnswers) (context : Context) (role : ContractName → Binding) (height : Nat)
    (t : Tables) : BlockFacts :=
  let view := fun name => (⟨context, role name⟩ : ViewContract)
  let time := match chain (.header height) with
    | .ok header => header.time
    | .error _ => .ofSeconds 0
  { height
    time
    validator? := fun id => told? chain ((view .validatorService).validator id height)
    delegation? := fun id => told? chain ((view .delegationController).delegation id height)
    node? := fun id => (told? chain ((view .nodes).node id height)).map fun n =>
      { n with eventTime := time }
    listed? := fun id => told? chain ((view .nodes).validatorNodes id height)
    olderValidator? := fun id => (t.olderValidators id height).head?.map Validator.bare
    olderDelegation? := fun id => (t.olderDelegations id height).head? }

/-- In the tables, the snapshots before a block are still those of the facts. -/
structure BlockFacts.Recalls (facts : BlockFacts) (t : Tables) : Prop where
  validators : ∀ id, (t.olderValidators id facts.height).head?.map Validator.bare =
    facts.olderValidator? id
  delegations : ∀ id, (t.olderDelegations id facts.height).head? = facts.olderDelegation? id

theorem recalls_factsAt (chain : ChainAnswers) (context : Context) (role : ContractName → Binding)
    (height : Nat) (t : Tables) : (factsAt chain context role height t).Recalls t :=
  ⟨fun _ => rfl, fun _ => rfl⟩

variable {facts : BlockFacts} {t : Tables} {r : StoreRequest}

theorem olderValidators_bare (t : Tables) (id : Word) (height : Nat) :
    (t.olderValidators id height).map Validator.bare =
      ((t.validators.map fun _ => Validator.bare).current (some height)).filter
        (ValidatorQuery.admits { id := some id, before := some height }) := by
  rw [Table.current_map, List.filter_map]
  rfl

/-- The requests of a block leave the snapshots before it as they were, but for their counters. -/
theorem below_perform (states : facts.States r) (t : Tables) :
    (t.perform r).2.delegations.below facts.height = t.delegations.below facts.height ∧
      ((t.perform r).2.validators.map fun _ => Validator.bare).below facts.height =
        (t.validators.map fun _ => Validator.bare).below facts.height := by
  cases states with
  | figures figures =>
    cases figures with
    | event e =>
      exact ⟨saveContractEvent_frame (·.delegations.below facts.height) (fun _ _ _ => rfl) e t,
        saveContractEvent_frame (fun t => (t.validators.map fun _ => Validator.bare).below facts.height)
          (fun _ _ _ => rfl) e t⟩
    | validator v at_ =>
      refine ⟨rfl, ?_⟩
      change ((t.validators.insert (v.id, v.height) v).map fun _ => Validator.bare).below _ = _
      rw [Table.map_insert]
      exact Table.below_insert at_.ge
    | counts id =>
      change (t.updateCounts id).delegations.below _ = _ ∧
        ((t.updateCounts id).validators.map fun _ => Validator.bare).below _ = _
      rw [updateCounts_eq]
      exact ⟨rfl, congrArg (Table.below · facts.height) (map_bare_counted ..)⟩
    | calculate figure id =>
      rw [performed_calculate]
      exact ⟨rfl, congrArg (Table.below · facts.height) (map_bare_withCounter ..)⟩
  | delegation d at_ => exact ⟨Table.below_insert at_.ge, rfl⟩
  | _ => exact ⟨rfl, rfl⟩

theorem BlockFacts.Recalls.perform (recalls : facts.Recalls t) (states : facts.States r) :
    facts.Recalls (t.perform r).2 := by
  obtain ⟨delegations, validators⟩ := below_perform states t
  constructor
  · intro id
    rw [← recalls.validators id, ← List.head?_map, ← List.head?_map, olderValidators_bare,
      olderValidators_bare, Table.current_congr validators]
  · intro id
    rw [← recalls.delegations id, olderDelegations_congr delegations]

theorem BlockFacts.Recalls.performAll {requests : List StoreRequest} (recalls : facts.Recalls t)
    (states : ∀ r ∈ requests, facts.States r) : facts.Recalls (t.performAll requests) :=
  performAll_invariant facts.Recalls recalls fun r member _ recalls => recalls.perform (states r member)

end Facts

section Telling

/-- Requests of a block that are the whole of what some of its logs tell: the delegations, the payments
and the punishments among them, and no event of a contract. -/
structure BlockFacts.Tells (facts : BlockFacts) (seen : List Delegation) (claimed : List RewardClaim)
    (punished : List SystemEvent) (writes : List StoreRequest) : Prop where
  states : ∀ r ∈ writes, facts.States r
  followed : facts.ListsOwn → facts.Followed writes
  events : writes.filterMap (·.contractEvent?) = []
  delegations : writes.filterMap (·.delegation?) = seen
  claims : writes.filterMap (·.claim?) = claimed
  punishments : (writes.filterMap (·.systemEvent?)).filter (·.punishes) = punished

/-- Requests that make nothing due and tell of no delegation, payment or punishment. -/
inductive BlockFacts.Quiet (facts : BlockFacts) : StoreRequest → Prop where
  | counts (id : Word) : Quiet facts (.updateCounts id)
  | calculate (figure : ValidatorFigure) (id : Word) :
    Quiet facts (.calculate figure (facts.calculation id))
  | account (a : Account) : Quiet facts (.saveAccount a)
  | systemEvent (e : SystemEvent) : e.punishes = false →
    facts.amounts? e.kind e.senderId = some (e.before, e.after) →
    e.change = .difference e.before e.after → Quiet facts (.saveSystemEvent e)

variable {facts : BlockFacts} {seen : List Delegation} {claimed : List RewardClaim}
  {punished : List SystemEvent} {writes : List StoreRequest}

theorem BlockFacts.tells_nil : facts.Tells [] [] [] [] :=
  ⟨fun _ member => (nomatch member), fun _ => trivial, rfl, rfl, rfl, rfl⟩

theorem BlockFacts.Tells.delegation (tells : facts.Tells seen claimed punished writes) {d : Delegation}
    (states : facts.States (.saveDelegation d))
    (due : .calculate .totalStake (facts.calculation d.validatorId) ∈ writes) :
    facts.Tells (d :: seen) claimed punished (.saveDelegation d :: writes) where
  states := List.forall_mem_cons.2 ⟨states, tells.states⟩
  followed own := ⟨fun _ owed => List.mem_singleton.1 owed ▸ due, tells.followed own⟩
  events := tells.events
  delegations := congrArg (d :: ·) tells.delegations
  claims := tells.claims
  punishments := tells.punishments

theorem BlockFacts.Tells.validator (tells : facts.Tells seen claimed punished writes) {v : Validator}
    (states : facts.States (.saveValidator v)) (due : .updateCounts v.id ∈ writes) :
    facts.Tells seen claimed punished (.saveValidator v :: writes) where
  states := List.forall_mem_cons.2 ⟨states, tells.states⟩
  followed own := ⟨fun _ owed => List.mem_singleton.1 owed ▸ due, tells.followed own⟩
  events := tells.events
  delegations := tells.delegations
  claims := tells.claims
  punishments := tells.punishments

theorem BlockFacts.Tells.nodes (tells : facts.Tells seen claimed punished writes) {nodes : List Node}
    (states : facts.States (.saveNodes nodes))
    (due : facts.ListsOwn → ∀ n ∈ nodes,
      .calculate .activeNodes (facts.calculation n.validatorId) ∈ writes ∧
        .calculate .linkedNodes (facts.calculation n.validatorId) ∈ writes) :
    facts.Tells seen claimed punished (.saveNodes nodes :: writes) where
  states := List.forall_mem_cons.2 ⟨states, tells.states⟩
  followed := by
    refine fun own => ⟨fun request owed => ?_, tells.followed own⟩
    obtain ⟨n, among, owed⟩ := List.mem_flatMap.1 owed
    obtain ⟨active, linked⟩ := due own n among
    simp only [List.mem_cons, List.not_mem_nil, or_false] at owed
    rcases owed with rfl | rfl
    · exact active
    · exact linked
  events := tells.events
  delegations := tells.delegations
  claims := tells.claims
  punishments := tells.punishments

theorem BlockFacts.Tells.quiet (tells : facts.Tells seen claimed punished writes) {r : StoreRequest}
    (quiet : facts.Quiet r) : facts.Tells seen claimed punished (r :: writes) := by
  have nothing : facts.dues r = [] ∧ r.contractEvent? = none ∧ r.delegation? = none ∧
      r.claim? = none ∧ r.systemEvent?.filter (·.punishes) = none := by
    cases quiet with
    | systemEvent e unpunished => simp [BlockFacts.dues, StoreRequest.contractEvent?,
        StoreRequest.delegation?, StoreRequest.claim?, StoreRequest.systemEvent?, Option.filter, unpunished]
    | _ => exact ⟨rfl, rfl, rfl, rfl, rfl⟩
  have states : facts.States r := by
    cases quiet with
    | counts id => exact .figures (.counts id)
    | calculate figure id => exact .figures (.calculate figure id)
    | account a => exact .account a
    | systemEvent e _ amounts change => exact .systemEvent e fun _ => ⟨amounts, change⟩
  obtain ⟨dues, event, delegation, claim, punishment⟩ := nothing
  constructor
  · exact List.forall_mem_cons.2 ⟨states, tells.states⟩
  · refine fun own => ⟨fun due owed => ?_, tells.followed own⟩
    rw [dues] at owed
    cases owed
  · rw [List.filterMap_cons, event, tells.events]
  · rw [List.filterMap_cons, delegation, tells.delegations]
  · rw [List.filterMap_cons, claim, tells.claims]
  · rw [List.filterMap_cons, ← tells.punishments]
    cases told : r.systemEvent? with
    | none => rfl
    | some e =>
      rw [told, Option.filter_eq_none_iff] at punishment
      exact List.filter_cons_of_neg (punishment e rfl)

theorem BlockFacts.Tells.quiets (tells : facts.Tells seen claimed punished writes)
    {requests : List StoreRequest} (quiet : ∀ r ∈ requests, facts.Quiet r) :
    facts.Tells seen claimed punished (requests ++ writes) := by
  induction requests with
  | nil => exact tells
  | cons r rest ih =>
    obtain ⟨first, others⟩ := List.forall_mem_cons.1 quiet
    exact (ih others).quiet first

theorem BlockFacts.tells_of_quiet (quiet : ∀ r ∈ writes, facts.Quiet r) :
    facts.Tells [] [] [] writes := by
  have all := facts.tells_nil.quiets quiet
  rwa [List.append_nil] at all

end Telling

section Reporting

/-- A job that writes what is so at a block about one log of it: in all tables that recall what was before
the block it has the same result and makes the same writes. -/
structure Reports (chain : ChainAnswers) (facts : BlockFacts) (job : Job ContractEvent)
    (e : ContractEvent) (seen : Option Delegation) (punished : Option SystemEvent)
    (outcome : ContractEvent) (writes : List StoreRequest) : Prop where
  does : ∀ t, facts.Recalls t → Does chain job t outcome writes
  place : (outcome.txHash, outcome.logIndex) = (e.txHash, e.logIndex)
  tells : ∃ claimed : Option RewardClaim, (∀ c ∈ claimed, c.logIndex = e.logIndex) ∧
    facts.Tells seen.toList claimed.toList punished.toList writes

variable {chain : ChainAnswers} {context : Context} {role : ContractName → Binding} {height : Nat}
  {t₀ : Tables} {log : DecodedLog} {e : ContractEvent}

theorem Reports.of_nothing {facts : BlockFacts} {job : Job ContractEvent}
    (does : ∀ t, Does chain job t e []) : Reports chain facts job e none none e [] :=
  ⟨fun t _ => does t, rfl, none, fun _ wrong => (nomatch wrong), BlockFacts.tells_nil⟩

def DelegationEvent.seen? (chain : ChainAnswers) (c : ViewContract) (log : DecodedLog)
    (e : ContractEvent) : Option Delegation :=
  match DelegationEvent.read? log with
  | .ok (some parsed) => (told? chain (c.delegation parsed.delegationId e.height)).map fun d =>
    { d with txHash := e.txHash }
  | _ => none

def PunisherEvent.told? (log : DecodedLog) (e : ContractEvent) : Option SystemEvent :=
  match PunisherEvent.read? log with
  | .ok (some parsed) => some (parsed.systemEvent e)
  | _ => none

section Delegations

theorem delegation_systemEvents {facts : BlockFacts} {parsed : DelegationEvent} {d : Delegation}
    (known : (facts.delegation? parsed.delegationId).map (·.unstamped) = some d.unstamped) :
    ∀ r ∈ (parsed.systemEvents d e).map .saveSystemEvent, facts.Quiet r := by
  obtain ⟨told, tells, same⟩ := Option.map_eq_some_iff.1 known
  have amount : told.amount = d.amount := by
    change told.unstamped.amount = d.unstamped.amount
    rw [same]
  rw [DelegationEvent.systemEvents, List.map_map]
  intro r member
  obtain ⟨⟨kind, before, after⟩, meant, rfl⟩ := List.mem_map.1 member
  have amounts : facts.amounts? kind parsed.delegationId = some (before, after) ∧
      kind ≠ .slashed ∧ kind ≠ .forgiven := by
    obtain meant | meant := List.mem_append.1 meant
    · cases change : parsed.change <;> simp_all [BlockFacts.amounts?]
    · split at meant
      · simp_all [BlockFacts.amounts?]
      · cases meant
  refine .systemEvent _ ?_ amounts.1 rfl
  exact Bool.or_eq_false_iff.2 ⟨beq_false_of_ne amounts.2.1, beq_false_of_ne amounts.2.2⟩

theorem delegation_quiet {facts : BlockFacts} {parsed : DelegationEvent} {d : Delegation} (count : Word)
    (known : (facts.delegation? parsed.delegationId).map (·.unstamped) = some d.unstamped) :
    ∀ r ∈ (if count ≠ 0 then [.saveAccount ⟨d.holder, .delegator⟩] else []) ++
      .calculate .totalStake (facts.calculation d.validatorId) ::
        (parsed.systemEvents d e).map .saveSystemEvent, facts.Quiet r := by
  intro r member
  obtain lifted | member := List.mem_append.1 member
  · split at lifted
    · rw [List.mem_singleton.1 lifted]
      exact .account _
    · cases lifted
  · obtain rfl | event := List.mem_cons.1 member
    · exact .calculate ..
    · exact delegation_systemEvents known r event

/-- Of the older snapshots of a delegation only the first matters. -/
theorem DelegationEvent.outcome_head (parsed : DelegationEvent) (d : Delegation)
    (older : List Delegation) : parsed.outcome d e older = parsed.outcome d e older.head?.toList := by
  cases older <;> rfl

theorem delegation_reports
    (at_ : e.height = height) (date : e.time = (factsAt chain context role height t₀).time) :
    let c : ViewContract := ⟨context, role .delegationController⟩
    Never chain (handleDelegation c log e) ∨ ∃ outcome writes,
      Reports chain (factsAt chain context role height t₀) (handleDelegation c log e) e
        (DelegationEvent.seen? chain c log e) none outcome writes := by
  intro c
  set facts := factsAt chain context role height t₀ with defined
  obtain never | ⟨nothing, does⟩ | ⟨parsed, read, d, count, known, told, -, same, does⟩ :=
    handleDelegation_cases chain c log e
  · exact .inl never
  · refine .inr ⟨e, [], ?_⟩
    rw [DelegationEvent.seen?, nothing]
    exact .of_nothing does
  obtain ⟨mine, place⟩ := (c.delegation_consults e.height _).told told
  have fact : facts.delegation? parsed.delegationId = some read := by
    rw [← told, at_]
    rfl
  have seen : DelegationEvent.seen? chain c log e = some d := by
    rw [DelegationEvent.seen?, known, same]
    dsimp only
    rw [told, Option.map_some]
  have due : e.calculation d.validatorId = facts.calculation d.validatorId := by
    rw [ContractEvent.calculation, at_, date]
    rfl
  have held : (facts.delegation? parsed.delegationId).map (·.unstamped) = some d.unstamped := by
    rw [fact, same]
    rfl
  have states : facts.States (.saveDelegation d) := by
    refine .delegation d ?_ ?_
    · rw [same]
      exact place.trans at_
    · have id : d.id = parsed.delegationId := by
        rw [same]
        exact mine
      rw [id]
      exact held
  refine .inr ⟨parsed.outcome d e (facts.olderDelegation? parsed.delegationId).toList,
    parsed.writes d count e, fun t recalls => ?_, rfl, none, fun _ wrong => (nomatch wrong), ?_⟩
  · rw [← recalls.delegations]
    have done := does t
    rw [DelegationEvent.outcome_head, at_] at done
    exact done
  · rw [seen, DelegationEvent.writes, due]
    refine (BlockFacts.tells_of_quiet (delegation_quiet count held)).delegation states ?_
    exact List.mem_append_right _ List.mem_cons_self

end Delegations

section Validators

theorem listedNodes_told {c : ViewContract} (one : c.context.registry.OneOfEach role) {id : Word}
    {nodes : List Node} (told : told? chain (c.listedNodes id height) = some nodes) :
    told? chain (ViewContract.validatorNodes ⟨c.context, role .nodes⟩ id height) = some nodes := by
  obtain ⟨t', attempt⟩ := attempt_of_told? told
  obtain ⟨sibling, s, found, attempt⟩ := completed_bind attempt
  obtain ⟨binding, s', known, found⟩ := completed_bind found
  have known : c.context.registry.find? .nodes c.binding.version = some binding := by
    unfold Registry.require at known
    cases there : c.context.registry.find? .nodes c.binding.version with
    | none =>
      rw [there] at known
      exact absurd known (never_throw _ _ _ _)
    | some b =>
      rw [there] at known
      obtain ⟨same, -⟩ := attempt_pure_iff.1 known
      exact congrArg some (Except.ok.inj same).symm
  obtain ⟨same, -⟩ := attempt_pure_iff.1 found
  obtain rfl := Except.ok.inj same
  rw [← one.find _ _ _ known]
  exact (ViewContract.validatorNodes_reads _ chain height id).told attempt

theorem changesSince_bare (older : List Validator) (v : Validator) (e : ContractEvent) :
    v.changesSince older e = v.changesSince (older.head?.map Validator.bare).toList e := by
  cases older <;> rfl

theorem quiet_changesSince {facts : BlockFacts} {v : Validator} (known : facts.validator? v.id = some v)
    (e : ContractEvent) : ∀ r ∈ (v.changesSince (facts.olderValidator? v.id).toList e).map
      .saveSystemEvent, facts.Quiet r := by
  cases older : facts.olderValidator? v.id with
  | none =>
    intro r member
    cases member
  | some previous =>
    intro r member
    obtain ⟨s, change, rfl⟩ := List.mem_map.1 member
    obtain ⟨⟨kind, before, after⟩, kept, rfl⟩ := List.mem_map.1 change
    have among := (List.mem_filter.1 kept).1
    simp only [List.mem_cons, List.not_mem_nil, or_false, Prod.mk.injEq] at among
    rcases among with ⟨rfl, rfl, rfl⟩ | ⟨rfl, rfl, rfl⟩
    · refine .systemEvent _ rfl ?_ rfl
      change (do return ((← facts.olderValidator? v.id).feeRate, (← facts.validator? v.id).feeRate)) = _
      rw [older, known]
      rfl
    · refine .systemEvent _ rfl ?_ rfl
      change (do return ((← facts.olderValidator? v.id).minimumDelegation,
        (← facts.validator? v.id).minimumDelegation)) = _
      rw [older, known]
      rfl

theorem follows_tells {facts : BlockFacts} (at_ : e.height = facts.height) (date : e.time = facts.time)
    {parsed : ValidatorEvent} {nodes : List Node} (v : Validator)
    (listed : parsed.aboutNodes → facts.listed? parsed.validatorId = some nodes ∧
      ∀ n ∈ nodes, facts.node? n.id = some { n with eventTime := e.time, height := e.height }) :
    facts.Tells [] [] [] (parsed.follows nodes v e) := by
  have due (id : Word) : e.calculation id = facts.calculation id := by
    rw [ContractEvent.calculation, at_, date]
    rfl
  have refreshed (listed : facts.listed? parsed.validatorId = some nodes ∧
      ∀ n ∈ nodes, facts.node? n.id = some { n with eventTime := e.time, height := e.height }) :
      facts.Tells [] [] [] [
        .saveNodes (nodes.map fun n => { n with eventTime := e.time, height := e.height }),
        .calculate .activeNodes (e.calculation parsed.validatorId),
        .calculate .linkedNodes (e.calculation parsed.validatorId)] := by
    rw [due]
    refine (BlockFacts.tells_of_quiet ?_).nodes (.nodes _ ?_) ?_
    · simp only [List.forall_mem_cons]
      exact ⟨.calculate .., .calculate .., fun _ member => (nomatch member)⟩
    · intro n member
      obtain ⟨n, among, rfl⟩ := List.mem_map.1 member
      exact ⟨at_, listed.2 n among⟩
    · intro own n member
      obtain ⟨n, among, rfl⟩ := List.mem_map.1 member
      change StoreRequest.calculate .activeNodes (facts.calculation n.validatorId) ∈ _ ∧
        StoreRequest.calculate .linkedNodes (facts.calculation n.validatorId) ∈ _
      rw [own _ _ listed.1 n among]
      exact ⟨List.mem_cons_self, List.mem_cons_of_mem _ List.mem_cons_self⟩
  have alone {r : StoreRequest} (quiet : facts.Quiet r) : facts.Tells [] [] [] [r] :=
    BlockFacts.tells_of_quiet fun _ member => List.mem_singleton.1 member ▸ quiet
  obtain ⟨id, change⟩ := parsed
  cases change with
  | nodeAddressAdded => exact refreshed (listed rfl)
  | nodeAddressRemoved => exact refreshed (listed rfl)
  | registered => exact alone (.account _)
  | addressChanged => exact alone (.account _)
  | enabled => exact alone (.systemEvent _ rfl rfl rfl)
  | disabled => exact alone (.systemEvent _ rfl rfl rfl)

theorem validator_reports (one : context.registry.OneOfEach role)
    (at_ : e.height = height) (date : e.time = (factsAt chain context role height t₀).time) :
    let c : ViewContract := ⟨context, role .validatorService⟩
    Never chain (handleValidator c log e) ∨ ∃ outcome writes,
      Reports chain (factsAt chain context role height t₀) (handleValidator c log e) e
        none none outcome writes := by
  intro c
  set facts := factsAt chain context role height t₀ with defined
  obtain never | ⟨-, does⟩ | ⟨parsed, nodes, v, -, told, nodesTold, does⟩ :=
    handleValidator_cases chain c log e
  · exact .inl never
  · exact .inr ⟨e, [], .of_nothing does⟩
  obtain ⟨mine, place, -⟩ := (c.validator_consults e.height _).told told
  have fact : facts.validator? v.id = some v := by
    rw [← told, at_, mine]
    rfl
  have nodeFacts : parsed.aboutNodes → facts.listed? parsed.validatorId = some nodes ∧
      ∀ n ∈ nodes, facts.node? n.id = some { n with eventTime := e.time, height := e.height } := by
    intro about
    rw [at_] at nodesTold
    have told := listedNodes_told one (nodesTold about)
    refine ⟨told, fun n among => ?_⟩
    obtain ⟨place, alone⟩ := ViewContract.validatorNodes_told told n among
    have alone : told? chain (ViewContract.node ⟨context, role .nodes⟩ n.id height) = some n := alone
    have fact : facts.node? n.id = (told? chain (ViewContract.node ⟨context, role .nodes⟩ n.id height)).map
        fun n => { n with eventTime := facts.time } := rfl
    rw [fact, alone, Option.map_some, date, at_, ← place]
  have changes := quiet_changesSince fact e
  refine .inr ⟨e.bind .validator [parsed.validatorId] [],
    parsed.writes nodes v e (facts.olderValidator? v.id).toList, fun t recalls => ?_, rfl, none,
    fun _ wrong => (nomatch wrong), ?_⟩
  · have older : v.changesSince (t.olderValidators parsed.validatorId e.height) e =
        v.changesSince (facts.olderValidator? v.id).toList e := by
      rw [changesSince_bare, at_, ← recalls.validators, mine]
      rfl
    have writes : parsed.writes nodes v e (t.olderValidators parsed.validatorId e.height) =
        parsed.writes nodes v e (facts.olderValidator? v.id).toList := by
      rw [ValidatorEvent.writes, older, ValidatorEvent.writes]
    rw [← writes]
    exact does t
  · have rest := ((follows_tells at_ date v nodeFacts).quiets changes).quiet (.counts parsed.validatorId)
    refine rest.validator (.figures (.validator v ?_ fact)) ?_
    · rw [place, at_]
      rfl
    · rw [mine]
      exact List.mem_cons_self

end Validators

section Others

theorem node_reports (at_ : e.height = height)
    (date : e.time = (factsAt chain context role height t₀).time) :
    let c : ViewContract := ⟨context, role .nodes⟩
    Never chain (handleNode c log e) ∨ ∃ outcome writes,
      Reports chain (factsAt chain context role height t₀) (handleNode c log e) e none none
        outcome writes := by
  intro c
  set facts := factsAt chain context role height t₀ with defined
  obtain never | ⟨-, does⟩ | ⟨parsed, n, -, told, does⟩ := handleNode_cases chain log e c
  · exact .inl never
  · exact .inr ⟨e, [], .of_nothing does⟩
  obtain ⟨mine, place⟩ := (c.node_consults e.height _).told told
  have due (id : Word) : e.calculation id = facts.calculation id := by
    rw [ContractEvent.calculation, at_, date]
    rfl
  have fact : facts.node? n.id = some { n with eventTime := e.time } := by
    have node : facts.node? n.id = (told? chain (c.node n.id height)).map
      fun n => { n with eventTime := facts.time } := rfl
    have told : told? chain (c.node n.id height) = some n := by rw [mine, ← at_, told]
    rw [node, told, Option.map_some, date]
  refine .inr ⟨_, _, fun t _ => does t, rfl, none, fun _ wrong => (nomatch wrong), ?_⟩
  rw [NodeEvent.writes, due]
  refine (BlockFacts.tells_of_quiet ?_).nodes (.nodes _ ?_) ?_
  · simp only [List.forall_mem_cons]
    exact ⟨.calculate .., .calculate .., fun _ member => (nomatch member)⟩
  · intro row member
    rw [List.mem_singleton.1 member]
    exact ⟨place.trans at_, fact⟩
  · intro _ row member
    rw [List.mem_singleton.1 member]
    exact ⟨List.mem_cons_self, List.mem_cons_of_mem _ List.mem_cons_self⟩

theorem distributor_reports {facts : BlockFacts} (at_ : e.height = facts.height) :
    Never chain (handleDistributor log e) ∨ ∃ outcome writes,
      Reports chain facts (handleDistributor log e) e none none outcome writes := by
  obtain never | ⟨-, does⟩ | ⟨parsed, -, does⟩ := handleDistributor_cases chain log e
  · exact .inl never
  · exact .inr ⟨e, [], .of_nothing does⟩
  cases parsed with
  | ofValidator validatorId =>
    exact .inr ⟨_, _, fun t _ => does t, rfl, none, fun _ wrong => (nomatch wrong), BlockFacts.tells_nil⟩
  | withdrawBounty holder validatorId destination amount =>
    set claim : RewardClaim := ⟨holder, e.height, e.logIndex, e.time, amount⟩ with defined
    have tells : facts.Tells [] [claim] [] [.recordRewardClaim claim] := by
      refine ⟨fun r member => ?_, fun _ => ⟨fun _ owed => (nomatch owed), trivial⟩, rfl, rfl, rfl, rfl⟩
      rw [List.mem_singleton.1 member]
      exact .claim claim at_
    refine .inr ⟨_, _, fun t _ => does t, rfl, some claim, fun c found => ?_, tells⟩
    cases found
    rfl

theorem punisher_reports (chain : ChainAnswers) (facts : BlockFacts) (log : DecodedLog)
    (e : ContractEvent) : Never chain (handlePunisher log e) ∨ ∃ outcome writes,
      Reports chain facts (handlePunisher log e) e none (PunisherEvent.told? log e) outcome writes := by
  obtain never | ⟨nothing, does⟩ | ⟨parsed, known, does⟩ := handlePunisher_cases chain log e
  · exact .inl never
  · refine .inr ⟨e, [], ?_⟩
    rw [PunisherEvent.told?, nothing]
    exact .of_nothing does
  have punishes : (parsed.systemEvent e).punishes = true := by cases parsed <;> rfl
  have place : ((parsed.outcome e).txHash, (parsed.outcome e).logIndex) = (e.txHash, e.logIndex) := by
    cases parsed <;> rfl
  refine .inr ⟨_, _, fun t _ => does t, place, none, fun _ wrong => (nomatch wrong), ?_⟩
  rw [PunisherEvent.told?, known]
  refine ⟨fun r member => ?_, fun _ => ⟨fun _ owed => (nomatch owed), trivial⟩, rfl, rfl, rfl, ?_⟩
  · rw [List.mem_singleton.1 member]
    refine .systemEvent _ fun unpunished => ?_
    rw [punishes] at unpunished
    cases unpunished
  · exact List.filter_cons_of_pos punishes

theorem token_reports (chain : ChainAnswers) (facts : BlockFacts) (log : DecodedLog)
    (e : ContractEvent) : Never chain (handleToken log e) ∨ ∃ outcome writes,
      Reports chain facts (handleToken log e) e none none outcome writes := by
  obtain never | ⟨-, does⟩ | ⟨parsed, -, does⟩ := handleToken_cases chain log e
  · exact .inl never
  · exact .inr ⟨e, [], .of_nothing does⟩
  refine .inr ⟨_, _, fun t _ => does t, rfl, none, fun _ wrong => (nomatch wrong),
    BlockFacts.tells_of_quiet fun r member => ?_⟩
  obtain ⟨a, -, rfl⟩ := List.mem_map.1 member
  exact .account a

end Others

/-- Whatever the family, the handling of an event reports what is so at the block, if it can be completed
at all. -/
theorem handleEvent_reports (one : context.registry.OneOfEach role) {binding : Binding}
    (known : binding = role binding.name) (log : DecodedLog) (e : ContractEvent)
    (at_ : e.height = height) (date : e.time = (factsAt chain context role height t₀).time) :
    Never chain (handleEvent context binding log e) ∨ ∃ outcome writes,
      Reports chain (factsAt chain context role height t₀) (handleEvent context binding log e) e
        (if binding.name = .delegationController then DelegationEvent.seen? chain ⟨context, binding⟩ log e
          else none)
        (if binding.name = .punisher then PunisherEvent.told? log e else none) outcome writes := by
  have nothing (chain : ChainAnswers) (facts : BlockFacts) : Never chain (pure e) ∨ ∃ outcome writes,
      Reports chain facts (pure e) e none none outcome writes :=
    .inr ⟨e, [], .of_nothing fun t => does_pure t e⟩
  unfold handleEvent
  cases name : binding.name
  all_goals
    rw [name] at known
    subst known
    simp only [reduceCtorEq, if_true, if_false]
  case validatorService => exact validator_reports one at_ date
  case nodes => exact node_reports at_ date
  case delegationController => exact delegation_reports at_ date
  case punisher => exact punisher_reports ..
  case token => exact token_reports ..
  case distributor => exact distributor_reports at_
  all_goals exact nothing ..

end Reporting

section Settling

/-- A log with its contract, its values and its event before it is handled. -/
def decoded? (chain : ChainAnswers) (context : Context) (log : RawLog) :
    Option (Binding × DecodedLog × ContractEvent) := do
  let binding ← context.registry.atAddress? log.address
  let header ← (chain (.header log.height)).toOption
  let decoded ← (DecodedLog.ofLog context.registry log).toOption
  return (binding, decoded, .ofLog binding header log decoded)

/-- The delegation that a log makes known, as the chain has it at the log's block. -/
def seen? (chain : ChainAnswers) (context : Context) (log : RawLog) : Option Delegation := do
  let (binding, decoded, e) ← decoded? chain context log
  if binding.name = .delegationController then
    DelegationEvent.seen? chain ⟨context, binding⟩ decoded e
  else none

def punishment? (chain : ChainAnswers) (context : Context) (log : RawLog) : Option SystemEvent := do
  let (binding, decoded, e) ← decoded? chain context log
  if binding.name = .punisher then PunisherEvent.told? decoded e else none

/-- Requests that the handling of a log comes to, from all tables that recall what was before its block. -/
structure Settles (chain : ChainAnswers) (context : Context) (facts : BlockFacts) (log : RawLog)
    (requests : List StoreRequest) : Prop where
  completes : ∀ t, facts.Recalls t → ∃ e after,
    ProcessAttempt chain context log .empty t (.ok e) after (t.performAll requests)
  only : ∀ t, facts.Recalls t → ∀ cache after e t', cache.Faithful chain log.height →
    ProcessAttempt chain context log cache t (.ok e) after t' → t' = t.performAll requests
  states : ∀ r ∈ requests, facts.States r
  followed : facts.ListsOwn → facts.Followed requests
  event : ∃ e, requests.filterMap (·.contractEvent?) = [e] ∧
    (e.txHash, e.logIndex) = (log.txHash, log.logIndex)
  claims : ∃ claimed : Option RewardClaim, requests.filterMap (·.claim?) = claimed.toList ∧
    ∀ c ∈ claimed, c.logIndex = log.logIndex
  delegations : requests.filterMap (·.delegation?) = (seen? chain context log).toList
  punishments : (requests.filterMap (·.systemEvent?)).filter (·.punishes) =
    (punishment? chain context log).toList

variable {chain : ChainAnswers} {context : Context} {role : ContractName → Binding} {height : Nat}
  {t t' s : Tables} {logs logs' : List RawLog}

theorem recordLog_of_decoded {binding : Binding} {header : BlockHeader} {log : RawLog}
    {decoded : DecodedLog} (decoding : DecodedLog.ofLog context.registry log = .ok decoded)
    {outcome : ContractEvent} {writes : List StoreRequest}
    (does : Does chain (handleEvent context binding decoded (.ofLog binding header log decoded)) t
      outcome writes) :
    Does chain (recordLog context binding header log) t outcome
      (writes ++ [.saveContractEvent outcome]) := by
  have handled : Does chain (handleLog context binding header log) t outcome writes := by
    unfold handleLog
    rw [decoding]
    exact (does_pure t decoded).bind does
  refine handled.bind ((does_store _ (.saveContractEvent outcome)).bind ?_)
  exact does_pure ..

theorem settles_of_completed (one : context.registry.OneOfEach role) {log : RawLog}
    (at_ : log.height = height) {cache after : HeaderCache} {e : ContractEvent}
    (faithful : cache.Faithful chain log.height)
    (completed : ProcessAttempt chain context log cache t (.ok e) after t') (t₀ : Tables) :
    ∃ requests, Settles chain context (factsAt chain context role height t₀) log requests := by
  obtain ⟨stop, wrong, -⟩ | ⟨binding, header, found, dated, attempt⟩ :=
    attempt_of_process faithful completed
  · cases wrong
  obtain ⟨_, handling, -⟩ := recordLog_completed attempt
  unfold handleLog at handling
  cases decoding : DecodedLog.ofLog context.registry log with
  | error failure =>
    rw [decoding] at handling
    exact absurd handling (never_throw _ |>.bind _ _ _)
  | ok decoded =>
    rw [decoding] at handling
    obtain ⟨_, _, done, handling⟩ := completed_bind handling
    obtain ⟨same, rfl⟩ := attempt_pure_iff.1 done
    cases same
    have date : header.time = (factsAt chain context role height t₀).time := by
      rw [at_] at dated
      simp only [factsAt, dated]
    have known := one.atAddress _ _ found
    obtain never | ⟨outcome, writes, reports⟩ := handleEvent_reports one known decoded
      (.ofLog binding header log decoded) at_ date
    · exact absurd handling (never _ _ _)
    obtain ⟨claimed, place, tells⟩ := reports.tells
    have does (t : Tables) (recalls : (factsAt chain context role height t₀).Recalls t) :
        Does chain (recordLog context binding header log) t outcome
          (writes ++ [.saveContractEvent outcome]) :=
      recordLog_of_decoded decoding (reports.does _ recalls)
    have decoded_eq : decoded? chain context log =
        some (binding, decoded, .ofLog binding header log decoded) := by
      simp only [decoded?, found, dated, decoding]
      rfl
    refine ⟨writes ++ [.saveContractEvent outcome], fun t recalls => ?_, ?_, ?_, ?_, ?_, ?_, ?_, ?_⟩
    · have empty := HeaderCache.faithful_empty chain log.height
      exact ⟨outcome, process_of_attempt empty found dated (does t recalls).attempt⟩
    · intro t recalls cache after e t' faithful attempt
      obtain ⟨stop, wrong, -⟩ | ⟨binding', header', found', dated', attempt⟩ :=
        attempt_of_process faithful attempt
      · cases wrong
      cases found.symm.trans found'
      cases dated.symm.trans dated'
      exact ((does t recalls).unique attempt).2
    · refine List.forall_mem_append.2 ⟨tells.states, fun r member => ?_⟩
      rw [List.mem_singleton.1 member]
      exact .figures (.event outcome)
    · exact fun own => (tells.followed own).append ⟨fun _ owed => (nomatch owed), trivial⟩
    · refine ⟨outcome, ?_, reports.place⟩
      rw [List.filterMap_append, tells.events]
      rfl
    · refine ⟨claimed, ?_, place⟩
      rw [List.filterMap_append, tells.claims]
      exact List.append_nil _
    · rw [List.filterMap_append, tells.delegations, seen?, decoded_eq]
      exact List.append_nil _
    · rw [List.filterMap_append, List.filter_append, tells.punishments, punishment?, decoded_eq]
      exact List.append_nil _

theorem Handled.settled (one : context.registry.OneOfEach role)
    (at_ : ∀ log ∈ logs, log.height = height) (handled : Handled chain context logs t s) (t₀ : Tables) :
    ∃ requests : RawLog → List StoreRequest, ∀ log ∈ logs,
      Settles chain context (factsAt chain context role height t₀) log (requests log) := by
  have each : ∀ log ∈ logs, ∃ requests,
      Settles chain context (factsAt chain context role height t₀) log requests := by
    induction handled with
    | nil =>
      intro log member
      cases member
    | cons faithful attempt _ ih =>
      obtain ⟨first, others⟩ := List.forall_mem_cons.1 at_
      refine List.forall_mem_cons.2 ⟨?_, ih others⟩
      exact settles_of_completed one first faithful attempt t₀
  have some_ (log : RawLog) : ∃ requests, log ∈ logs →
      Settles chain context (factsAt chain context role height t₀) log requests := by
    by_cases member : log ∈ logs
    · obtain ⟨requests, settles⟩ := each log member
      exact ⟨requests, fun _ => settles⟩
    · exact ⟨[], fun wrong => absurd wrong member⟩
  choose requests settles using some_
  exact ⟨requests, settles⟩

theorem handled_iff {facts : BlockFacts} {requests : RawLog → List StoreRequest}
    (settles : ∀ log ∈ logs, Settles chain context facts log (requests log)) (recalls : facts.Recalls t) :
    Handled chain context logs t s ↔ s = t.performAll (logs.flatMap requests) := by
  induction logs generalizing t with
  | nil =>
    constructor
    · rintro ⟨⟩
      rfl
    · rintro rfl
      exact .nil _
  | cons log rest ih =>
    obtain ⟨first, others⟩ := List.forall_mem_cons.1 settles
    have next := recalls.performAll first.states
    rw [List.flatMap_cons, performAll_append, ← ih others next]
    constructor
    · rintro ⟨⟩
      next faithful attempt rest =>
        rwa [first.only t recalls _ _ _ _ faithful attempt] at rest
    · intro handled
      obtain ⟨e, after, attempt⟩ := first.completes t recalls
      exact .cons (HeaderCache.faithful_empty chain log.height) attempt handled

theorem states_of_settles {facts : BlockFacts} {requests : RawLog → List StoreRequest}
    (settles : ∀ log ∈ logs, Settles chain context facts log (requests log)) :
    ∀ r ∈ logs.flatMap requests, facts.States r := by
  intro r among
  obtain ⟨log, member, made⟩ := List.mem_flatMap.1 among
  exact (settles log member).states r made

theorem Settles.claim {facts : BlockFacts} {log : RawLog} {requests : List StoreRequest}
    (settles : Settles chain context facts log requests) {r r' : StoreRequest} (made : r ∈ requests)
    (made' : r' ∈ requests) {c c' : RewardClaim} (claim : r.claim? = some c)
    (claim' : r'.claim? = some c') : c.logIndex = log.logIndex ∧ c' = c := by
  obtain ⟨claimed, all, index⟩ := settles.claims
  have one {r : StoreRequest} {c : RewardClaim} (made : r ∈ requests) (claim : r.claim? = some c) :
      claimed = some c := by
    refine Option.mem_toList.1 ?_
    rw [← all]
    exact List.mem_filterMap.2 ⟨r, made, claim⟩
  have found := one made claim
  exact ⟨index c found, Option.some.inj ((one made' claim').symm.trans found)⟩

theorem Settles.stored {facts : BlockFacts} {log : RawLog} {requests : List StoreRequest}
    (settles : Settles chain context facts log requests) {r r' : StoreRequest} (made : r ∈ requests)
    (made' : r' ∈ requests) {e e' : ContractEvent} (event : r.contractEvent? = some e)
    (event' : r'.contractEvent? = some e') : e.logIndex = log.logIndex ∧ e' = e := by
  obtain ⟨stored, all, place⟩ := settles.event
  have one {r : StoreRequest} {e : ContractEvent} (made : r ∈ requests)
      (event : r.contractEvent? = some e) : e = stored := by
    rw [← List.mem_singleton, ← all]
    exact List.mem_filterMap.2 ⟨r, made, event⟩
  have found := one made event
  exact ⟨found ▸ congrArg Prod.snd place, (one made' event').trans found.symm⟩

/-- Logs of one block, handled without error in some order, can be so in every other order, and the stores
that they leave agree: in the delegations but for the transactions that they were seen in, in nodes,
accounts, payments and figures, in the events but for their numbers, and in the latest snapshots of
validators with their counters. -/
theorem handled_perm_agrees (one : context.registry.OneOfEach role)
    (at_ : ∀ log ∈ logs, log.height = height) (distinct : (logs.map RawLog.logIndex).Nodup)
    (own : (factsAt chain context role height t).ListsOwn)
    (fits : (factsAt chain context role height t).Fits t) (handled : Handled chain context logs t s)
    (order : logs.Perm logs') :
    (∃ s', Handled chain context logs' t s') ∧ ∀ s', Handled chain context logs' t s' → s.Agrees s' := by
  obtain ⟨requests, settles⟩ := handled.settled one at_ t
  have settles' : ∀ log ∈ logs', Settles chain context (factsAt chain context role height t) log
      (requests log) := fun log member => settles log (order.mem_iff.2 member)
  have recalls := recalls_factsAt chain context role height t
  have same {log log' : RawLog} (member : log ∈ logs) (member' : log' ∈ logs)
      (index : log.logIndex = log'.logIndex) : log = log' :=
    List.inj_on_of_nodup_map distinct member member' index
  have agrees : (t.performAll (logs.flatMap requests)).Agrees
      (t.performAll (logs'.flatMap requests)) := by
    refine performAll_agrees fits (states_of_settles settles) (order.flatMap_right requests)
      ?_ ?_ ?_ ?_
    · exact .flatMap fun log member => (settles log member).followed own
    · exact .flatMap fun log member => (settles' log member).followed own
    · intro r among r' among' c c' claim claim' key
      obtain ⟨log, member, made⟩ := List.mem_flatMap.1 among
      obtain ⟨log', member', made'⟩ := List.mem_flatMap.1 among'
      have index := ((settles log member).claim made made claim claim).1
      have index' := ((settles log' member').claim made' made' claim' claim').1
      have place : c.logIndex = c'.logIndex := congrArg (·.2.2) key
      obtain rfl := same member member' (by rw [← index, place, index'])
      exact ((settles log member).claim made' made claim' claim).2
    · intro r among r' among' e e' event event' key
      obtain ⟨log, member, made⟩ := List.mem_flatMap.1 among
      obtain ⟨log', member', made'⟩ := List.mem_flatMap.1 among'
      have index := ((settles log member).stored made made event event).1
      have index' := ((settles log' member').stored made' made' event' event').1
      have place : e.logIndex = e'.logIndex := congrArg Prod.snd key
      obtain rfl := same member member' (by rw [← index, place, index'])
      rw [((settles log member).stored made' made event' event).2]
  rw [handled_iff settles recalls] at handled
  rw [handled]
  constructor
  · exact ⟨_, (handled_iff settles' recalls).2 rfl⟩
  · intro s' handled'
    rw [(handled_iff settles' recalls).1 handled']
    exact agrees

def pairRole : ContractName → Binding
  | .validatorService => validatorBinding
  | _ => delegationBinding

theorem oneOfEach_pair : pairContext.registry.OneOfEach pairRole := by
  constructor
  · intro address binding found
    change ((Table.empty.insert .zero delegationBinding).insert (.ofWord 1) validatorBinding).find?
      address = some binding at found
    rw [Table.find?_insert, Table.find?_insert] at found
    split at found
    · cases found
      rfl
    · split at found
      · cases found
        rfl
      · cases found
  · intro name version binding found
    cases found

set_option maxRecDepth 100000 in
theorem told?_pairChain (id : Word) (height : Nat) :
    told? pairChain (ViewContract.delegation ⟨pairContext, delegationBinding⟩ id height) =
      some ⟨id, .ofWord 4, 1, 100, 0, .ofSeconds 0, 0, 0, "", .delegated, height, .zero⟩ := by
  cases height <;> rfl

set_option maxRecDepth 100000 in
theorem told?_pairChain_nodes (id : Word) :
    told? pairChain (ViewContract.validatorNodes ⟨pairContext, delegationBinding⟩ id 20) = none :=
  rfl

/-- A validator that registers and a delegation to it, in both orders. An older snapshot of the delegation
is there already. -/
theorem handled_perm_agrees_registered :
    let known : Delegation :=
      ⟨1, .ofWord 4, 1, 50, 0, .ofSeconds 0, 0, 0, "", .proposed, 10, .zero⟩
    let t := Tables.empty.saveDelegation known
    let logs := [registeredLog 1 20, proposedLog 1 20]
    let s := afterLogs pairChain pairContext logs t
    let s' := afterLogs pairChain pairContext logs.reverse t
    Handled pairChain pairContext logs t s ∧ Handled pairChain pairContext logs.reverse t s' ∧
      s.Agrees s' ∧ (s.latest? 1).map (·.2.staked) = some 100 := by
  intro known t logs s s'
  have handled : Handled pairChain pairContext logs t s := handled_afterLogs (by decide +kernel)
  have handled' : Handled pairChain pairContext logs.reverse t s' :=
    handled_afterLogs (by decide +kernel)
  have own : (factsAt pairChain pairContext pairRole 20 t).ListsOwn := by
    intro id nodes told
    have none := told?_pairChain_nodes id
    cases none.symm.trans told
  have fits : (factsAt pairChain pairContext pairRole 20 t).Fits t := by
    constructor
    · exact placed_performAll [.saveDelegation known]
    · intro id height d told found tells
      change ((∅ : Table (Word × Nat) Delegation).insert (1, 10) known).find? (id, height) = some d at found
      simp only [factsAt, pairRole, told?_pairChain] at tells
      rw [Table.find?_insert] at found
      split at found
      · cases found
        cases tells
        rfl
      · cases found
    · intro id height n told found
      cases found
  have agrees := (handled_perm_agrees oneOfEach_pair (by decide) (by decide) own fits handled
    logs.reverse_perm.symm).2 s' handled'
  exact ⟨handled, handled', agrees, by decide +kernel⟩

end Settling

end StakeIndex
