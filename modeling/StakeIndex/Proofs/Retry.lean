import StakeIndex.Proofs.Process
import StakeIndex.Proofs.Repeat

/-!
Handling a log again. An attempt that is cut has made the first of the writes of a completed one, what the
handling asks of the store is not touched by its writes, and the writes can be made again from the start.
-/
namespace StakeIndex

open Job Tables

/-- A job whose result and writes are functions of the tables that its own writes and the event stored
after them leave as they are, and whose writes can be made again wherever they were cut. -/
structure Repeatable (chain : ChainAnswers) (job : Job ContractEvent)
    (outcome : Tables → ContractEvent) (writes : Tables → List StoreRequest) : Prop where
  does : ∀ t, Does chain job t (outcome t) (writes t)
  cut : ∀ t k, outcome (t.performAll ((writes t).take k)) = outcome t ∧
    writes (t.performAll ((writes t).take k)) = writes t
  stored : ∀ t e, outcome (t.perform (.saveContractEvent e)).2 = outcome t ∧
    writes (t.perform (.saveContractEvent e)).2 = writes t
  again : ∀ (t : Tables) (k : Nat) (s : Tables),
    let first := (writes t ++ [StoreRequest.saveContractEvent (outcome t)]).take k
    (s.performAll first).performAll first = s.performAll first

section Families

variable {chain : ChainAnswers} {job : Job ContractEvent} {e : ContractEvent}
  {writes : List StoreRequest}

/-- A job that writes the same in all tables. -/
theorem Repeatable.of_orderly (does : ∀ t, Does chain job t e writes) (orderly : Orderly writes)
    (handled : ∀ r ∈ writes, OfHandling r) : Repeatable chain job (fun _ => e) fun _ => writes where
  does := does
  cut _ _ := ⟨rfl, rfl⟩
  stored _ _ := ⟨rfl, rfl⟩
  again _ k s := ((orderly.with_event handled e).take k).again s

theorem Repeatable.of_nothing (does : ∀ t, Does chain job t e []) :
    Repeatable chain job (fun _ => e) fun _ => [] :=
  .of_orderly does orderly_nil fun _ member => (nomatch member)

end Families

section Delegations

variable {chain : ChainAnswers} (c : ViewContract) (log : DecodedLog) (e : ContractEvent)

theorem olderDelegations_congr {s t : Tables} {height : Nat}
    (same : s.delegations.below height = t.delegations.below height) (id : Word) :
    s.olderDelegations id height = t.olderDelegations id height := by
  change List.filter _ (s.delegations.current (some height)) =
    List.filter _ (t.delegations.current (some height))
  rw [Table.current_congr same]

theorem meaning_apart (parsed : DelegationEvent) (d : Delegation) :
    (parsed.meaning d).Pairwise fun a b => a.1 ≠ b.1 := by
  unfold DelegationEvent.meaning
  by_cases rejected : d.state = .rejected <;> cases parsed.change <;> simp [rejected]

theorem systemEvents_apart (parsed : DelegationEvent) (d : Delegation) :
    (parsed.systemEvents d e).Pairwise fun a b => subject a ≠ subject b := by
  refine List.pairwise_map.2 ((meaning_apart parsed d).imp fun apart same => apart ?_)
  exact congrArg (·.1.2) same

theorem delegationWrites_handled (parsed : DelegationEvent) (d : Delegation) (count : Word) :
    ∀ r ∈ parsed.writes d count e, OfHandling r := by
  unfold DelegationEvent.writes
  intro r member
  simp only [List.mem_cons, List.mem_append, List.mem_map] at member
  obtain rfl | member | rfl | ⟨s, -, rfl⟩ := member
  · exact .delegation d
  · split at member
    · rw [List.mem_singleton.1 member]
      exact .account _
    · cases member
  · exact .calculate ..
  · exact .systemEvent s

theorem delegationWrites_orderly (parsed : DelegationEvent) (d : Delegation) (count : Word) :
    Orderly (parsed.writes d count e) := by
  have events := orderly_systemEvents (systemEvents_apart e parsed d)
  have figures : Orderly (.calculate .totalStake (e.calculation d.validatorId) ::
      (parsed.systemEvents d e).map .saveSystemEvent) := by
    refine events.cons (steady_calculate _ _) fun later member => ?_
    obtain ⟨s, -, rfl⟩ := List.mem_map.1 member
    exact (OfHandling.calculate ..).keeps_systemEvent fun _ wrong => (nomatch wrong)
  have accounts : Orderly (if count ≠ 0 then [.saveAccount ⟨d.holder, .delegator⟩] else []) := by
    split
    · exact orderly_accounts [_]
    · exact orderly_nil
  refine (accounts.append figures fun r before later member => ?_).cons
    (steady_saveDelegation d) fun later member => ?_
  · split at before
    · rw [List.mem_singleton.1 before]
      obtain rfl | member := List.mem_cons.1 member
      · exact (OfHandling.account _).keeps_calculate fun _ _ wrong => (nomatch wrong)
      · obtain ⟨s, -, rfl⟩ := List.mem_map.1 member
        exact (OfHandling.account _).keeps_systemEvent fun _ wrong => (nomatch wrong)
    · cases before
  · obtain member | member := List.mem_append.1 member
    · split at member
      · rw [List.mem_singleton.1 member]
        exact (OfHandling.delegation d).keeps_account _
      · cases member
    · obtain rfl | member := List.mem_cons.1 member
      · exact (OfHandling.delegation d).keeps_calculate fun _ _ wrong => (nomatch wrong)
      · obtain ⟨s, -, rfl⟩ := List.mem_map.1 member
        exact (OfHandling.delegation d).keeps_systemEvent fun _ wrong => (nomatch wrong)

/-- No write about a delegation touches the delegations below its height. -/
theorem below_delegationWrites (parsed : DelegationEvent) (d : Delegation) (count : Word)
    {r : StoreRequest} (member : r ∈ parsed.writes d count e) (t : Tables) :
    (t.perform r).2.delegations.below d.height = t.delegations.below d.height := by
  unfold DelegationEvent.writes at member
  simp only [List.mem_cons, List.mem_append, List.mem_map] at member
  obtain rfl | member | rfl | ⟨s, -, rfl⟩ := member
  · exact Table.below_insert (Nat.le_refl _)
  · split at member
    · rw [List.mem_singleton.1 member]
      rfl
    · cases member
  · exact calculate_frame (·.delegations.below d.height) (fun _ _ _ => rfl) ..
  · rfl

theorem delegation_repeatable : Never chain (handleDelegation c log e) ∨
    ∃ outcome writes, Repeatable chain (handleDelegation c log e) outcome writes := by
  obtain never | ⟨-, does⟩ | ⟨parsed, read, d, count, -, told, -, rfl, does⟩ :=
    handleDelegation_cases chain c log e
  · exact .inl never
  · exact .inr ⟨_, _, .of_nothing does⟩
  obtain ⟨-, place⟩ := (c.delegation_consults e.height _).told told
  set d := { read with txHash := e.txHash } with stamped
  have handled := delegationWrites_handled e parsed d count
  refine .inr ⟨_, fun _ => parsed.writes d count e, does, fun t k => ⟨?_, rfl⟩,
    fun t event => ⟨?_, rfl⟩, fun t k s => ?_⟩
  · have below : (t.performAll ((parsed.writes d count e).take k)).delegations.below e.height =
        t.delegations.below e.height := by
      rw [← place]
      refine performAll_invariant (fun s => s.delegations.below d.height = t.delegations.below d.height)
        rfl fun r member s same => ?_
      rw [below_delegationWrites e parsed d count (List.mem_of_mem_take member), same]
    rw [olderDelegations_congr below]
  · rw [saveContractEvent_frame (·.olderDelegations parsed.delegationId e.height) fun _ _ _ => rfl]
  · exact (((delegationWrites_orderly e parsed d count).with_event handled _).take k).again s

end Delegations

section Nodes

theorem refreshed_orderly (nodes : List Node) (at_ : Calculation) :
    Orderly [.saveNodes nodes, .calculate .activeNodes at_, .calculate .linkedNodes at_] := by
  have linked : Orderly [.calculate .linkedNodes at_] :=
    orderly_nil.cons (steady_calculate _ _) fun _ member => (nomatch member)
  refine (linked.cons (steady_calculate .activeNodes at_) fun later member => ?_).cons
    (steady_saveNodes nodes) fun later member => ?_
  · rw [List.mem_singleton.1 member]
    exact keeps_calculate_calculate (by decide) at_
  · have kept (figure : ValidatorFigure) : Keeps (.calculate figure at_) (.saveNodes nodes) :=
      (OfHandling.nodes nodes).keeps_calculate fun _ _ wrong => (nomatch wrong)
    obtain rfl | member := List.mem_cons.1 member
    · exact kept _
    · rw [List.mem_singleton.1 member]
      exact kept _

theorem refreshed_handled (nodes : List Node) (at_ : Calculation) :
    ∀ r ∈ [.saveNodes nodes, .calculate .activeNodes at_, .calculate .linkedNodes at_],
      OfHandling r := by
  simp only [List.forall_mem_cons]
  exact ⟨.nodes nodes, .calculate .., .calculate .., fun _ member => (nomatch member)⟩

end Nodes

section Validators

variable (e : ContractEvent)

theorem olderValidators_congr {s t : Tables} {height : Nat}
    (same : s.validators.below height = t.validators.below height) (id : Word) :
    s.olderValidators id height = t.olderValidators id height := by
  change List.filter _ (s.validators.current (some height)) =
    List.filter _ (t.validators.current (some height))
  rw [Table.current_congr same]

/-- Changes of parameters are told by events of two kinds, one of each. -/
theorem changesSince_apart (older : List Validator) (v : Validator) :
    ((v.changesSince older e).Pairwise fun a b => subject a ≠ subject b) ∧
      ∀ s ∈ v.changesSince older e, s.kind = .feeChange ∨ s.kind = .minimumDelegationChange := by
  cases older with
  | nil => exact ⟨.nil, fun _ member => (nomatch member)⟩
  | cons previous tail =>
    constructor
    · refine List.pairwise_map.2 (.filter _ ?_)
      refine .cons (fun other member => ?_) (List.pairwise_singleton _ _)
      rw [List.mem_singleton.1 member]
      intro same
      cases congrArg (·.1.2) same
    · intro s member
      obtain ⟨change, kept, rfl⟩ := List.mem_map.1 member
      obtain rfl | kept := List.mem_cons.1 (List.mem_filter.1 kept).1
      · exact .inl rfl
      · rw [List.mem_singleton.1 kept]
        exact .inr rfl

/-- What follows refreshes nodes and figures of the validator itself, lifts an account, or tells of the
active set. -/
theorem mem_follows {parsed : ValidatorEvent} {nodes : List Node} {v : Validator} {r : StoreRequest}
    (member : r ∈ parsed.follows nodes v e) : (∃ nodes, r = .saveNodes nodes) ∨
      (∃ figure, r = .calculate figure (e.calculation parsed.validatorId)) ∨
      (∃ a, r = .saveAccount a) ∨
      ∃ s, r = .saveSystemEvent s ∧ (s.kind = .joinedActiveSet ∨ s.kind = .leftActiveSet) := by
  obtain ⟨id, change⟩ := parsed
  have refreshed (nodes : List Node) (member : r ∈ [.saveNodes nodes,
      .calculate .activeNodes (e.calculation id), .calculate .linkedNodes (e.calculation id)]) :
      (∃ nodes, r = .saveNodes nodes) ∨ ∃ figure, r = .calculate figure (e.calculation id) := by
    simp only [List.mem_cons, List.not_mem_nil, or_false] at member
    obtain rfl | rfl | rfl := member
    · exact .inl ⟨_, rfl⟩
    · exact .inr ⟨_, rfl⟩
    · exact .inr ⟨_, rfl⟩
  cases change with
  | nodeAddressAdded => exact (refreshed _ member).imp_right .inl
  | nodeAddressRemoved => exact (refreshed _ member).imp_right .inl
  | registered => exact .inr (.inr (.inl ⟨_, List.mem_singleton.1 member⟩))
  | addressChanged => exact .inr (.inr (.inl ⟨_, List.mem_singleton.1 member⟩))
  | enabled => exact .inr (.inr (.inr ⟨_, List.mem_singleton.1 member, .inl rfl⟩))
  | disabled => exact .inr (.inr (.inr ⟨_, List.mem_singleton.1 member, .inr rfl⟩))

theorem follows_orderly (parsed : ValidatorEvent) (nodes : List Node) (v : Validator) :
    Orderly (parsed.follows nodes v e) := by
  obtain ⟨id, change⟩ := parsed
  cases change with
  | nodeAddressAdded => exact refreshed_orderly ..
  | nodeAddressRemoved => exact refreshed_orderly ..
  | registered => exact orderly_accounts [_]
  | addressChanged => exact orderly_accounts [_]
  | enabled => exact orderly_systemEvents (List.pairwise_singleton _ _)
  | disabled => exact orderly_systemEvents (List.pairwise_singleton _ _)

/-- What is written after the counters of a validator. -/
def ValidatorEvent.afterCounts (parsed : ValidatorEvent) (nodes : List Node) (v : Validator)
    (e : ContractEvent) (older : List Validator) : List StoreRequest :=
  (v.changesSince older e).map .saveSystemEvent ++ parsed.follows nodes v e

theorem afterCounts_handled (parsed : ValidatorEvent) (nodes : List Node) (v : Validator)
    (older : List Validator) : ∀ r ∈ parsed.afterCounts nodes v e older, OfHandling r ∧
      ∀ figure at_, r = .calculate figure at_ → at_.validatorId = parsed.validatorId := by
  intro r member
  obtain member | member := List.mem_append.1 member
  · obtain ⟨s, -, rfl⟩ := List.mem_map.1 member
    exact ⟨.systemEvent s, fun _ _ wrong => (nomatch wrong)⟩
  · obtain ⟨nodes, rfl⟩ | ⟨f, rfl⟩ | ⟨a, rfl⟩ | ⟨s, rfl, -⟩ := mem_follows e member
    · exact ⟨.nodes nodes, fun _ _ wrong => (nomatch wrong)⟩
    · refine ⟨.calculate .., fun figure at_ same => ?_⟩
      cases same
      rfl
    · exact ⟨.account a, fun _ _ wrong => (nomatch wrong)⟩
    · exact ⟨.systemEvent s, fun _ _ wrong => (nomatch wrong)⟩

theorem afterCounts_orderly (parsed : ValidatorEvent) (nodes : List Node) (v : Validator)
    (older : List Validator) : Orderly (parsed.afterCounts nodes v e older) := by
  obtain ⟨apart, kinds⟩ := changesSince_apart e older v
  refine (orderly_systemEvents apart).append (follows_orderly e parsed nodes v) ?_
  intro r before later member
  obtain ⟨s, change, rfl⟩ := List.mem_map.1 before
  obtain ⟨nodes, rfl⟩ | ⟨f, rfl⟩ | ⟨a, rfl⟩ | ⟨told, rfl, active⟩ := mem_follows e member
  · exact keeps_systemEvent fun _ => rfl
  · exact (OfHandling.systemEvent s).keeps_calculate fun _ _ wrong => (nomatch wrong)
  · exact keeps_systemEvent fun _ => rfl
  · refine keeps_systemEvent_apart fun same => ?_
    have same : s.kind = told.kind := congrArg (·.1.2) same
    have kind := kinds s change
    rw [same] at kind
    rcases kind with kind | kind <;> rcases active with active | active <;> rw [kind] at active <;>
      cases active

/-- What is written after the counters leaves the validators below a snapshot as they are. -/
theorem below_afterCounts {parsed : ValidatorEvent} {nodes : List Node} {v : Validator}
    {older : List Validator} {r : StoreRequest} (member : r ∈ parsed.afterCounts nodes v e older)
    {height : Nat} {t : Tables} (there : HasFrom t.validators parsed.validatorId height) :
    (t.perform r).2.validators.below height = t.validators.below height ∧
      HasFrom (t.perform r).2.validators parsed.validatorId height := by
  obtain ⟨handled, mine⟩ := afterCounts_handled e parsed nodes v older r member
  cases handled with
  | calculate figure at_ =>
    rw [performed_calculate, mine figure at_ rfl]
    exact withCounter_below there ..
  | _ => exact ⟨rfl, there⟩

/-- The writes about a validator leave the validators below its height as they are. -/
theorem below_validatorWrites {parsed : ValidatorEvent} {nodes : List Node} {v : Validator}
    (mine : v.id = parsed.validatorId) (older : List Validator) (k : Nat) (t : Tables) :
    (t.performAll ((parsed.writes nodes v e older).take k)).validators.below v.height =
      t.validators.below v.height := by
  cases k with
  | zero => rfl
  | succ k =>
    have stored : (t.perform (.saveValidator v)).2.validators.below v.height =
        t.validators.below v.height := Table.below_insert (Nat.le_refl _)
    have there : HasFrom (t.perform (.saveValidator v)).2.validators parsed.validatorId v.height :=
      ⟨v.height, v, Nat.le_refl _, mine ▸ Table.find?_insert_self ..⟩
    refine (performAll_invariant (fun s => s.validators.below v.height = t.validators.below v.height ∧
      HasFrom s.validators parsed.validatorId v.height) ⟨stored, there⟩ fun r member s same => ?_).1
    obtain rfl | member := List.mem_cons.1 (List.mem_of_mem_take member)
    · rw [perform, updateCounts_eq]
      obtain ⟨below, there⟩ := counted_below same.2 (s.latestAmount parsed.validatorId)
      exact ⟨below.trans same.1, there⟩
    · obtain ⟨below, there⟩ := below_afterCounts e member same.2
      exact ⟨below.trans same.1, there⟩

theorem validator_repeatable (chain : ChainAnswers) (c : ViewContract) (log : DecodedLog)
    (e : ContractEvent) : Never chain (handleValidator c log e) ∨
      ∃ outcome writes, Repeatable chain (handleValidator c log e) outcome writes := by
  obtain never | ⟨-, does⟩ | ⟨parsed, nodes, v, -, told, -, does⟩ := handleValidator_cases chain c log e
  · exact .inl never
  · exact .inr ⟨_, _, .of_nothing does⟩
  obtain ⟨mine, place, -⟩ := (c.validator_consults e.height _).told told
  refine .inr ⟨fun _ => _, _, does, fun t k => ⟨rfl, ?_⟩, fun t event => ⟨rfl, ?_⟩, fun t k s => ?_⟩
  · rw [olderValidators_congr (place ▸ below_validatorWrites e mine _ k t)]
  · rw [saveContractEvent_frame (·.olderValidators parsed.validatorId e.height) fun _ _ _ => rfl]
  · set older := t.olderValidators parsed.validatorId e.height
    have handled := afterCounts_handled e parsed nodes v older
    have orderly := (afterCounts_orderly e parsed nodes v older).with_event
      (fun r member => (handled r member).1) (e.bind .validator [parsed.validatorId] [])
    have keeps : ∀ later ∈ parsed.afterCounts nodes v e older ++
        [.saveContractEvent (e.bind .validator [parsed.validatorId] [])], KeepsCounted later v := by
      intro later member
      obtain member | member := List.mem_append.1 member
      · obtain ⟨handled, figures⟩ := handled later member
        exact handled.keepsCounted fun figure at_ same => mine ▸ figures figure at_ same
      · rw [List.mem_singleton.1 member]
        exact event_keepsCounted _ v
    have again := again_after_counts orderly keeps k s
    rw [mine] at again
    exact again

end Validators

section Others

variable (chain : ChainAnswers) (log : DecodedLog) (e : ContractEvent)

theorem node_repeatable (c : ViewContract) : Never chain (handleNode c log e) ∨
    ∃ outcome writes, Repeatable chain (handleNode c log e) outcome writes := by
  obtain never | ⟨-, does⟩ | ⟨parsed, n, -, -, does⟩ := handleNode_cases chain log e c
  · exact .inl never
  · exact .inr ⟨_, _, .of_nothing does⟩
  · exact .inr ⟨_, _, .of_orderly does (refreshed_orderly ..) (refreshed_handled _ _)⟩

theorem distributor_repeatable : Never chain (handleDistributor log e) ∨
    ∃ outcome writes, Repeatable chain (handleDistributor log e) outcome writes := by
  obtain never | ⟨-, does⟩ | ⟨parsed, -, does⟩ := handleDistributor_cases chain log e
  · exact .inl never
  · exact .inr ⟨_, _, .of_nothing does⟩
  · cases parsed with
    | withdrawBounty holder validatorId destination amount =>
      have orderly : Orderly [.recordRewardClaim ⟨holder, e.height, e.logIndex, e.time, amount⟩] :=
        orderly_nil.cons (steady_recordRewardClaim _) fun _ member => (nomatch member)
      exact .inr ⟨_, _, .of_orderly does orderly fun r member =>
        List.mem_singleton.1 member ▸ .rewardClaim _⟩
    | ofValidator => exact .inr ⟨_, _, .of_nothing does⟩

theorem punisher_repeatable : Never chain (handlePunisher log e) ∨
    ∃ outcome writes, Repeatable chain (handlePunisher log e) outcome writes := by
  obtain never | ⟨-, does⟩ | ⟨parsed, -, does⟩ := handlePunisher_cases chain log e
  · exact .inl never
  · exact .inr ⟨_, _, .of_nothing does⟩
  · have orderly := orderly_systemEvents (List.pairwise_singleton _ (parsed.systemEvent e))
    exact .inr ⟨_, _, .of_orderly does orderly fun r member =>
      List.mem_singleton.1 member ▸ .systemEvent _⟩

theorem token_repeatable : Never chain (handleToken log e) ∨
    ∃ outcome writes, Repeatable chain (handleToken log e) outcome writes := by
  obtain never | ⟨-, does⟩ | ⟨parsed, -, does⟩ := handleToken_cases chain log e
  · exact .inl never
  · exact .inr ⟨_, _, .of_nothing does⟩
  · refine .inr ⟨_, _, .of_orderly does (orderly_accounts parsed.accounts) fun r member => ?_⟩
    obtain ⟨a, -, rfl⟩ := List.mem_map.1 member
    exact .account a

/-- Whatever the family, the handling of an event can be repeated, if it can be completed at all. -/
theorem handleEvent_repeatable (context : Context) (binding : Binding) :
    Never chain (handleEvent context binding log e) ∨
      ∃ outcome writes, Repeatable chain (handleEvent context binding log e) outcome writes := by
  unfold handleEvent
  dsimp only
  split
  · exact validator_repeatable ..
  · exact node_repeatable ..
  · exact delegation_repeatable ..
  · exact punisher_repeatable ..
  · exact token_repeatable ..
  · exact distributor_repeatable ..
  all_goals exact .inr ⟨_, _, .of_nothing fun t => does_pure t e⟩

end Others

section Attempts

variable {chain : ChainAnswers} {context : Context} {log : RawLog}

theorem handleLog_repeatable (chain : ChainAnswers) (context : Context) (binding : Binding)
    (header : BlockHeader) (log : RawLog) : Never chain (handleLog context binding header log) ∨
      ∃ outcome writes, Repeatable chain (handleLog context binding header log) outcome writes := by
  unfold handleLog
  cases DecodedLog.ofLog context.registry log with
  | error failure => exact .inl (never_throw _).bind
  | ok decoded =>
    obtain never | ⟨outcome, writes, repeatable⟩ := handleEvent_repeatable chain decoded
      (.ofLog binding header log decoded) context binding
    · exact .inl (.next (does_pure · _) never)
    · exact .inr ⟨outcome, writes,
        { repeatable with does := fun t => (does_pure t decoded).bind (repeatable.does _) }⟩

/-- All writes made after some of them leave what they leave alone. -/
theorem performAll_after_cut {requests : List StoreRequest} {k : Nat} {t : Tables}
    (again : (t.performAll (requests.take k)).performAll (requests.take k) =
      t.performAll (requests.take k)) :
    (t.performAll (requests.take k)).performAll requests = t.performAll requests := by
  have split (s : Tables) : s.performAll requests =
      (s.performAll (requests.take k)).performAll (requests.drop k) := by
    rw [← performAll_append, List.take_append_drop]
  rw [split, again, split t]

/-- A log is completed in one way or never, and a cut attempt at it changes neither the event nor where
a completed one ends. -/
theorem recordLog_does (chain : ChainAnswers) (context : Context) (binding : Binding)
    (header : BlockHeader) (log : RawLog) : Never chain (recordLog context binding header log) ∨
      ∃ (outcome : Tables → ContractEvent) (writes : Tables → List StoreRequest),
        (∀ t, Does chain (recordLog context binding header log) t (outcome t) (writes t)) ∧
        ∀ t k, outcome (t.performAll ((writes t).take k)) = outcome t ∧
          (t.performAll ((writes t).take k)).performAll (writes (t.performAll ((writes t).take k))) =
            t.performAll (writes t) := by
  obtain never | ⟨outcome, writes, repeatable⟩ :=
    handleLog_repeatable chain context binding header log
  · exact .inl never.bind
  refine .inr ⟨outcome, fun t => writes t ++ [.saveContractEvent (outcome t)],
    fun t => (repeatable.does t).bind ((does_store _ (.saveContractEvent (outcome t))).bind ?_),
    fun t k => ?_⟩
  · exact does_pure ..
  set requests := writes t ++ [.saveContractEvent (outcome t)] with all
  have same : outcome (t.performAll (requests.take k)) = outcome t ∧
      writes (t.performAll (requests.take k)) = writes t := by
    by_cases inside : k ≤ (writes t).length
    · rw [all, List.take_append_of_le_length inside]
      exact repeatable.cut t k
    · have full := repeatable.cut t (writes t).length
      rw [List.take_length] at full
      rw [all, List.take_of_length_le (by simp; omega), performAll_append]
      have stored := repeatable.stored (t.performAll (writes t)) (outcome t)
      exact ⟨stored.1.trans full.1, stored.2.trans full.2⟩
  refine ⟨same.1, ?_⟩
  dsimp only
  rw [← all, same.1, same.2]
  exact performAll_after_cut (repeatable.again t k t)

/-- Attempts at a log one after another, each with some cache, whether completed or cut. -/
inductive Attempts (chain : ChainAnswers) (context : Context) (log : RawLog) :
    Tables → Tables → Prop where
  | none (t : Tables) : Attempts chain context log t t
  | more {cache after : HeaderCache} {t t' t'' : Tables} {result : Except Stop ContractEvent} :
    cache.Faithful chain log.height → ProcessAttempt chain context log cache t result after t' →
    Attempts chain context log t' t'' → Attempts chain context log t t''

/-- Attempts, whether completed or cut, change neither the event of a completed one nor where it ends. -/
theorem Attempts.same {t t' : Tables} (attempts : Attempts chain context log t t')
    {binding : Binding} {header : BlockHeader}
    (found : context.registry.atAddress? log.address = some binding)
    (dated : chain (.header log.height) = .ok header)
    {outcome : Tables → ContractEvent} {writes : Tables → List StoreRequest}
    (does : ∀ t, Does chain (recordLog context binding header log) t (outcome t) (writes t))
    (cut : ∀ t k, outcome (t.performAll ((writes t).take k)) = outcome t ∧
      (t.performAll ((writes t).take k)).performAll (writes (t.performAll ((writes t).take k))) =
        t.performAll (writes t)) :
    outcome t' = outcome t ∧ t'.performAll (writes t') = t.performAll (writes t) := by
  induction attempts with
  | none => exact ⟨rfl, rfl⟩
  | @more cache after t s _ result faithful attempt _ ih =>
    obtain ⟨k, rfl⟩ : ∃ k, s = t.performAll ((writes t).take k) := by
      obtain ⟨stop, -, rfl⟩ | ⟨binding', header', found', dated', attempt⟩ :=
        attempt_of_process faithful attempt
      · exact ⟨0, rfl⟩
      cases found.symm.trans found'
      cases dated.symm.trans dated'
      obtain ⟨-, rfl⟩ | ⟨stop, k, -, rfl⟩ := (does t).only _ _ attempt
      · exact ⟨(writes t).length, by rw [List.take_length]⟩
      · exact ⟨k, rfl⟩
    exact ⟨ih.1.trans (cut t k).1, ih.2.trans (cut t k).2⟩

/-- A completed attempt after any number of attempts, each completed or cut by the failure of any of its
requests, ends with the event and the tables of a completed attempt made alone; such an attempt can be
made, and it has no other end. -/
theorem retry_completes {t t' t'' : Tables} {cache after : HeaderCache} {e : ContractEvent}
    (attempts : Attempts chain context log t t') (faithful : cache.Faithful chain log.height)
    (completed : ProcessAttempt chain context log cache t' (.ok e) after t'') :
    ∀ single : HeaderCache, single.Faithful chain log.height →
      (∃ after', ProcessAttempt chain context log single t (.ok e) after' t'') ∧
      ∀ e' after' s, ProcessAttempt chain context log single t (.ok e') after' s →
        e' = e ∧ s = t'' := by
  intro single alone
  obtain ⟨stop, wrong, -⟩ | ⟨binding, header, found, dated, attempt⟩ :=
    attempt_of_process faithful completed
  · cases wrong
  obtain never | ⟨outcome, writes, does, cut⟩ := recordLog_does chain context binding header log
  · exact absurd attempt (never _ _ _)
  obtain ⟨event, tables⟩ := attempts.same found dated does cut
  obtain ⟨rfl, rfl⟩ := (does t').unique attempt
  rw [event, tables]
  refine ⟨process_of_attempt alone found dated (does t).attempt, fun e' after' s other => ?_⟩
  obtain ⟨stop, wrong, -⟩ | ⟨binding', header', found', dated', attempt⟩ := attempt_of_process alone other
  · cases wrong
  cases found.symm.trans found'
  cases dated.symm.trans dated'
  exact (does t).unique attempt

/-- A log of a slashed validator in block 20. -/
def slashLog : RawLog :=
  ⟨.zero, [.ofWord 7, .ofWord 5, .ofWord 100], [], 20, .zero, 3, false⟩

/-- A contract that punishes, and its event under a selector. -/
def slashContext : Context where
  mode := .archive
  registry := {
    byAddress := Table.empty.insert .zero ⟨.punisher, ⟨"1.0.0"⟩, .zero, ⟨[]⟩⟩
    byVersion := ∅
    events := Table.empty.insert (.ofWord 7)
      ⟨"Slash", [⟨"validatorId", .uint 256, true⟩, ⟨"amount", .uint 256, true⟩], false⟩ }

/-- A chain whose blocks are dated by their heights. -/
def datedChain : ChainAnswers
  | .header height => .ok ⟨height, .zero, height⟩
  | .logs .. => .ok []
  | .head => .ok 0
  | .call .. => .ok []

/-- The store refuses the event at the first attempt, when the slash is stored already. -/
theorem retry_completes_slash :
    let attempt := process slashContext .empty slashLog
    let cut := attempt.run (answering datedChain fun r => r matches .saveContractEvent _) Tables.empty
    let full := attempt.run (answering datedChain fun _ => false) cut.2
    cut.1.1.isOk = false ∧ cut.2.systemEvents.length = 1 ∧ ∃ e, full.1.1 = .ok e ∧
      ∃ after, ProcessAttempt datedChain slashContext slashLog .empty Tables.empty (.ok e) after
        full.2 := by
  intro attempt cut full
  have refused : cut.1.1.isOk = false := by decide
  have stored : cut.2.systemEvents.length = 1 := by decide
  have completed : full.1.1.isOk = true := by decide
  obtain ⟨e, event⟩ : ∃ e, full.1.1 = .ok e := by
    cases result : full.1.1 with
    | error stop =>
      rw [result] at completed
      cases completed
    | ok e => exact ⟨e, rfl⟩
  have faithful := HeaderCache.faithful_empty datedChain slashLog.height
  have first : Attempts datedChain slashContext slashLog Tables.empty cut.2 :=
    .more faithful (Dialogue.runs_of_run (answering_allowed _ _) attempt _) (.none _)
  have second : ProcessAttempt datedChain slashContext slashLog .empty cut.2 (.ok e) full.1.2 full.2 :=
    event ▸ Dialogue.runs_of_run (answering_allowed _ _) attempt cut.2
  exact ⟨refused, stored, e, event, (retry_completes first faithful second .empty faithful).1⟩

end Attempts

end StakeIndex
