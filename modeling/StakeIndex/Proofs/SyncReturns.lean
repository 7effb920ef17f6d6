import StakeIndex.Proofs.Batches

/-!
How a synchronisation returns: with a failure as soon as one of its parts has stopped early, and else with
a summary, when all parts are done and the figures are written. What it has written then is what the parts
have found, in some order, and after it the figures that follow from that.
-/
namespace StakeIndex

open Dialogue Job

namespace EpochSync

/-- A synchronisation on some tables and some delegations that are kept, what it returns and what it
leaves. -/
inductive Returns (allows : (r : PartRequest) → SyncWorld → r.Answer → SyncWorld → Prop)
    (plan : SyncPlan) (context : Context) (version : Version) (height : Nat) (time : Instant)
    (t : Tables) (known : DelegationCache) : Except Stop SyncSummary → SyncWorld → Prop where
  | unknown {failure : Failure} : findContracts context version = .error failure →
    Returns allows plan context version height time t known (.error (.failed failure)) (.start t known)
  | stopped {c : SyncContracts} {pool : List (PartSteps PartResult)} {stop : Stop} {w : SyncWorld} :
    findContracts context version = .ok c →
    Reached allows (parts plan c height time) (.start t known) pool w → .done (.error stop) ∈ pool →
    Returns allows plan context version height time t known (.error stop) w
  | closed {c : SyncContracts} {ids : List Word} {counted : Nat × CountsByValidator}
    {sums : List (Nat × StakeByValidator)} {reply : Except Stop Unit} {w w' : SyncWorld} :
    findContracts context version = .ok c →
    Interleaved allows (parts plan c height time) (.start t known)
      (.ok (.validators ids) :: .ok (.nodes counted) ::
        sums.map fun summed => .ok (.delegations summed)) w →
    allows (.plain (.store (closing ids counted.2 (mergeAll sums).2 height time))) w reply w' →
    Returns allows plan context version height time t known
      (reply.map fun _ => ⟨height, ids.length, counted.1, (mergeAll sums).1⟩) w'

/-- The figures of a validator that follow from some nodes and delegations. -/
def figures (ns : List Node) (ds : List Delegation) (id : Word) : ValidatorSnapshot :=
  ⟨id, .ofNat (nodesOf ns id (·.isActive)), .ofNat (nodesOf ns id (·.isLinked)),
    .clamp ((ds.filter (counts id)).map (·.amount.toNat)).sum⟩

theorem snapshot_eq (ns : List Node) (ds : List Delegation) :
    snapshot (ns.foldl addNode (0, ∅)).2 (summedUp ds).2 = figures ns ds := by
  funext id
  have nodes := countsIn_foldl ns ∅ id
  have stake := stakeIn_eq ds id
  rw [foldl_addNode, summedUp_eq, snapshot]
  unfold countsIn at nodes
  unfold stakeIn at stake
  rw [nodes, stake, figures]
  simp only [ValidatorSnapshot.mk.injEq, true_and, and_true]
  exact ⟨congrArg Word.ofNat (Nat.zero_add _), congrArg Word.ofNat (Nat.zero_add _)⟩

/-- What a synchronisation has found and stored when all its parts are done. -/
structure Synchronised (chain : ChainAnswers) (c : SyncContracts) (height : Nat) (time : Instant)
    (t : Tables) (known : DelegationCache) (size : Nat) (vs : List Validator) (ns : List Node)
    (turns : List Turn) (w : SyncWorld) : Prop where
  validators : ∃ ended, Walk (validatorAt chain c.validatorService height) (idsFrom 1) 1 vs ended
  nodes : ∃ ended, Walk (nodeAt chain c.nodes height) (idsFrom 1) 1 ns ended
  delegations : Shares (delegationAt chain c.controller height known) size turns
  tables : w.tables = t.performAll w.written
  written : w.written.Perm (vs.map .saveValidator ++ ns.map (storing time) ++
    (allFound turns).map .saveDelegation)
  kept : Faithful chain c.controller height known w

section Parts

variable {chain : ChainAnswers} {plan : SyncPlan} {c : SyncContracts} {height : Nat} {time : Instant}
  {t : Tables} {known : DelegationCache}

variable (chain c height) in
/-- What is promised of the part for the validators. -/
def validatorsPromise : Promise PartRequest.Answer (Except Stop PartResult) :=
  Ends chain height
    (fun left result => ∃ ids, (∃ found ended,
      Walk (validatorAt chain c.validatorService height) (idsFrom 1) 1 found ended ∧
        left = found.map (fun v => .wrote (.saveValidator v)) ∧ ids = found.map (·.id)) ∧
      result = .validators ids)
    fun _ stop => Breaks (validatorAt chain c.validatorService height) (idsFrom 1) 1 stop

variable (chain c height time) in
/-- What is promised of the part for the nodes. -/
def nodesPromise : Promise PartRequest.Answer (Except Stop PartResult) :=
  Ends chain height
    (fun left result => ∃ counted, (∃ found ended,
      Walk (nodeAt chain c.nodes height) (idsFrom 1) 1 found ended ∧
        left = found.map (fun n => .wrote (storing time n)) ∧
        counted = found.foldl addNode (0, ∅)) ∧ result = .nodes counted)
    fun _ stop => Breaks (nodeAt chain c.nodes height) (idsFrom 1) 1 stop

variable (chain plan c height time known) in
/-- What is promised of all parts. -/
def partPromises : List (Promise PartRequest.Answer (Except Stop PartResult)) :=
  validatorsPromise chain c height :: nodesPromise chain c height time ::
    List.replicate (max plan.workers 1)
      (workerPromise chain c.controller height known (max plan.batchSize 1))

theorem parts_obey : (parts plan c height time).Forall₂
    (fun d promise => d.Obeys (partProtocol chain c.controller height known) promise)
    (partPromises chain plan c height time known) := by
  have enough : idsFrom 1 ≤ allIds := Nat.sub_le _ _
  refine .cons ?_ (.cons ?_ (workers_obey plan))
  · exact ends_map _ (ends_validators enough)
  · exact ends_map _ (ends_nodes enough _)

/-- When all parts are done, they have found what they had to, and stored it. -/
theorem parts_synchronise {ids : List Word} {counted : Nat × CountsByValidator}
    {sums : List (Nat × StakeByValidator)} {w : SyncWorld}
    (run : Interleaved (Answers chain) (parts plan c height time) (.start t known)
      (.ok (.validators ids) :: .ok (.nodes counted) ::
        sums.map fun summed => .ok (.delegations summed)) w) :
    ∃ vs ns turns, Synchronised chain c height time t known (max plan.batchSize 1) vs ns turns w ∧
      ids = vs.map (·.id) ∧ counted = ns.foldl addNode (0, ∅) ∧
      mergeAll sums = summedUp (allFound turns) := by
  obtain ⟨merged, contracts, promises, fulfilled, order, along, -, faithful⟩ :=
    run.fulfils answers_serves parts_obey (faithful_start chain c.controller height known t)
  cases fulfilled with
  | @cons _ first _ _ one fulfilled =>
  cases fulfilled with
  | @cons _ second _ rest two fulfilled =>
  obtain ⟨promise, promises⟩ := List.cons.inj promises
  obtain ⟨promise', promises⟩ := List.cons.inj promises
  change first.promise = _ at promise
  change second.promise = _ at promise'
  rw [promise] at one
  rw [promise'] at two
  obtain ⟨_, ⟨vs, vsEnded, vsWalk, vsLeft, rfl⟩, same⟩ := one
  cases same
  obtain ⟨_, ⟨ns, nsEnded, nsWalk, nsLeft, rfl⟩, same⟩ := two
  cases same
  obtain ⟨count, promised⟩ := List.eq_replicate_iff.1 promises
  rw [List.length_map] at count
  rw [List.forall_mem_map] at promised
  obtain ⟨turns, walks, left, summed⟩ := turns_of_workers promised fulfilled
  have working : 0 < rest.length :=
    count ▸ workers_pos plan
  have marked : (marks merged).Perm ((marks first.past ++ marks second.past) ++
      (turns.flatMap Turn.left ++ List.replicate rest.length .sawEnd)) := by
    refine (order.filterMap mark?).trans ?_
    rw [List.flatMap_cons, List.flatMap_cons, ← marks, marks_append, marks_append, List.append_assoc]
    exact (left.append_left _).append_left _
  have beside : ∀ m ∈ marks first.past ++ marks second.past, ∃ r, m = .wrote r := by
    intro m member
    rw [vsLeft, nsLeft, List.mem_append, List.mem_map, List.mem_map] at member
    obtain ⟨v, -, rfl⟩ | ⟨n, -, rfl⟩ := member
    · exact ⟨_, rfl⟩
    · exact ⟨_, rfl⟩
  obtain ⟨shares, tables, written⟩ := shares_of_marks (along_leaves along) marked working beside walks
  refine ⟨vs, ns, turns, ⟨⟨_, vsWalk⟩, ⟨_, nsWalk⟩, shares, tables, ?_, faithful⟩, rfl, rfl, summed⟩
  have wrote {α : Type} (f : α → StoreRequest) (found : List α) :
      (found.map fun a => Mark.wrote (f a)).filterMap Mark.wrote? = found.map f := by
    rw [List.filterMap_map]
    exact List.filterMap_eq_map ▸ rfl
  rwa [vsLeft, nsLeft, List.filterMap_append, wrote, wrote] at written

end Parts

section Outcomes

variable {chain : ChainAnswers} {plan : SyncPlan} {context : Context} {version : Version}
  {height : Nat} {time : Instant} {t : Tables} {known : DelegationCache} {w : SyncWorld}

theorem succeeds_answers {r : PartRequest} {w w' : SyncWorld} {reply : r.Answer}
    (answered : Succeeds chain height r w reply w') : Answers chain r w reply w' := answered.1

theorem Returns.mono {allows allows' : (r : PartRequest) → SyncWorld → r.Answer → SyncWorld → Prop}
    {result : Except Stop SyncSummary}
    (returned : Returns allows plan context version height time t known result w)
    (weaker : ∀ {r w reply w'}, allows r w reply w' → allows' r w reply w') :
    Returns allows' plan context version height time t known result w := by
  cases returned with
  | unknown missing => exact .unknown missing
  | stopped found reached ended => exact .stopped found (reached.weaken weaker) ended
  | closed found run answered => exact .closed found (run.weaken weaker) (weaker answered)

theorem Returns.weaken {result : Except Stop SyncSummary}
    (returned : Returns (Succeeds chain height) plan context version height time t known result w) :
    Returns (Answers chain) plan context version height time t known result w :=
  returned.mono succeeds_answers

/-- A synchronisation that returns a summary has found and stored what it had to, and then written the
figures that follow from it; and the summary counts what was found. -/
theorem Returns.synchronised {summary : SyncSummary}
    (returned : Returns (Answers chain) plan context version height time t known (.ok summary) w) :
    ∃ c vs ns turns before, findContracts context version = .ok c ∧
      Synchronised chain c height time t known (max plan.batchSize 1) vs ns turns before ∧
      w = before.perform (.saveValidatorSnapshots
        (vs.map fun v => figures ns (allFound turns) v.id) height time) ∧
      summary = ⟨height, vs.length, ns.length, (allFound turns).length⟩ := by
  generalize same : Except.ok summary = result at returned
  cases returned with
  | unknown => cases same
  | stopped => cases same
  | @closed c ids counted sums reply before _ found run answered =>
    obtain ⟨rfl, rfl⟩ | ⟨stop, rfl, -⟩ := answered
    swap
    · cases same
    obtain ⟨vs, ns, turns, synchronised, rfl, rfl, summed⟩ := parts_synchronise run
    refine ⟨c, vs, ns, turns, before, found, synchronised, ?_, ?_⟩
    · rw [closing, summed, snapshot_eq, List.map_map]
      rfl
    · cases same
      rw [List.length_map, summed, summedUp_eq, foldl_addNode, Nat.zero_add]

/-- Where nothing fails, a synchronisation stops early only because of a failure that the chain tells before
the validators or the nodes have come to an end, or of some delegation, or because its workers have claimed
more batches than fit in the register that counts them. -/
theorem Returns.breaks {c : SyncContracts} {stop : Stop} (found : findContracts context version = .ok c)
    (returned : Returns (Succeeds chain height) plan context version height time t known (.error stop) w) :
    Breaks (validatorAt chain c.validatorService height) (idsFrom 1) 1 stop ∨
      Breaks (nodeAt chain c.nodes height) (idsFrom 1) 1 stop ∨
      Fails (delegationAt chain c.controller height known) stop ∨
      stop = .crashed ∧ registerSize ≤ w.claimed := by
  have serves : Serves (Succeeds chain height) (Faithful chain c.controller height known)
      (partProtocol chain c.controller height known) :=
    fun r w reply w' faithful may answered => answers_serves r w reply w' faithful may answered.1
  generalize same : Except.error stop = result at returned
  cases returned with
  | unknown missing => cases found.symm.trans missing
  | closed _ _ answered =>
    obtain ⟨⟨rfl, -⟩ | ⟨stop', rfl, -⟩, fine⟩ := answered
    · cases same
    · exact absurd ⟨stop', rfl⟩ fine
  | @stopped _ pool _ _ found' reached ended =>
    cases found.symm.trans found'
    cases same
    obtain ⟨promise, among, past, fulfilled, merged, along, more, order⟩ :=
      reached.done serves parts_obey (faithful_start chain c.controller height known t) ended
    have fine : ¬ ∃ e ∈ past, Faulty chain height e := by
      rintro ⟨e, member, faulty⟩
      obtain ⟨_, _, answered⟩ := along.allowed e (order.mem_iff.2 (List.mem_append_left _ member))
      exact answered.2 faulty
    obtain rfl | among := List.mem_cons.1 among
    · exact .inl (fulfilled.resolve_left fine)
    obtain rfl | among := List.mem_cons.1 among
    · exact .inr (.inl (fulfilled.resolve_left fine))
    obtain rfl := List.eq_of_mem_replicate among
    obtain failed | ⟨crashed, claims⟩ := fulfilled.resolve_left fine
    · exact .inr (.inr (.inl failed))
    · refine .inr (.inr (.inr ⟨crashed, claims.trans ?_⟩))
      -- The claims of one worker are among all claims, which the register counts.
      have leaves := along_leaves (along.weaken succeeds_answers)
      have all := ((order.filterMap mark?).filterMap Mark.claimed?).length_eq
      rw [← marks, leaves.claimed, List.length_range', ← marks, marks_append, List.filterMap_append,
        List.length_append] at all
      have counted : w.claimed - 0 = _ := all
      omega

theorem Returns.fails {c : SyncContracts} {stop : Stop} (found : findContracts context version = .ok c)
    (returned : Returns (Succeeds chain height) plan context version height time t known (.error stop) w) :
    Fails (validatorAt chain c.validatorService height) stop ∨
      Fails (nodeAt chain c.nodes height) stop ∨
      Fails (delegationAt chain c.controller height known) stop ∨
      stop = .crashed ∧ registerSize ≤ w.claimed :=
  (returned.breaks found).imp Breaks.fails (.imp_left Breaks.fails)

end Outcomes

section Turns

/-- What a synchronisation returns and leaves when nothing fails and its parts take turns in some order, if
all parts are done after these turns. -/
def runInTurns (chain : ChainAnswers) (plan : SyncPlan) (c : SyncContracts) (height : Nat)
    (time : Instant) (t : Tables) (known : DelegationCache) (turns : List Nat) :
    Option (SyncSummary × SyncWorld) :=
  let finish := turns.foldl (advance (replying chain)) (parts plan c height time, .start t known)
  match finish.1.all (·.result?.isSome), finish.1.filterMap result? with
  | true, .ok (.validators ids) :: .ok (.nodes counted) :: rest =>
    let total := mergeAll (rest.filterMap summed?)
    if rest.all fun result => (summed? result).isSome then
      some (⟨height, ids.length, counted.1, total.1⟩,
        finish.2.perform (closing ids counted.2 total.2 height time))
    else none
  | _, _ => none

theorem returns_of_turns {chain : ChainAnswers} {plan : SyncPlan} {context : Context}
    {version : Version} {c : SyncContracts} {height : Nat} {time : Instant} {t : Tables}
    {known : DelegationCache} {turns : List Nat} {summary : SyncSummary} {w : SyncWorld}
    (found : findContracts context version = .ok c)
    (ran : runInTurns chain plan c height time t known turns = some (summary, w)) :
    Returns (Succeeds chain height) plan context version height time t known (.ok summary) w := by
  unfold runInTurns at ran
  have run := interleaved_of_turns (replying_succeeds chain height) turns (parts plan c height time)
    (.start t known)
  generalize turns.foldl (advance (replying chain)) (parts plan c height time, .start t known) =
    finish at ran run
  dsimp only at ran
  split at ran
  next ids counted rest done ended =>
    split at ran
    next all =>
      cases ran
      have run := run done
      rw [ended, ← summed_all all] at run
      exact .closed found run (replying_succeeds chain height (.plain (.store _)) finish.2)
    next => cases ran
  next => cases ran

end Turns

end EpochSync

end StakeIndex
