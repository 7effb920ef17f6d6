import StakeIndex.Proofs.HandlerRequests
import StakeIndex.Proofs.SyncFailures

/-!
Work at one height stays at that height. Every request says where it stores: away from there all snapshots,
series and events are as they were, but for the counters on the latest snapshots of validators. The handling
of a log and a synchronisation store at their own height only, whether they come to an end or are cut, so
questions about what stood before a height that is not later are answered as before.
-/
namespace StakeIndex

open Dialogue Job Tables

/-- A request that stores at a height only. -/
def StoreRequest.StaysAt (height : Nat) : StoreRequest → Prop
  | .saveValidator v => v.height = height
  | .saveDelegation d => d.height = height
  | .saveNodes rows => ∀ n ∈ rows, n.height = height
  | .saveValidatorStatistic s => s.height = height
  | .recordRewardClaim c => c.height = height
  | .saveSystemEvent e => e.height = height
  | .calculate _ at_ => at_.height = height
  | .saveValidatorSnapshots _ k _ => k = height
  | _ => True

/-- A request that sets counters on the latest snapshots of validators. -/
def StoreRequest.Counts : StoreRequest → Prop
  | .updateCounts _ | .calculate _ _ | .saveValidatorSnapshots _ _ _ => True
  | _ => False

namespace Tables

/-- Beside the validators all rows and events away from a height are as they were. The series of a delegator
is written anew from a height on. -/
structure RowsKept (height : Nat) (t t' : Tables) : Prop where
  delegations : ∀ key, key.2 ≠ height → t'.delegations.find? key = t.delegations.find? key
  nodes : ∀ key, key.2 ≠ height → t'.nodes.find? key = t.nodes.find? key
  validatorStatistics : ∀ key, key.2 ≠ height →
    t'.validatorStatistics.find? key = t.validatorStatistics.find? key
  delegatorStatistics : ∀ key, key.2 < height →
    t'.delegatorStatistics.find? key = t.delegatorStatistics.find? key
  rewardClaims : ∀ key, key.2.1 ≠ height → t'.rewardClaims.find? key = t.rewardClaims.find? key
  systemEvents : t'.systemEvents.filter (·.height ≠ height) = t.systemEvents.filter (·.height ≠ height)

/-- Rows of validators that are as they were away from a height, and of which none has gone. -/
structure GrowsAt (height : Nat) (rows rows' : Table (Word × Nat) Validator) : Prop where
  elsewhere : ∀ key, key.2 ≠ height → rows'.find? key = rows.find? key
  kept : ∀ key, rows'.find? key = none → rows.find? key = none

/-- Away from a height nothing has changed but counters on snapshots of validators, and those only on
snapshots that were the latest ones of their validators and still are. -/
structure KeptBeside (height : Nat) (t t' : Tables) : Prop extends RowsKept height t t' where
  bare : ∀ key, key.2 ≠ height →
    (t'.validators.find? key).map Validator.bare = (t.validators.find? key).map Validator.bare
  latest : ∀ key, key.2 ≠ height → t'.validators.find? key ≠ t.validators.find? key →
    latestKey? t.validators key.1 = some key ∧ latestKey? t'.validators key.1 = some key

section Rows

variable {height : Nat} {t t' t'' : Tables}

theorem rowsKept_refl (height : Nat) (t : Tables) : RowsKept height t t :=
  ⟨fun _ _ => rfl, fun _ _ => rfl, fun _ _ => rfl, fun _ _ => rfl, fun _ _ => rfl, rfl⟩

theorem RowsKept.trans (first : RowsKept height t t') (second : RowsKept height t' t'') :
    RowsKept height t t'' where
  delegations key away := (second.delegations key away).trans (first.delegations key away)
  nodes key away := (second.nodes key away).trans (first.nodes key away)
  validatorStatistics key away :=
    (second.validatorStatistics key away).trans (first.validatorStatistics key away)
  delegatorStatistics key below :=
    (second.delegatorStatistics key below).trans (first.delegatorStatistics key below)
  rewardClaims key away := (second.rewardClaims key away).trans (first.rewardClaims key away)
  systemEvents := second.systemEvents.trans first.systemEvents

theorem filter_putSystemEvent_away (e : SystemEvent) (events : List SystemEvent) :
    (putSystemEvent e events).filter (·.height ≠ e.height) = events.filter (·.height ≠ e.height) := by
  rw [filter_putSystemEvent, if_neg (by simp)]
  intro a b same
  have heights : a.height = b.height := congrArg (·.1.1) same
  rw [heights]

/-- A payment changes the series of its holder from its height on. -/
theorem delegatorStatistics_record_below (t : Tables) (c : RewardClaim)
    {key : (Address × DelegatorFigure) × Nat} (below : key.2 < c.height) :
    (t.recordRewardClaim c).delegatorStatistics.find? key = t.delegatorStatistics.find? key := by
  rw [delegatorStatistics_record, Table.find?_insertAll_ne, Table.find?_filter]
  · have kept : (!(key.1 == (c.holder, DelegatorFigure.claimedRewards) && decide (c.height ≤ key.2))) =
        true := by simp [Nat.not_le.2 below]
    simp only [kept]
    cases t.delegatorStatistics.find? key <;> rfl
  · rintro row member rfl
    have above := of_decide_eq_true (List.mem_filter.1 member).2
    exact absurd below (Nat.not_lt.2 above)

/-- A series has new rows at the height of a request only. -/
theorem validatorStatistics_stays {r : StoreRequest} (stays : r.StaysAt height) (t : Tables)
    (key : (Word × ValidatorFigure) × Nat) (away : key.2 ≠ height) :
    (t.perform r).2.validatorStatistics.find? key = t.validatorStatistics.find? key := by
  have written : ∀ w ∈ t.figuresWritten r, w.height = height := by
    intro w member
    cases r with
    | saveValidatorStatistic s => exact List.mem_singleton.1 member ▸ stays
    | calculate figure at_ => exact List.mem_singleton.1 member ▸ stays
    | saveValidatorSnapshots snapshots k time =>
      obtain ⟨s, -, member⟩ := List.mem_flatMap.1 member
      obtain ⟨figure, -, rfl⟩ := List.mem_map.1 member
      exact stays
    | _ => cases member
  rw [validatorStatistics_perform]
  exact statistic?_saveAll fun w member _ _ at_ => away (at_.symm.trans (written w member))

/-- The tables in which neither a counter is set nor a figure is written. -/
def beside (t : Tables) := (t.delegations, t.nodes, t.delegatorStatistics, t.rewardClaims, t.systemEvents)

theorem rowsKept_of_beside (same : t'.beside = t.beside) (series : ∀ key, key.2 ≠ height →
    t'.validatorStatistics.find? key = t.validatorStatistics.find? key) : RowsKept height t t' := by
  simp only [beside, Prod.mk.injEq] at same
  obtain ⟨delegations, nodes, claimed, claims, events⟩ := same
  exact ⟨fun _ _ => by rw [delegations], fun _ _ => by rw [nodes], series, fun _ _ => by rw [claimed],
    fun _ _ => by rw [claims], by rw [events]⟩

/-- What a request that stays at a height leaves as it is. -/
theorem rowsKept_perform {r : StoreRequest} (stays : r.StaysAt height) (t : Tables) :
    RowsKept height t (t.perform r).2 := by
  have series := validatorStatistics_stays stays t
  have same := rowsKept_refl height t
  cases r with
  | saveContractEvent e =>
    exact rowsKept_of_beside (saveContractEvent_frame beside (fun _ _ _ => rfl) e t) series
  | updateCounts id =>
    refine rowsKept_of_beside ?_ series
    change (t.updateCounts id).beside = t.beside
    rw [updateCounts_eq]
    rfl
  | calculate figure at_ =>
    exact rowsKept_of_beside (calculate_frame beside (fun _ _ _ => rfl) figure at_ t) series
  | saveValidatorSnapshots snapshots k time =>
    exact rowsKept_of_beside (saveSnapshots_frame beside (fun _ _ _ => rfl) snapshots k time t) series
  | saveDelegation d =>
    refine { same with delegations := fun key away => Table.find?_insert_ne _ _ ?_ }
    rintro rfl
    exact away stays
  | saveNodes rows =>
    refine { same with
      nodes := fun key away => Table.find?_insertAll_ne (fun n : Node => (n.id, n.height)) ?_ _ }
    rintro n member rfl
    exact away (stays n member)
  | recordRewardClaim c =>
    obtain rfl : c.height = height := stays
    refine { same with
      rewardClaims := fun key away => Table.find?_insert_ne _ _ ?_
      delegatorStatistics := fun key below => delegatorStatistics_record_below t c below }
    rintro rfl
    exact away rfl
  | saveSystemEvent e =>
    obtain rfl : e.height = height := stays
    exact { same with systemEvents := filter_putSystemEvent_away e t.systemEvents }
  | _ => exact rowsKept_of_beside rfl series

theorem rowsKept_performAll {requests : List StoreRequest} (stays : ∀ r ∈ requests, r.StaysAt height)
    (t : Tables) : RowsKept height t (t.performAll requests) :=
  performAll_invariant (RowsKept height t) (rowsKept_refl height t) fun r member s kept =>
    kept.trans (rowsKept_perform (stays r member) s)

end Rows

section Snapshots

variable {height : Nat} {rows rows' rows'' : Table (Word × Nat) Validator}

theorem growsAt_refl (height : Nat) (rows : Table (Word × Nat) Validator) : GrowsAt height rows rows :=
  ⟨fun _ _ => rfl, fun _ => id⟩

theorem GrowsAt.trans (first : GrowsAt height rows rows') (second : GrowsAt height rows' rows'') :
    GrowsAt height rows rows'' :=
  ⟨fun key away => (second.elsewhere key away).trans (first.elsewhere key away),
    fun key none => first.kept key (second.kept key none)⟩

/-- A request that sets no counters stores a snapshot of a validator at its height at most. -/
theorem growsAt_perform {r : StoreRequest} (stays : r.StaysAt height) (still : ¬ r.Counts) (t : Tables) :
    GrowsAt height t.validators (t.perform r).2.validators := by
  have same := growsAt_refl height t.validators
  cases r with
  | saveContractEvent e =>
    rwa [saveContractEvent_frame Tables.validators (fun _ _ _ => rfl) e t]
  | saveValidator v =>
    refine ⟨fun key away => Table.find?_insert_ne _ _ ?_, fun key none => ?_⟩
    · rintro rfl
      exact away stays
    · change (t.validators.insert (v.id, v.height) v).find? key = _ at none
      rw [Table.find?_insert] at none
      split at none
      · cases none
      · exact none
  | updateCounts => exact absurd trivial still
  | calculate => exact absurd trivial still
  | saveValidatorSnapshots => exact absurd trivial still
  | _ => exact same

theorem Recounts.append {ids ids' : List Word} (first : Recounts ids rows rows')
    (second : Recounts ids' rows' rows'') : Recounts (ids ++ ids') rows rows'' where
  latest id := (second.latest id).trans (first.latest id)
  bare := second.bare.trans first.bare
  others key earlier := by
    refine (second.others key fun member => ?_).trans (first.others key fun member => ?_)
    · rw [first.latest]
      exact earlier (List.mem_append_right _ member)
    · exact earlier (List.mem_append_left _ member)

/-- A request that stores no snapshot of a validator sets counters on the latest ones at most. -/
theorem recounts_perform {r : StoreRequest} (stored : ∀ v, r ≠ .saveValidator v) (t : Tables) :
    ∃ ids, Recounts ids t.validators (t.perform r).2.validators := by
  have same := recounts_refl [] t.validators
  cases r with
  | saveContractEvent e =>
    refine ⟨[], ?_⟩
    rwa [saveContractEvent_frame Tables.validators (fun _ _ _ => rfl) e t]
  | saveValidator v => exact absurd rfl (stored v)
  | updateCounts id =>
    refine ⟨[id], ?_⟩
    have among : id ∈ [id] := List.mem_singleton.2 rfl
    change Recounts [id] t.validators (t.updateCounts id).validators
    rw [updateCounts_eq]
    exact (((recounts_refl _ _).withCounter among _ _).withCounter among _ _).withCounter among _ _
  | calculate figure at_ =>
    refine ⟨[at_.validatorId], ?_⟩
    rw [performed_calculate]
    exact (recounts_refl _ _).withCounter (List.mem_singleton.2 rfl) _ _
  | saveValidatorSnapshots snapshots k time => exact ⟨_, recounts_saveSnapshots snapshots k time t⟩
  | _ => exact ⟨[], same⟩

theorem recounts_performAll {requests : List StoreRequest} (stored : ∀ r ∈ requests, ∀ v, r ≠ .saveValidator v)
    (t : Tables) : ∃ ids, Recounts ids t.validators (t.performAll requests).validators := by
  refine performAll_invariant (fun s => ∃ ids, Recounts ids t.validators s.validators)
    ⟨[], recounts_refl _ _⟩ fun r member s recounted => ?_
  obtain ⟨ids, first⟩ := recounted
  obtain ⟨ids', second⟩ := recounts_perform (stored r member) s
  exact ⟨ids ++ ids', first.append second⟩

/-- A snapshot away from the height that is the latest one in the end has been the latest one before. -/
theorem GrowsAt.latestKey? (grows : GrowsAt height rows rows') {key : Word × Nat} (away : key.2 ≠ height)
    (latest : Tables.latestKey? rows' key.1 = some key) : Tables.latestKey? rows key.1 = some key := by
  obtain ⟨⟨key', v⟩, last, rfl⟩ := Option.map_eq_some_iff.1 latest
  obtain ⟨found, mine, above⟩ := Table.last?_eq_some_iff.1 last
  rw [grows.elsewhere _ away] at found
  have before : (rows.last? fun k => k.1 == key'.1) = some (key', v) :=
    Table.last?_eq_some_iff.2 ⟨found, mine, fun k wanted order => grows.kept k (above k wanted order)⟩
  exact congrArg (Option.map Prod.fst) before

/-- Snapshots are stored at a height first, and counters are set then. -/
theorem keptBeside_of_phases {t s t' : Tables} {ids : List Word} (kept : RowsKept height t t')
    (grows : GrowsAt height t.validators s.validators)
    (recounts : Recounts ids s.validators t'.validators) : KeptBeside height t t' where
  toRowsKept := kept
  bare key away := by
    rw [← Table.find?_map t'.validators (fun _ => Validator.bare), recounts.bare, Table.find?_map,
      grows.elsewhere key away]
  latest key away changed := by
    have last : latestKey? s.validators key.1 = some key := by
      by_contra earlier
      refine changed ((recounts.others key fun _ => earlier).trans (grows.elsewhere key away))
    exact ⟨grows.latestKey? away last, (recounts.latest key.1).trans last⟩

end Snapshots

end Tables

section Work

variable {height : Nat} {t t' : Tables}

theorem SnapsAt.stays {r : StoreRequest} (snaps : SnapsAt height r) : r.StaysAt height ∧ ¬ r.Counts := by
  cases snaps with
  | older q => exact ⟨trivial, id⟩
  | validator at_ => exact ⟨at_, id⟩

theorem EpochSync.SavesAt.stays {r : StoreRequest} (saves : EpochSync.SavesAt height r) :
    r.StaysAt height ∧ ¬ r.Counts := by
  cases saves with
  | validator at_ => exact ⟨at_, id⟩
  | beside beside =>
    cases beside with
    | nodes at_ => exact ⟨at_, id⟩
    | delegation at_ => exact ⟨at_, id⟩

/-- What the processing of a log asks of the store, but for snapshots of validators. -/
inductive ProcessesAt (height : Nat) : StoreRequest → Prop where
  | handles {r : StoreRequest} : HandlesAt height r → ProcessesAt height r
  | event (e : ContractEvent) : ProcessesAt height (.saveContractEvent e)

theorem ProcessesAt.stays {r : StoreRequest} (processes : ProcessesAt height r) :
    r.StaysAt height ∧ ∀ v, r ≠ .saveValidator v := by
  cases processes with
  | handles handles =>
    cases handles with
    | counts | account | older => exact ⟨trivial, fun _ => nofun⟩
    | delegation at_ | nodes at_ | rewardClaim at_ | systemEvent at_ | calculate _ at_ =>
      exact ⟨at_, fun _ => nofun⟩
  | event e => exact ⟨trivial, fun _ => nofun⟩

theorem fetch_asks (cache : HeaderCache) (height : Nat) :
    Asks (fun _ => False) (fun _ => True) (cache.fetch height) := by
  unfold HeaderCache.fetch
  cases cache.get? height with
  | some header => exact .done trivial
  | none =>
    apply Asks.chain
    intro reply
    cases reply <;> exact .done trivial

theorem process_stays (context : Context) (cache : HeaderCache) (log : RawLog) :
    AsksThen (SnapsAt log.height) (ProcessesAt log.height) (fun _ => True)
      (process context cache log) := by
  unfold process
  have dispatched : AsksThen (SnapsAt log.height) (HandlesAt log.height) (fun _ => True)
      (dispatch context cache log) := by
    unfold dispatch
    cases context.registry.atAddress? log.address with
    | none => exact .later (.done trivial)
    | some binding =>
      apply ((fetch_asks cache log.height).weaken fun _ => False.elim).bind_then
      rintro ⟨header, cache⟩ _
      cases header with
      | error stop => exact .later (.done trivial)
      | ok header =>
        apply AsksThen.bind (handleLog_stays context binding header log)
        intro result _
        exact .done trivial
  apply (dispatched.weaken fun _ => .handles).bind
  rintro ⟨result, cache⟩ _
  cases result with
  | error stop => exact .done trivial
  | ok event =>
    apply Asks.store (.event event)
    intro reply
    cases reply <;> exact .done trivial

theorem process_keeps {context : Context} {cache : HeaderCache} {log : RawLog}
    {result : Except Stop ContractEvent × HeaderCache}
    (run : Runs AnyAnswer (process context cache log) t result t') : KeptBeside log.height t t' := by
  obtain ⟨-, saves, later, snaps, processes, rfl⟩ := (process_stays context cache log).run_any run
  have kept := (rowsKept_performAll (fun r member => (snaps r member).stays.1) t).trans
    (rowsKept_performAll (fun r member => (processes r member).stays.1) (t.performAll saves))
  have grows := performAll_invariant (fun s => GrowsAt log.height t.validators s.validators)
    (growsAt_refl _ _) fun r member s grows =>
      grows.trans (growsAt_perform (snaps r member).stays.1 (snaps r member).stays.2 s)
  obtain ⟨ids, recounts⟩ := recounts_performAll (fun r member => (processes r member).stays.2)
    (t.performAll saves)
  exact keptBeside_of_phases kept grows recounts

theorem EpochSync.Returns.keeps {plan : SyncPlan} {context : Context} {version : Version} {time : Instant}
    {known : DelegationCache} {w : SyncWorld} {result : Except Stop SyncSummary}
    (returned : Returns AnyAnswers plan context version height time t known result w) :
    KeptBeside height t w.tables := by
  obtain ⟨s, ⟨kept, grows⟩, same | ⟨snapshots, after⟩⟩ := returned.closes
    (fun s => RowsKept height t s ∧ GrowsAt height t.validators s.validators)
    (fun r saves s before => ⟨before.1.trans (rowsKept_perform saves.stays.1 s),
      before.2.trans (growsAt_perform saves.stays.1 saves.stays.2 s)⟩)
    ⟨rowsKept_refl _ _, growsAt_refl _ _⟩
  · rw [same]
    exact keptBeside_of_phases kept grows (recounts_refl [] _)
  · rw [after]
    have closes : (StoreRequest.saveValidatorSnapshots snapshots height time).StaysAt height := rfl
    exact keptBeside_of_phases (kept.trans (rowsKept_perform closes s)) grows
      (recounts_saveSnapshots snapshots height time s)

/-- What is asked about delegations and nodes before heights up to some bound is answered alike. -/
structure AnswersBefore (bound : Nat) (t t' : Tables) : Prop where
  delegations : ∀ (q : DelegationQuery) (b : Nat), b ≤ bound → q.before = some b →
    (t'.perform (.delegations q)).1 = (t.perform (.delegations q)).1
  nodes : ∀ (q : NodeQuery) (b : Nat), b ≤ bound → q.before = some b →
    (t'.perform (.nodes q)).1 = (t.perform (.nodes q)).1

theorem current_kept {σ α : Type} [Ord σ] [DecidableEq σ] [Std.TransOrd σ] [Std.LawfulEqOrd σ]
    {rows rows' : Table (σ × Nat) α} {b : Nat} (kept : ∀ key, key.2 ≠ height → rows'.find? key = rows.find? key)
    (below : b ≤ height) : rows'.current (some b) = rows.current (some b) := by
  refine Table.current_congr (Table.ext_find? fun key => ?_)
  rw [Table.below, Table.below, Table.find?_filter, Table.find?_filter]
  by_cases inside : key.2 < b
  · rw [kept key (by omega)]
  · simp only [inside, decide_false]
    cases rows'.find? key <;> cases rows.find? key <;> rfl

theorem Tables.RowsKept.answers (kept : RowsKept height t t') : AnswersBefore height t t' where
  delegations q b below before := by
    change (t'.delegations.current q.before).filter _ = (t.delegations.current q.before).filter _
    rw [before, current_kept kept.delegations below]
  nodes q b below before := by
    change (t'.nodes.current q.before).filter _ = (t.nodes.current q.before).filter _
    rw [before, current_kept kept.nodes below]

/-- Whatever the tables are, and whatever the chain answers and the store refuses: the processing of a log
and a synchronisation keep what stands beside their height, and the answers about what stood before. -/
theorem work_stays_at_height (context : Context) (t : Tables) :
    (∀ cache log result t', Runs AnyAnswer (process context cache log) t result t' →
      KeptBeside log.height t t' ∧ AnswersBefore log.height t t') ∧
    ∀ plan version height time known result w,
      EpochSync.Returns AnyAnswers plan context version height time t known result w →
      KeptBeside height t w.tables ∧ AnswersBefore height t w.tables := by
  constructor
  · intro cache log result t' run
    have kept := process_keeps run
    exact ⟨kept, kept.answers⟩
  · intro plan version height time known result w returned
    have kept := returned.keeps
    exact ⟨kept, kept.answers⟩

/-- Validator 1 is stored at block 30 already. A registration in block 20 and a synchronisation at block 20
store snapshots below it. -/
theorem work_stays_at_height_below :
    let before := EpochSync.stakedAt 30
    (∃ result t', Runs AnyAnswer (process pairContext .empty (registeredLog 1 20)) before result t' ∧
      result.1.isOk ∧ t'.validators.keys = [(1, 20), (1, 30)] ∧ KeptBeside 20 before t') ∧
    ∃ result w, EpochSync.Returns AnyAnswers ⟨2, 2⟩ holdingContext ⟨"1.0.0"⟩ 20 (.ofSeconds 20) before
      .empty result w ∧ result.isOk ∧ w.tables.validators.keys = [(1, 20), (1, 30), (2, 20)] ∧
      KeptBeside 20 before w.tables := by
  intro before
  constructor
  · have run := Dialogue.runs_of_run (answering_anyAnswer pairChain fun _ => false)
      (process pairContext .empty (registeredLog 1 20)) before
    have kept := ((work_stays_at_height pairContext before).1 _ _ _ _ run).1
    exact ⟨_, _, run, by decide +kernel, by decide +kernel, kept⟩
  · have found : EpochSync.findContracts holdingContext ⟨"1.0.0"⟩ = .ok holdingContracts := rfl
    have turns : (EpochSync.runInTurns (holding 2 2 3) ⟨2, 2⟩ holdingContracts 20 (.ofSeconds 20) before
        .empty ((List.range 60).map (· % 4))).map (·.2.tables.validators.keys) =
        some [(1, 20), (1, 30), (2, 20)] := by decide +kernel
    obtain ⟨⟨summary, w⟩, ran, keys⟩ := Option.map_eq_some_iff.1 turns
    have returned : EpochSync.Returns AnyAnswers ⟨2, 2⟩ holdingContext ⟨"1.0.0"⟩ 20 (.ofSeconds 20) before
        .empty (.ok summary) w :=
      (EpochSync.returns_of_turns found ran).mono fun answered => .inr ⟨_, answered.1⟩
    have kept := ((work_stays_at_height holdingContext before).2 _ _ _ _ _ _ _ returned).1
    exact ⟨_, w, returned, rfl, keys, kept⟩

end Work

end StakeIndex
