import StakeIndex.Proofs.SyncTotals

/-!
A synchronisation that reads one thing after another is one way to run the parts of it: first all validators
are read, then all nodes, then one worker reads all delegations, and the others find that they have come to
an end. If it stops, the parts behind it have not begun.
-/
namespace StakeIndex

open Dialogue Job

/-- The same world with the workers at another point. -/
def SyncWorld.workersAt (w : SyncWorld) (claimed : Nat) (exhausted : Bool) : SyncWorld :=
  { w with claimed, exhausted }

section Aside

variable {chain : ChainAnswers} {w w' : SyncWorld} {ρ : Type}

theorem answers_aside {r : Request} {reply : r.Answer} (answered : Answers chain (.plain r) w reply w')
    (claimed : Nat) (exhausted : Bool) :
    Answers chain (.plain r) (w.workersAt claimed exhausted) reply (w'.workersAt claimed exhausted) := by
  cases r with
  | chain r =>
    obtain ⟨replied, rfl⟩ := answered
    exact ⟨replied, rfl⟩
  | store r =>
    obtain ⟨rfl, rfl⟩ | ⟨stop, rfl, rfl⟩ := answered
    · exact .inl ⟨rfl, rfl⟩
    · exact .inr ⟨stop, rfl, rfl⟩
  | shared r =>
    cases r with
    | knownDelegation id =>
      obtain ⟨rfl, rfl⟩ := answered
      exact ⟨rfl, rfl⟩
    | _ =>
      cases answered
      rfl

theorem runs_aside {α : Type} {job : Job α} {result : Except Stop α}
    (run : Runs (Answers chain) (Part.plain job).run w result w') (claimed : Nat) (exhausted : Bool) :
    Runs (Answers chain) (Part.plain job).run (w.workersAt claimed exhausted) result
      (w'.workersAt claimed exhausted) := by
  change Runs _ (job.run.mapRequests _) _ _ _ at run
  change Runs _ (job.run.mapRequests _) _ _ _
  generalize job.run = steps at run
  induction steps generalizing w with
  | done result =>
    cases run
    exact .done result _
  | ask r next ih =>
    cases run with
    | ask answered rest => exact .ask (answers_aside answered claimed exhausted) (ih _ rest)

end Aside

section Parts

variable {α β : Type} {allows : (r : PartRequest) → SyncWorld → r.Answer → SyncWorld → Prop}
  {s s' s'' : SyncWorld} {part : Part α}

theorem runs_stop {f : α → Part β} {stop : Stop} (run : Runs allows part.run s (.error stop) s') :
    Runs allows (part >>= f).run s (.error stop) s' := runs_except_iff.2 (.inl ⟨stop, run, rfl⟩)

theorem runs_next {f : α → Part β} {a : α} {result : Except Stop β} (run : Runs allows part.run s (.ok a) s')
    (next : Runs allows (f a).run s' result s'') : Runs allows (part >>= f).run s result s'' :=
  runs_except_iff.2 (.inr ⟨a, s', run, next⟩)

theorem runs_map {result : Except Stop α} (f : α → β) (run : Runs allows part.run s result s') :
    Runs allows (f <$> part).run s (result.map f) s' := by
  rw [map_eq_pure_bind]
  cases result with
  | error stop => exact runs_stop run
  | ok a => exact runs_next run (.done (Except.ok (f a)) s')

theorem runs_plain_bind {job : Job α} {f : α → Job β} {result : Except Stop β} :
    Runs allows (Part.plain (job >>= f)).run s result s'' ↔
      (∃ stop, Runs allows (Part.plain job).run s (.error stop) s'' ∧ result = .error stop) ∨
      ∃ a s', Runs allows (Part.plain job).run s (.ok a) s' ∧
        Runs allows (Part.plain (f a)).run s' result s'' := by
  rw [Part.plain_bind]
  exact runs_except_iff

end Parts

namespace EpochSync

section Working

variable {chain : ChainAnswers} {c : ViewContract} {height size : Nat} {w w' : SyncWorld}
  {summed : Nat × StakeByValidator} {result : Except Stop (Nat × StakeByValidator)}

/-- How many delegations were stored. -/
def savedCount (w : SyncWorld) : Nat := (savedDelegations w.written).length

theorem savedCount_le {ρ : Type} {d : Dialogue PartRequest PartRequest.Answer ρ} {result : ρ}
    (run : Runs (Answers chain) d w result w') : savedCount w ≤ savedCount w' := by
  induction run with
  | done => exact Nat.le_refl _
  | ask answered _ ih =>
    refine Nat.le_trans ?_ ih
    unfold savedCount savedDelegations
    rw [(answers_leaves answered).written, List.filterMap_append, List.length_append]
    exact Nat.le_add_right ..

theorem savedCount_store {d : Delegation} {a : Unit}
    (run : Runs (Answers chain) (Part.plain (.store (.saveDelegation d))).run w (.ok a) w') :
    savedCount w' = savedCount w + 1 := by
  cases run with
  | ask answered rest =>
    cases rest
    obtain ⟨-, rfl⟩ | ⟨_, wrong, -⟩ := answered
    · rw [savedCount, SyncWorld.perform, savedDelegations, List.filterMap_append, List.length_append]
      rfl
    · cases wrong

theorem next_ofNat {id : Nat} (low : id < topHeight) : (Word.ofNat id).next? = some (.ofNat (id + 1)) := by
  have fits : id + 1 < allIds := Nat.lt_of_le_of_lt low topHeight_lt
  have place : (Word.ofNat id).toNat = id := toNat_ofNat (Nat.lt_of_succ_lt fits)
  unfold Word.next? Word.ofNat?
  rw [place]
  exact (dif_pos (show id + 1 < 1 <<< 256 from fits)).trans
    (congrArg some (Word.ext (toNat_ofNat fits).symm))

/-- A batch that is claimed when all ids before it are read begins with the next id. -/
theorem batch_next (positive : 0 < size) {id claimed : Nat} (low : id < topHeight)
    (next : id = batchStart size claimed) :
    claimed ≤ id ∧ ∃ left, batchLength size claimed = left + 1 ∧
      id + (left + 1) = batchStart size (claimed + 1) := by
  have whole : claimed * size = id := by
    unfold batchStart at next
    omega
  have enough : claimed ≤ claimed * size := Nat.le_mul_of_pos_right claimed positive
  have after : (claimed + 1) * size = id + size := by rw [Nat.succ_mul, whole]
  refine ⟨whole ▸ enough, batchLength size claimed - 1, ?_⟩
  unfold batchLength
  rw [← next, batchStart, after]
  omega

theorem runs_ended {claimed turns : Nat} :
    Runs (Answers chain) (worker c height size (turns + 1) summed).run (w.workersAt claimed true)
      (.ok summed) (w.workersAt claimed true) :=
  have seen : Answers chain .isExhausted (w.workersAt claimed true) true (w.workersAt claimed true) :=
    ⟨rfl, rfl⟩
  .ask seen (.done (Except.ok summed) _)

theorem runs_claim {id claimed turns : Nat}
    (run : Runs (Answers chain)
      (batch c height (batchLength size claimed) (batchStart size claimed) summed >>=
        worker c height size turns).run (w.workersAt (claimed + 1) false) result w') :
    Runs (Answers chain) (batch c height 0 id summed >>= worker c height size (turns + 1)).run
      (w.workersAt claimed false) result w' :=
  .ask ⟨rfl, rfl⟩ (.ask ⟨rfl, rfl⟩ run)

/-- A worker that is alone reads what is left of its batch and then further batches, which is to read one
delegation after another, up to the end or to a failure. -/
theorem runs_working (positive : 0 < size) {fuel id left claimed turns : Nat}
    (run : Runs (Answers chain) (Part.plain (delegations c height fuel (.ofNat id) summed)).run w
      result w')
    (stored : id ≤ savedCount w) (few : savedCount w' < topHeight) (whole : id + fuel = registerSize)
    (batch_ : id + left = batchStart size claimed) (room : 0 < turns)
    (turns_ : turns + claimed = registerSize) :
    ∃ claimed', Runs (Answers chain) (batch c height left id summed >>= worker c height size turns).run
      (w.workersAt claimed false) result (w'.workersAt claimed' result.isOk) := by
  have low : id < topHeight := (stored.trans (savedCount_le run)).trans_lt few
  induction fuel generalizing id left claimed turns summed w with
  | zero =>
    have : topHeight < registerSize := Nat.sub_lt (Nat.two_pow_pos 64) Nat.one_pos
    omega
  | succ fuel ih =>
    -- As long as the batch has ids left, the worker asks what the other program asks.
    have reads {left claimed turns : Nat} (batch_ : id + (left + 1) = batchStart size claimed)
        (room : 0 < turns) (turns_ : turns + claimed = registerSize) :
        ∃ claimed', Runs (Answers chain)
          (batch c height (left + 1) id summed >>= worker c height size turns).run
          (w.workersAt claimed false) result (w'.workersAt claimed' result.isOk) := by
      obtain ⟨turns, rfl⟩ := Nat.exists_eq_add_one.2 room
      obtain ⟨stop, read, rfl⟩ | ⟨found, w₁, read, rest⟩ := runs_plain_bind.1 run
      · exact ⟨claimed, runs_stop (runs_stop (runs_aside read claimed false))⟩
      have before := savedCount_le read
      have read := runs_aside read claimed false
      cases found with
      | none =>
        cases rest
        have ended : Answers chain .exhaust (w'.workersAt claimed false) () (w'.workersAt claimed true) := rfl
        refine ⟨claimed, runs_next (a := summed) ?_ runs_ended⟩
        exact runs_next (a := none) read (.ask ended (.done _ _))
      | some d =>
        obtain ⟨stop, store, rfl⟩ | ⟨⟨⟩, w₂, store, rest⟩ := runs_plain_bind.1 rest
        · refine ⟨claimed, runs_stop (runs_next (a := some d) read (runs_stop ?_))⟩
          exact runs_aside store claimed false
        rw [next_ofNat low] at rest
        have next : id + 1 + left = batchStart size claimed := by omega
        have stored : id + 1 ≤ savedCount w₂ := by
          rw [savedCount_store store]
          omega
        have low := (stored.trans (savedCount_le rest)).trans_lt few
        obtain ⟨claimed', after⟩ := ih rest stored (by omega) next room turns_ low
        refine ⟨claimed', ?_⟩
        obtain ⟨stop, batched, rfl⟩ | ⟨last, w₃, batched, working⟩ := runs_except_iff.1 after
        · refine runs_stop (runs_next (a := some d) read ?_)
          exact runs_next (runs_aside store claimed false) batched
        · refine runs_next (a := last) (runs_next (a := some d) read ?_) working
          exact runs_next (runs_aside store claimed false) batched
    cases left with
    | succ left => exact reads batch_ room turns_
    | zero =>
      -- Else it claims a batch, which begins with the next id, since nobody else has claimed any.
      obtain ⟨turns, rfl⟩ := Nat.exists_eq_add_one.2 room
      obtain ⟨before, left, length, ends⟩ := batch_next positive low batch_
      have more : 0 < turns := by
        unfold registerSize at turns_
        unfold topHeight at low
        omega
      obtain ⟨claimed', after⟩ := reads ends more (by omega)
      refine ⟨claimed', runs_claim ?_⟩
      rw [length, ← batch_]
      exact after

theorem runs_alone (positive : 0 < size)
    (run : Runs (Answers chain) (Part.plain (delegations c height registerSize 0 (0, ∅))).run w result w')
    (few : savedCount w' < topHeight) :
    ∃ claimed, Runs (Answers chain) (worker c height size registerSize (0, ∅)).run (w.workersAt 0 false)
      result (w'.workersAt claimed result.isOk) := by
  have first : 0 + 0 = batchStart size 0 := by
    unfold batchStart
    rw [Nat.zero_mul, Nat.zero_min]
  have room : 0 < registerSize := Nat.two_pow_pos 64
  exact runs_working positive run (Nat.zero_le _) few (Nat.zero_add _) first room (Nat.add_zero _)

end Working

section Merging

variable {summed : Nat × StakeByValidator}

theorem mergeStakes_empty (stakes : StakeByValidator) : mergeStakes ∅ stakes = stakes := by
  refine Table.ext_find? fun id => ?_
  rw [find?_mergeStakes]
  cases stakes.find? id with
  | none => rfl
  | some amount => exact congrArg some (Word.zero_saturatingAdd amount)

theorem mergeAll_alone (others : Nat) : mergeAll (summed :: List.replicate others (0, ∅)) = summed := by
  have first : ((0 : Nat) + summed.1, mergeStakes ∅ summed.2) = summed := by
    rw [Nat.zero_add, mergeStakes_empty]
  rw [mergeAll, List.foldl_cons, first]
  induction others with
  | zero => rfl
  | succ others ih => exact ih

end Merging

section Run

variable {chain : ChainAnswers} {plan : SyncPlan} {context : Context} {version : Version}
  {height : Nat} {time : Instant} {t : Tables} {known : DelegationCache} {w : SyncWorld}
  {result : Except Stop SyncSummary}

theorem others_end {c : ViewContract} {size claimed : Nat} (others : Nat) :
    Interleaved (Answers chain)
      (List.replicate others (PartResult.delegations <$> worker c height size registerSize (0, ∅)).run)
      (w.workersAt claimed true) (List.replicate others (.ok (.delegations (0, ∅))))
      (w.workersAt claimed true) := by
  induction others with
  | zero => exact .done [] _
  | succ others ih => exact (runs_map _ runs_ended).interleaved ih

section Alone

variable (plan) {c : ViewContract} {w' : SyncWorld} (few : savedCount w' < topHeight)
include few

/-- The first worker reads all delegations, and the others find nothing. -/
theorem workers_alone {summed : Nat × StakeByValidator}
    (ran : Runs (Answers chain) (Part.plain (delegations c height registerSize 0 (0, ∅))).run w
      (.ok summed) w') :
    ∃ sums claimed, Interleaved (Answers chain) (workers plan c height) (w.workersAt 0 false)
      (sums.map fun summed => .ok (.delegations summed)) (w'.workersAt claimed true) ∧
        mergeAll sums = summed := by
  obtain ⟨claimed, working⟩ := runs_alone (batch_pos plan) ran few
  obtain ⟨others, number⟩ := Nat.exists_eq_add_one.2 (workers_pos plan)
  refine ⟨summed :: List.replicate others (0, ∅), claimed, ?_, mergeAll_alone others⟩
  rw [List.map_cons, List.map_replicate, workers, number, List.replicate_succ]
  exact (runs_map PartResult.delegations working).interleaved (others_end others)

/-- If it stops, the others have not begun. -/
theorem workers_stop {stop : Stop}
    (ran : Runs (Answers chain) (Part.plain (delegations c height registerSize 0 (0, ∅))).run w
      (.error stop) w') (before : List (PartSteps PartResult)) :
    ∃ pool claimed, Reached (Answers chain) (before ++ workers plan c height) (w.workersAt 0 false) pool
      (w'.workersAt claimed false) ∧ .done (.error stop) ∈ pool := by
  obtain ⟨claimed, working⟩ := runs_alone (batch_pos plan) ran few
  obtain ⟨others, number⟩ := Nat.exists_eq_add_one.2 (workers_pos plan)
  have reached := (runs_map PartResult.delegations working).reached before (List.replicate others
    (PartResult.delegations <$> worker c height (max plan.batchSize 1) registerSize (0, ∅)).run)
  rw [← List.replicate_succ, ← number] at reached
  exact ⟨_, claimed, reached, List.mem_append_right _ List.mem_cons_self⟩

end Alone

theorem runs_store {r : StoreRequest} {reply : Except Stop r.Result} {w' : SyncWorld}
    (ran : Runs (Answers chain) (Part.plain (.store r)).run w reply w') :
    Answers chain (.plain (.store r)) w reply w' := by
  cases ran with
  | ask answered rest =>
    cases rest
    exact answered

/-- All contracts are looked up before anything is read. -/
theorem run_eq : run context version height time = do
    let c ← lift (findContracts context version)
    let ids ← validators c.validatorService height allIds 1
    let counted ← nodes c.nodes height time allIds 1 (0, ∅)
    let summed ← delegations c.controller height registerSize 0 (0, ∅)
    store (closing ids counted.2 summed.2 height time)
    return ⟨height, ids.length, counted.1, summed.1⟩ := by
  unfold run findContracts ViewContract.find
  dsimp only
  cases context.registry.require .validatorService version with
  | error failure => rfl
  | ok service =>
    cases context.registry.require .nodes version with
    | error failure => rfl
    | ok node =>
      cases context.registry.require .delegationController version with
      | error failure => rfl
      | ok controller => rfl

/-- A synchronisation that reads one thing after another, and does not come to the end of the ids, is one
way to run the parts, whatever the plan is and whether it is completed or stops. -/
theorem returns_of_run
    (ran : Runs (Answers chain) (Part.plain (run context version height time)).run (.start t known)
      result w) (few : savedCount w < topHeight) :
    ∃ claimed exhausted, Returns (Answers chain) plan context version height time t known result
      (w.workersAt claimed exhausted) := by
  rw [run_eq] at ran
  cases found : findContracts context version with
  | error failure =>
    rw [found] at ran
    cases ran
    exact ⟨0, false, .unknown found⟩
  | ok c =>
    rw [found] at ran
    change Runs (Answers chain) (Part.plain (do
      let ids ← validators c.validatorService height allIds 1
      let counted ← nodes c.nodes height time allIds 1 (0, ∅)
      let summed ← delegations c.controller height registerSize 0 (0, ∅)
      store (closing ids counted.2 summed.2 height time)
      return (⟨height, ids.length, counted.1, summed.1⟩ : SyncSummary))).run _ _ _ at ran
    obtain ⟨stop, validated, rfl⟩ | ⟨ids, w₁, validated, ran⟩ := runs_plain_bind.1 ran
    · have first := runs_map PartResult.validators (runs_aside validated 0 false)
      exact ⟨0, false, .stopped found (first.reached [] _) List.mem_cons_self⟩
    have first := runs_map PartResult.validators (runs_aside validated 0 false)
    obtain ⟨stop, noded, rfl⟩ | ⟨counted, w₂, noded, ran⟩ := runs_plain_bind.1 ran
    · have second := runs_map PartResult.nodes (runs_aside noded 0 false)
      exact ⟨0, false, .stopped found ((first.reached [] _).trans (second.reached [_] _))
        (List.mem_cons_of_mem _ List.mem_cons_self)⟩
    have second := runs_map PartResult.nodes (runs_aside noded 0 false)
    obtain ⟨stop, delegated, rfl⟩ | ⟨summed, w₃, delegated, ran⟩ := runs_plain_bind.1 ran
    · obtain ⟨pool, claimed, working, ended⟩ := workers_stop plan few delegated [_, _]
      exact ⟨claimed, false, .stopped found
        ((first.reached [] _).trans ((second.reached [_] _).trans working)) ended⟩
    have few₃ := (savedCount_le ran).trans_lt few
    obtain ⟨sums, claimed, working, rfl⟩ := workers_alone plan few₃ delegated
    have all := first.interleaved (second.interleaved working)
    refine ⟨claimed, true, ?_⟩
    obtain ⟨stop, refused, rfl⟩ | ⟨⟨⟩, w₄, closed, ran⟩ := runs_plain_bind.1 ran
    · exact .closed found all (answers_aside (runs_store refused) claimed true)
    · cases ran
      exact .closed found all (answers_aside (runs_store closed) claimed true)

end Run

end EpochSync

end StakeIndex
