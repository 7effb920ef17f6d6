import StakeIndex.Proofs.Sequential

/-!
A synchronisation that is run again at the same height. What it reads comes to what it came to before,
whether or not it has been kept since; so it stores what stands already, and the closing request writes
the figures anew that the stored validators have lost.
-/
namespace StakeIndex

open Dialogue Job Tables

section Walks

variable {α : Type} {read : Nat → Except Stop α} {left id : Nat} {found found' : List α}
  {ended ended' : Bool} {stop : Stop}

theorem Walk.unique (first : Walk read left id found ended) (second : Walk read left id found' ended') :
    found = found' := by
  induction first generalizing found' with
  | full =>
    cases second
    rfl
  | ended left there =>
    cases second with
    | ended => rfl
    | next other => cases there.symm.trans other
  | next there _ ih =>
    cases second with
    | ended _ other => cases there.symm.trans other
    | next other rest =>
      cases there.symm.trans other
      rw [ih rest]

theorem Walk.not_breaks (walk : Walk read left id found ended) : ¬ Breaks read left id stop := by
  intro breaks
  induction walk with
  | full => cases breaks
  | ended left there =>
    cases breaks with
    | here _ failed other =>
      cases there.symm.trans failed
      exact other rfl
    | next other => cases there.symm.trans other
  | next there _ ih =>
    cases breaks with
    | here _ failed => cases there.symm.trans failed
    | next _ rest => exact ih rest

end Walks

namespace Tables

section Closing

variable {snapshots : List ValidatorSnapshot} {height : Nat} {time : Instant} {t t' : Tables}

/-- The figures are written once more, and each row comes out as before. -/
theorem validatorStatistics_again (distinct : (snapshots.map (·.validatorId)).Nodup)
    (same : t'.validatorStatistics =
      (t.perform (.saveValidatorSnapshots snapshots height time)).2.validatorStatistics) :
    (t'.perform (.saveValidatorSnapshots snapshots height time)).2.validatorStatistics =
      (t.perform (.saveValidatorSnapshots snapshots height time)).2.validatorStatistics := by
  apply Table.ext_find?
  rintro ⟨⟨id, figure⟩, k⟩
  have rows (k : Nat) : t'.statistic? id figure k =
      (t.perform (.saveValidatorSnapshots snapshots height time)).2.statistic? id figure k := by
    rw [statistic?, same, ← statistic?]
  rw [← statistic?, ← statistic?]
  by_cases elsewhere : k ≠ height ∨ id ∉ snapshots.map (·.validatorId)
  · rw [statistic?_saveSnapshots elsewhere, rows]
  · simp only [not_or, not_not] at elsewhere
    obtain ⟨rfl, member⟩ := elsewhere
    obtain ⟨s, among, rfl⟩ := List.mem_map.1 member
    have below : t'.amountBelow? s.validatorId figure k = t.amountBelow? s.validatorId figure k := by
      apply amountBelow?_congr
      intro j lower
      rw [rows, statistic?_saveSnapshots (.inl lower.ne)]
    rw [statistic?_saveSnapshots_self among distinct, statistic?_saveSnapshots_self among distinct, below]

/-- Validators that stood already are stored without counters, and get their counters back. -/
theorem validators_again {vs : List Validator}
    (stood : ∀ v ∈ vs, t.validators.find? (v.id, v.height) = some v)
    (distinct : (snapshots.map (·.validatorId)).Nodup)
    (rows : t'.validators = vs.foldl (fun rows v => rows.insert (v.id, v.height) v)
      (t.perform (.saveValidatorSnapshots snapshots height time)).2.validators)
    (series : t'.validatorStatistics =
      (t.perform (.saveValidatorSnapshots snapshots height time)).2.validatorStatistics) :
    (t'.perform (.saveValidatorSnapshots snapshots height time)).2.validators =
      (t.perform (.saveValidatorSnapshots snapshots height time)).2.validators := by
  have amounts := latestAmount_congr (validatorStatistics_again distinct series)
  have recounts := recounts_saveSnapshots snapshots height time t
  have recounts' := recounts_saveSnapshots snapshots height time t'
  have shown := validator?_saveSnapshots snapshots height time t
  have shown' := validator?_saveSnapshots snapshots height time t'
  set after := (t.perform (.saveValidatorSnapshots snapshots height time)).2
  set after' := (t'.perform (.saveValidatorSnapshots snapshots height time)).2
  have there {key : Word × Nat} {v : Validator}
      (last : (vs.reverse.find? fun v => (v.id, v.height) = key) = some v) :
      t.validators.find? key = some v := by
    have mine := List.find?_some last
    rw [← of_decide_eq_true mine]
    exact stood v (List.mem_reverse.1 (List.mem_of_find?_eq_some last))
  -- Only counters differ from what stood, so the same snapshots are the latest ones.
  have bare : t'.validators.map (fun _ => Validator.bare) = after.validators.map fun _ => Validator.bare := by
    apply Table.ext_find?
    intro key
    rw [recounts.bare, Table.find?_map, Table.find?_map, rows, Table.find?_insertAll]
    cases last : vs.reverse.find? fun v => (v.id, v.height) = key with
    | some v => rw [there last, Option.some_or]
    | none =>
      rw [Option.none_or, ← Table.find?_map after.validators (fun _ => Validator.bare),
        ← Table.find?_map t.validators (fun _ => Validator.bare), recounts.bare]
  have latest (id : Word) : latestKey? after'.validators id = latestKey? after.validators id := by
    rw [recounts'.latest, ← latestKey?_map t'.validators Validator.bare, bare, latestKey?_map]
  apply Table.ext_find?
  intro key
  simp only [latest, amounts] at shown'
  rw [shown', rows, Table.find?_insertAll]
  cases last : vs.reverse.find? fun v => (v.id, v.height) = key with
  | some v => rw [shown, there last, Option.some_or]
  | none =>
    rw [Option.none_or, shown, Option.map_map]
    congr 1
    funext v
    simp only [Function.comp_apply]
    split_ifs <;> simp [counting_again]

end Closing

/-- The tables without those that a synchronisation writes. -/
def unsynchronised (t : Tables) : Tables :=
  { t with validators := ∅, delegations := ∅, nodes := ∅, validatorStatistics := ∅ }

theorem eq_of_unsynchronised {s t : Tables} (validators : s.validators = t.validators)
    (delegations : s.delegations = t.delegations) (nodes : s.nodes = t.nodes)
    (series : s.validatorStatistics = t.validatorStatistics) (rest : s.unsynchronised = t.unsynchronised) :
    s = t := by
  cases s
  cases t
  simp_all [unsynchronised]

end Tables

namespace EpochSync

section Again

variable {chain : ChainAnswers} {c : SyncContracts} {height size size' : Nat} {time : Instant} {t : Tables}
  {known known' : DelegationCache} {vs : List Validator} {ns : List Node} {turns turns' : List Turn}
  {w w' : SyncWorld} {snapshots : List ValidatorSnapshot}

theorem Synchronised.unsynchronised
    (synchronised : Synchronised chain c height time t known size vs ns turns w) :
    w.tables.unsynchronised = t.unsynchronised := by
  rw [synchronised.tables]
  apply performAll_invariant (·.unsynchronised = t.unsynchronised) rfl
  intro r member t' same
  cases synchronised.stores r member <;> exact same

/-- What was found and stored once can be found and stored again, on the tables that were left. -/
theorem Synchronised.again (first : Synchronised chain c height time t known size vs ns turns w)
    (second : Synchronised chain c height time
      (w.perform (.saveValidatorSnapshots snapshots height time)).tables known' size' vs ns turns' w')
    (order : (allFound turns').Perm (allFound turns))
    (listed : snapshots.map (·.validatorId) = vs.map (·.id)) :
    (w'.perform (.saveValidatorSnapshots snapshots height time)).tables =
      (w.perform (.saveValidatorSnapshots snapshots height time)).tables := by
  have distinct : (snapshots.map (·.validatorId)).Nodup := listed ▸ first.validators_distinct
  have series := second.statisticRows
  -- The closing request leaves nodes, delegations and the other tables as they are.
  have frame {β : Type} (look : Tables → β)
      (blind : ∀ t rows series, look { t with validators := rows, validatorStatistics := series } = look t)
      (w : SyncWorld) : look (w.perform (.saveValidatorSnapshots snapshots height time)).tables =
        look w.tables := saveSnapshots_frame look blind snapshots height time w.tables
  apply eq_of_unsynchronised
  · refine validators_again ?_ distinct second.validatorRows series
    intro v member
    have keys : (vs.map fun v => (v.id, v.height)).Nodup := by
      apply List.Nodup.of_map Prod.fst
      rw [List.map_map]
      exact first.validators_distinct
    rw [first.validatorRows, Table.find?_insertAll_of_nodup keys]
    exact .inl ⟨member, rfl⟩
  · rw [frame Tables.delegations (fun _ _ _ => rfl), second.delegationRows order,
      frame Tables.delegations fun _ _ _ => rfl, first.delegationRows (.refl _), Table.insertAll_insertAll]
  · rw [frame Tables.nodes (fun _ _ _ => rfl), second.nodeRows, frame Tables.nodes fun _ _ _ => rfl,
      first.nodeRows, Table.insertAll_insertAll]
  · exact validatorStatistics_again distinct series
  · rw [frame Tables.unsynchronised (fun _ _ _ => rfl), second.unsynchronised]

end Again

section Contiguous

variable {chain : ChainAnswers} {c : ViewContract} {height n : Nat} {known : DelegationCache}

/-- The chain tells of the delegations with the first ids, and of no others. -/
structure Contiguous (chain : ChainAnswers) (c : ViewContract) (height n : Nat) : Prop where
  states : ∀ id, told chain (c.delegationState id height) = .error .empty ↔ n ≤ id.toNat
  records : ∀ id, id.toNat < n → told chain (c.delegationRecord id height) ≠ .error .empty

/-- Whatever is kept, a delegation comes to nothing exactly when there is none. -/
theorem Contiguous.recalled (contiguous : Contiguous chain c height n) (kept : Option Delegation) (id : Word) :
    recalled chain c height kept id = .error .empty ↔ n ≤ id.toNat := by
  rw [← contiguous.states]
  constructor
  · intro nothing
    cases state : told chain (c.delegationState id height) with
    | error stop =>
      rw [recalled_of_fault state] at nothing
      rw [Except.error.inj nothing]
    | ok s =>
      have there : id.toNat < n := by
        by_contra beyond
        cases state.symm.trans ((contiguous.states id).2 (Nat.le_of_not_lt beyond))
      have read := contiguous.records id there
      rw [recalled_of_state state] at nothing
      split at nothing
      · cases nothing
      · rw [told_delegation, state] at nothing
        cases record : told chain (c.delegationRecord id height) with
        | error stop =>
          rw [record] at nothing read
          cases nothing
          exact absurd rfl read
        | ok d =>
          rw [record] at nothing
          cases nothing
  · intro nothing
    exact recalled_of_fault nothing kept

theorem Contiguous.first (contiguous : Contiguous chain c height n) :
    ∀ i < topHeight, delegationAt chain c height known i = .error .empty ↔ n ≤ i := by
  intro i low
  rw [delegationAt, contiguous.recalled, toNat_ofNat (low.trans topHeight_lt)]

/-- Where all delegations were found that there are, none of them fails. -/
theorem Contiguous.not_fails (contiguous : Contiguous chain c height n) {size : Nat} {turns : List Turn}
    (shares : Shares (delegationAt chain c height known) size turns) (positive : 0 < size) {stop : Stop} :
    ¬ Fails (delegationAt chain c height known) stop := by
  rintro ⟨i, failed, other⟩
  have same : delegationAt chain c height known i = delegationAt chain c height known (Word.ofNat i).toNat := by
    rw [delegationAt, delegationAt, ofNat_toNat]
  by_cases there : (Word.ofNat i).toNat < n
  · obtain ⟨d, -, found⟩ := shares.first_found positive contiguous.first there
    cases (failed.symm.trans same).trans found
  · have nothing := (contiguous.recalled (known.find? (.ofNat i)) (.ofNat i)).2 (Nat.le_of_not_lt there)
    cases failed.symm.trans nothing
    exact other rfl

end Contiguous

section Existence

variable {chain : ChainAnswers} {c : ViewContract} {height : Nat} {known : DelegationCache}

theorem succeeds_serves : Serves (Succeeds chain height) (Faithful chain c height known)
    (partProtocol chain c height known) :=
  fun r w reply w' faithful may answered => answers_serves r w reply w' faithful may answered.1

/-- Where nothing fails, a part that runs alone ends well, unless it has a reason of its own not to. -/
theorem runs_well {α : Type} {part : Part α} {good : List Mark → α → Prop} {bad : List Mark → Stop → Prop}
    (ends : part.run.Obeys (partProtocol chain c height known) (Ends chain height good bad))
    (never : ∀ left stop, ¬ bad left stop) {w : SyncWorld} (faithful : Faithful chain c height known w) :
    ∃ a left w', Runs (Succeeds chain height) part.run w (.ok a) w' ∧ good left a ∧
      Leaves w left w' ∧ Faithful chain c height known w' := by
  have run := runs_of_run (replying_succeeds chain height) part.run w
  obtain ⟨past, promised, along, faithful⟩ := run.fulfils succeeds_serves ends faithful
  have leaves := along_leaves (along.weaken succeeds_answers)
  cases result : (part.run.run (replying chain) w).1 with
  | ok a =>
    rw [result] at run promised
    exact ⟨a, _, _, run, promised, leaves, faithful⟩
  | error stop =>
    rw [result] at promised
    rcases promised with ⟨e, member, faulty⟩ | wrong
    · obtain ⟨_, _, answered⟩ := along.allowed e member
      exact absurd faulty answered.2
    · exact absurd wrong (never _ _)

section Worker

variable {size e : Nat} (positive : 0 < size) (low : e < topHeight)
  (nothing : delegationAt chain c height known e = .error .empty)
  (never : ∀ stop, ¬ Fails (delegationAt chain c height known) stop)
include positive low nothing never

/-- A worker that is alone comes to the end when it has claimed the batch in which the end is. -/
theorem runs_to_end {fuel : Nat} (summed : Nat × StakeByValidator) {w : SyncWorld}
    (faithful : Faithful chain c height known w) (some : 0 < fuel)
    (room : w.exhausted = true ∨ w.claimed ≤ e / size ∧ e / size + 2 ≤ w.claimed + fuel) :
    ∃ summed' w', Runs (Succeeds chain height) (worker c height size fuel summed).run w (.ok summed') w' ∧
      w'.exhausted = true ∧ Faithful chain c height known w' := by
  induction fuel generalizing summed w with
  | zero => omega
  | succ fuel ih =>
    have looks : Succeeds chain height .isExhausted w w.exhausted w := ⟨⟨rfl, rfl⟩, fun wrong => wrong⟩
    cases exhausted : w.exhausted with
    | true =>
      rw [exhausted] at looks
      exact ⟨summed, w, .ask looks (.done _ _), exhausted, faithful⟩
    | false =>
      rw [exhausted] at looks room
      obtain ⟨before, enough⟩ := room.resolve_left (by simp)
      set n := w.claimed
      have claims : Succeeds chain height .claimBatch w n { w with claimed := n + 1 } :=
        ⟨⟨rfl, rfl⟩, fun wrong => wrong⟩
      have claimed : Faithful chain c height known { w with claimed := n + 1 } :=
        ⟨faithful.comes, faithful.kept⟩
      obtain ⟨summed₁, _, w₁, run, ⟨found, ended, walk, rfl, -⟩, leaves, faithful₁⟩ :=
        runs_well (ends_batch (batchLength size n) (batchStart size n) summed) (fun _ => never) claimed
      have count : w₁.claimed = n + 1 := leaves.claimed_eq (claimed_stored ..)
      have next : w₁.exhausted = true ∨ w₁.claimed ≤ e / size ∧ e / size + 2 ≤ w₁.claimed + fuel := by
        rw [leaves.exhausted, count]
        by_cases last : n = e / size
        · -- The walk through this batch cannot go past the end.
          obtain ⟨from_, below⟩ := batch_of positive low
          rw [← last] at from_ below
          cases ended with
          | true => exact .inl (.inr (by simp [Turn.stored]))
          | false =>
            have whole : found.length = batchLength size n := by
              by_contra short
              have stops := (walk.stops (lt_of_le_of_ne walk.length_le short)).1
              cases stops
            obtain ⟨d, -, there⟩ := walk.holds from_ (whole ▸ below)
            cases nothing.symm.trans there
        · exact .inr ⟨by omega, by omega⟩
      obtain ⟨summed₂, w₂, rest, ended₂, faithful₂⟩ := ih summed₁ faithful₁ (by omega) next
      refine ⟨summed₂, w₂, .ask looks (.ask claims ?_), ended₂, faithful₂⟩
      exact runs_next run rest

/-- So do any number of them, one after another. -/
theorem runs_all_to_end (others : Nat) {w : SyncWorld} (faithful : Faithful chain c height known w)
    (room : w.exhausted = true ∨ w.claimed = 0) :
    ∃ (sums : List (Nat × StakeByValidator)) (w' : SyncWorld), Interleaved (Succeeds chain height)
      (List.replicate others (PartResult.delegations <$> worker c height size registerSize (0, ∅)).run) w
      (sums.map fun summed => .ok (.delegations summed)) w' := by
  induction others generalizing w with
  | zero => exact ⟨[], w, .done [] w⟩
  | succ others ih =>
    have enough : w.exhausted = true ∨ w.claimed ≤ e / size ∧ e / size + 2 ≤ w.claimed + registerSize := by
      have small : e / size ≤ e := Nat.div_le_self e size
      have last : topHeight + 1 = registerSize := rfl
      refine room.imp_right fun start => ?_
      generalize e / size = batches at small ⊢
      omega
    obtain ⟨summed, w₁, run, ended, faithful₁⟩ :=
      runs_to_end positive low nothing never (0, ∅) faithful (Nat.two_pow_pos 64) enough
    obtain ⟨sums, w₂, rest⟩ := ih faithful₁ (.inl ended)
    exact ⟨summed :: sums, w₂, (runs_map _ run).interleaved rest⟩

end Worker

end Existence

section Whole

variable {chain : ChainAnswers} {plan plan' : SyncPlan} {context : Context} {version : Version}
  {c : SyncContracts} {height n : Nat} {time : Instant} {t : Tables} {known : DelegationCache}
  {w : SyncWorld} {summary : SyncSummary}

/-- A synchronisation can be run where all that there is can be found. -/
theorem exists_returns {vs : List Validator} {ns : List Node} {ended ended' : Bool} {e : Nat}
    (found : findContracts context version = .ok c)
    (validators : Walk (validatorAt chain c.validatorService height) (idsFrom 1) 1 vs ended)
    (nodes : Walk (nodeAt chain c.nodes height) (idsFrom 1) 1 ns ended') (low : e < topHeight)
    (nothing : delegationAt chain c.controller height known e = .error .empty)
    (never : ∀ stop, ¬ Fails (delegationAt chain c.controller height known) stop) :
    ∃ summary w, Returns (Succeeds chain height) plan context version height time t known (.ok summary) w := by
  have enough : idsFrom 1 ≤ allIds := Nat.sub_le _ _
  have unclaimed {α : Type} (f : α → StoreRequest) (found : List α) :
      (found.map fun a => Mark.wrote (f a)).filterMap Mark.claimed? = [] := by
    simp [List.filterMap_eq_nil_iff, Mark.claimed?]
  obtain ⟨ids, _, w₁, run₁, ⟨_, _, -, rfl, -⟩, leaves₁, faithful₁⟩ :=
    runs_well (ends_validators (c := c.validatorService) enough) (fun _ _ => validators.not_breaks)
      (faithful_start chain c.controller height known t)
  have reads : (Part.plain (EpochSync.nodes c.nodes height time allIds 1 (0, ∅))).run.Obeys
      (partProtocol chain c.controller height known) _ :=
    ends_nodes enough (0, ∅)
  obtain ⟨counted, _, w₂, run₂, ⟨_, _, -, rfl, -⟩, leaves₂, faithful₂⟩ :=
    runs_well reads (fun _ _ => nodes.not_breaks) faithful₁
  have fresh : w₂.claimed = 0 :=
    (leaves₂.claimed_eq (unclaimed ..)).trans (leaves₁.claimed_eq (unclaimed ..))
  obtain ⟨sums, w₃, working⟩ :=
    runs_all_to_end (batch_pos plan) low nothing never (max plan.workers 1) faithful₂ (.inr fresh)
  have all := (runs_map PartResult.validators run₁).interleaved
    ((runs_map PartResult.nodes run₂).interleaved working)
  exact ⟨_, _, .closed found all (replying_succeeds chain height (.plain (.store _)) w₃)⟩

/-- Where the chain tells of the delegations with the first ids only, a synchronisation that has succeeded
can be run again, and wherever nothing fails it succeeds again, with the same summary and the same tables;
whatever was kept before the first time, however many workers there are each time and however their requests
are interleaved. Only workers that claim more batches than the register holds are not accounted for. -/
theorem sync_again (found : findContracts context version = .ok c)
    (contiguous : Contiguous chain c.controller height n)
    (first : Returns (Answers chain) plan context version height time t known (.ok summary) w) :
    (∃ w', Returns (Succeeds chain height) plan' context version height time w.tables w.known
      (.ok summary) w' ∧ w'.tables = w.tables) ∧
    ∀ result w', Returns (Succeeds chain height) plan' context version height time w.tables w.known
      result w' → w'.claimed < registerSize → result = .ok summary ∧ w'.tables = w.tables := by
  obtain ⟨c', vs, ns, turns, before, found', synchronised, rfl, rfl⟩ := first.synchronised
  cases found.symm.trans found'
  obtain ⟨_, validators⟩ := synchronised.validators
  obtain ⟨_, nodes⟩ := synchronised.nodes
  have shares := synchronised.delegations
  have positive := batch_pos plan
  -- What is kept by now makes no difference to what a delegation comes to.
  have kept : delegationAt chain c.controller height before.known =
      delegationAt chain c.controller height known := funext fun i => synchronised.kept.comes (.ofNat i)
  have never (stop : Stop) : ¬ Fails (delegationAt chain c.controller height before.known) stop :=
    kept ▸ contiguous.not_fails shares positive
  have same : ∀ summary' w', Returns (Succeeds chain height) plan' context version height time
      (before.perform (.saveValidatorSnapshots
        (vs.map fun v => figures ns (allFound turns) v.id) height time)).tables before.known
      (.ok summary') w' → summary' = ⟨height, vs.length, ns.length, (allFound turns).length⟩ ∧
        w'.tables = (before.perform (.saveValidatorSnapshots
          (vs.map fun v => figures ns (allFound turns) v.id) height time)).tables := by
    intro summary' w' second
    obtain ⟨c', vs', ns', turns', before', found', synchronised', rfl, rfl⟩ := second.weaken.synchronised
    cases found.symm.trans found'
    obtain ⟨_, validators'⟩ := synchronised'.validators
    obtain ⟨_, nodes'⟩ := synchronised'.nodes
    obtain rfl := validators.unique validators'
    obtain rfl := nodes.unique nodes'
    have order : (allFound turns').Perm (allFound turns) := by
      have here := shares.perm_of_first positive (fun i d => delegationAt_key) contiguous.first
      have there := synchronised'.delegations.perm_of_first (batch_pos plan')
        (fun i d => delegationAt_key) contiguous.first
      rw [kept] at there
      exact there.trans here.symm
    have figures_ : (vs.map fun v => figures ns (allFound turns') v.id) =
        vs.map fun v => figures ns (allFound turns) v.id :=
      List.map_congr_left fun v _ => figures_perm order v.id
    rw [figures_, order.length_eq]
    refine ⟨rfl, synchronised.again synchronised' order ?_⟩
    rw [List.map_map]
    rfl
  constructor
  · obtain ⟨-, -, e, -, low, nothing⟩ := shares.exists_end
    rw [← kept] at nothing
    obtain ⟨summary', w', second⟩ := exists_returns found validators nodes low nothing never
    obtain ⟨rfl, tables⟩ := same summary' w' second
    exact ⟨w', second, tables⟩
  · intro result w' second few
    cases result with
    | ok summary' =>
      obtain ⟨rfl, tables⟩ := same summary' w' second
      exact ⟨rfl, tables⟩
    | error stop =>
      rcases second.breaks found with breaks | breaks | fails | ⟨-, many⟩
      · exact absurd breaks validators.not_breaks
      · exact absurd breaks nodes.not_breaks
      · exact absurd fails (never stop)
      · omega

theorem ChainHolds.contiguous {vs : List Validator} {ns : List Node} {ds : List Delegation}
    (holds : ChainHolds chain c height vs ns ds) : Contiguous chain c.controller height ds.length := by
  constructor
  · intro id
    rw [holds.states, ← heldAt_eq_empty_iff]
    cases heldAt ds 0 id.toNat <;> simp [Except.map]
  · intro id there
    rw [holds.records]
    have other := mt heldAt_eq_empty_iff.1 (Nat.not_le.2 there)
    cases held : heldAt ds 0 id.toNat with
    | ok d => simp [Except.map]
    | error stop =>
      rw [held] at other
      simpa [Except.map] using other

/-- Two workers read three delegations; then three workers, with one id in a batch, take them from what is
kept. -/
theorem sync_again_held :
    ∃ w w', Returns (Answers (holding 2 2 3)) ⟨2, 2⟩ holdingContext ⟨"1.0.0"⟩ 20 (.ofSeconds 20) .empty
        .empty (.ok ⟨20, 2, 2, 3⟩) w ∧
      Returns (Succeeds (holding 2 2 3) 20) ⟨3, 1⟩ holdingContext ⟨"1.0.0"⟩ 20 (.ofSeconds 20) w.tables
        w.known (.ok ⟨20, 2, 2, 3⟩) w' ∧ w'.tables = w.tables := by
  have found : findContracts holdingContext ⟨"1.0.0"⟩ = .ok holdingContracts := rfl
  have contiguous := (holding_holds 2 2 3 (by decide) (by decide)).contiguous
  have turns : (runInTurns (holding 2 2 3) ⟨2, 2⟩ holdingContracts 20 (.ofSeconds 20) .empty .empty
      ((List.range 60).map (· % 4))).map (·.1) = some ⟨20, 2, 2, 3⟩ := by decide +kernel
  obtain ⟨⟨_, w⟩, ran, rfl⟩ := Option.map_eq_some_iff.1 turns
  have first := (returns_of_turns found ran).weaken
  obtain ⟨w', second, tables⟩ : ∃ w', Returns (Succeeds (holding 2 2 3) 20) ⟨3, 1⟩ holdingContext ⟨"1.0.0"⟩
      20 (.ofSeconds 20) w.tables w.known (.ok ⟨20, 2, 2, 3⟩) w' ∧ w'.tables = w.tables :=
    (sync_again found contiguous first).1
  exact ⟨w, w', first, second, tables⟩

end Whole

end EpochSync

end StakeIndex
