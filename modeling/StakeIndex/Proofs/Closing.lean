import Mathlib.Data.List.Induction
import StakeIndex.Proofs.Reorder

/-!
The request that closes a synchronisation. It writes the figures of some validators at one height. Each
series then shows there what was written, whatever stood below; and the latest snapshots of these validators
show the latest amounts, while nothing else in the table of validators changes.
-/
namespace StakeIndex.Tables

section Latest

variable {rows : Table (Word × Nat) Validator}

/-- The key of the latest snapshot of a validator. -/
def latestKey? (rows : Table (Word × Nat) Validator) (id : Word) : Option (Word × Nat) :=
  (rows.last? fun key => key.1 == id).map (·.1)

theorem latestKey?_map (rows : Table (Word × Nat) Validator) (f : Validator → Validator) (id : Word) :
    latestKey? (rows.map fun _ => f) id = latestKey? rows id := by
  rw [latestKey?, Table.last?_map, Option.map_map]
  rfl

theorem latestKey?_withCounter (rows : Table (Word × Nat) Validator) (id other : Word)
    (figure : ValidatorFigure) (amount : Word) :
    latestKey? (withCounter rows id figure amount) other = latestKey? rows other := by
  rw [latestKey?, last?_withCounter, Option.map_map]
  rfl

theorem find?_withCounter_of_earlier {id : Word} {key : Word × Nat} (figure : ValidatorFigure)
    (amount : Word) (earlier : latestKey? rows id ≠ some key) :
    (withCounter rows id figure amount).find? key = rows.find? key := by
  cases last : rows.last? fun key => key.1 == id with
  | none => rw [withCounter_of_none last]
  | some e =>
    obtain ⟨latest, v⟩ := e
    rw [withCounter_of_last last, Table.find?_insert_ne]
    rintro rfl
    exact earlier (congrArg (Option.map Prod.fst) last)

theorem counter_counting (v : Validator) (amounts : ValidatorFigure → Word) (figure : ValidatorFigure) :
    (counting v amounts).counter figure = amounts figure := by
  cases figure <;> rfl

theorem bare_counting (v : Validator) (amounts : ValidatorFigure → Word) :
    (counting v amounts).bare = v.bare := rfl

/-- Rows of the validators of which only counters have changed, on the latest snapshots of some
validators. -/
structure Recounts (ids : List Word) (rows rows' : Table (Word × Nat) Validator) : Prop where
  latest : ∀ id, latestKey? rows' id = latestKey? rows id
  bare : rows'.map (fun _ => Validator.bare) = rows.map fun _ => Validator.bare
  others : ∀ key, (key.1 ∈ ids → latestKey? rows key.1 ≠ some key) → rows'.find? key = rows.find? key

theorem recounts_refl (ids : List Word) (rows : Table (Word × Nat) Validator) : Recounts ids rows rows :=
  ⟨fun _ => rfl, rfl, fun _ _ => rfl⟩

theorem Recounts.withCounter {ids : List Word} {rows' : Table (Word × Nat) Validator} {id : Word}
    (recounts : Recounts ids rows rows') (member : id ∈ ids) (figure : ValidatorFigure) (amount : Word) :
    Recounts ids rows (withCounter rows' id figure amount) where
  latest other := (latestKey?_withCounter ..).trans (recounts.latest other)
  bare := (map_bare_withCounter ..).trans recounts.bare
  others key earlier := by
    refine (find?_withCounter_of_earlier figure amount fun latest => ?_).trans (recounts.others key earlier)
    have mine : key.1 = id := by
      obtain ⟨e, last, same⟩ := Option.map_eq_some_iff.1 latest
      have own := (Table.last?_eq_some_iff.1 last).2.1
      rw [same] at own
      exact eq_of_beq own
    rw [recounts.latest, ← mine] at latest
    exact earlier (mine ▸ member) latest

end Latest

section Snapshots

variable {snapshots : List ValidatorSnapshot} {height : Nat} {time : Instant} {t : Tables}

/-- What each figure that is written keeps holds in the end. -/
theorem saveSnapshots_invariant (holds : Tables → Prop) (start : holds t)
    (keeps : ∀ s ∈ snapshots, ∀ figure amount t, holds t →
      holds (t.writeFigure ⟨s.validatorId, height, time⟩ figure amount)) :
    holds (t.perform (.saveValidatorSnapshots snapshots height time)).2 := by
  change holds (snapshots.foldl (fun t s => t.saveSnapshot height time s) t)
  induction snapshots generalizing t with
  | nil => exact start
  | cons s rest ih =>
    obtain ⟨first, others⟩ := List.forall_mem_cons.1 keeps
    refine ih ?_ others
    exact first _ _ _ (first _ _ _ (first _ _ _ start))

theorem recounts_saveSnapshots (snapshots : List ValidatorSnapshot) (height : Nat) (time : Instant)
    (t : Tables) : Recounts (snapshots.map (·.validatorId)) t.validators
      (t.perform (.saveValidatorSnapshots snapshots height time)).2.validators := by
  refine saveSnapshots_invariant (fun t' => Recounts _ t.validators t'.validators)
    (recounts_refl _ _) fun s member figure amount t' recounts => ?_
  rw [writeFigure_eq]
  exact recounts.withCounter (List.mem_map_of_mem member) figure _

/-- The latest snapshots of the validators show their latest amounts, and no other row changes. -/
theorem validator?_saveSnapshots (snapshots : List ValidatorSnapshot) (height : Nat) (time : Instant)
    (t : Tables) (key : Word × Nat) :
    let after := (t.perform (.saveValidatorSnapshots snapshots height time)).2
    after.validators.find? key = (t.validators.find? key).map fun v =>
      if key.1 ∈ snapshots.map (·.validatorId) ∧ latestKey? after.validators key.1 = some key then
        counting v (after.latestAmount key.1)
      else v := by
  intro after
  have recounts := recounts_saveSnapshots snapshots height time t
  by_cases latest : key.1 ∈ snapshots.map (·.validatorId) ∧ latestKey? after.validators key.1 = some key
  · obtain ⟨member, latest_⟩ := latest
    obtain ⟨⟨key, v⟩, last, rfl⟩ := Option.map_eq_some_iff.1 latest_
    obtain ⟨found, -, -⟩ := Table.last?_eq_some_iff.1 last
    have bare : (t.validators.find? key).map Validator.bare = some v.bare := by
      rw [← Table.find?_map t.validators (fun _ => Validator.bare), ← recounts.bare, Table.find?_map]
      exact congrArg (Option.map Validator.bare) found
    obtain ⟨old, stood, same⟩ := Option.map_eq_some_iff.1 bare
    obtain ⟨s, among, mine⟩ := List.mem_map.1 member
    rw [found, stood, Option.map_some, if_pos ⟨member, latest_⟩]
    refine congrArg some (Validator.eq_of_bare (same.symm.trans (bare_counting ..).symm) fun figure => ?_)
    rw [counter_counting]
    have shows := saveValidatorSnapshots_shows among height time t figure
    rw [mine] at shows
    exact shows _ v last
  · have old : after.validators.find? key = t.validators.find? key := by
      refine recounts.others key fun member before => latest ⟨member, ?_⟩
      rw [recounts.latest, before]
    simp only [if_neg latest, old, Option.map_id']

/-- What looks neither at the series nor at the validators is not changed. -/
theorem saveSnapshots_frame {β : Type} (look : Tables → β)
    (blind : ∀ t rows series, look { t with validators := rows, validatorStatistics := series } = look t)
    (snapshots : List ValidatorSnapshot) (height : Nat) (time : Instant) (t : Tables) :
    look (t.perform (.saveValidatorSnapshots snapshots height time)).2 = look t := by
  refine saveSnapshots_invariant (fun t' => look t' = look t) rfl fun s _ figure amount t' same => ?_
  rw [writeFigure_eq]
  exact (blind t' _ _).trans same

/-- Accounts, delegations and the events of the contracts change only when one is saved. -/
theorem perform_frame (r : StoreRequest) (t : Tables) :
    (r.account? = none → (t.perform r).2.accounts = t.accounts) ∧
      (r.delegation? = none → (t.perform r).2.delegations = t.delegations) ∧
      (r.contractEvent? = none → (t.perform r).2.contractEvents = t.contractEvents) := by
  cases r with
  | saveAccount a => exact ⟨nofun, fun _ => rfl, fun _ => rfl⟩
  | saveDelegation d => exact ⟨fun _ => rfl, nofun, fun _ => rfl⟩
  | saveContractEvent e =>
    exact ⟨fun _ => saveContractEvent_frame accounts (fun _ _ _ => rfl) e t,
      fun _ => saveContractEvent_frame Tables.delegations (fun _ _ _ => rfl) e t, nofun⟩
  | updateCounts id =>
    have same : (t.perform (.updateCounts id)).2 = { t with validators := _ } := updateCounts_eq t id
    rw [same]
    exact ⟨fun _ => rfl, fun _ => rfl, fun _ => rfl⟩
  | calculate figure at_ =>
    exact ⟨fun _ => calculate_frame accounts (fun _ _ _ => rfl) figure at_ t,
      fun _ => calculate_frame Tables.delegations (fun _ _ _ => rfl) figure at_ t,
      fun _ => calculate_frame contractEvents (fun _ _ _ => rfl) figure at_ t⟩
  | saveValidatorSnapshots snapshots height time =>
    exact ⟨fun _ => saveSnapshots_frame accounts (fun _ _ _ => rfl) snapshots height time t,
      fun _ => saveSnapshots_frame Tables.delegations (fun _ _ _ => rfl) snapshots height time t,
      fun _ => saveSnapshots_frame contractEvents (fun _ _ _ => rfl) snapshots height time t⟩
  | _ => exact ⟨fun _ => rfl, fun _ => rfl, fun _ => rfl⟩

section SaveAll

variable {writes : List ValidatorStatistic} {s : ValidatorStatistic} (member : s ∈ writes)
  (same : ∀ w ∈ writes, w.validatorId = s.validatorId → w.figure = s.figure →
    w.height = s.height ∧ w.amount = s.amount) (t : Tables)
include member same

/-- Where all writes to a series at a height carry one amount, and nothing lower is written, the last of
them decides whether there is a row. -/
theorem statistic?_saveAll_last :
    ∃ w ∈ writes, (w.validatorId = s.validatorId ∧ w.figure = s.figure) ∧
      (writes.foldl saveValidatorStatistic t).statistic? s.validatorId s.figure s.height =
        if t.amountBelow? s.validatorId s.figure s.height = some s.amount then none else some w := by
  have last : ∃ earlier w later, writes = earlier ++ w :: later ∧
      (w.validatorId = s.validatorId ∧ w.figure = s.figure) ∧
        ∀ w ∈ later, ¬ (w.validatorId = s.validatorId ∧ w.figure = s.figure) := by
    clear same
    induction writes using List.reverseRecOn with
    | nil => cases member
    | append_singleton ws w ih =>
      by_cases mine : w.validatorId = s.validatorId ∧ w.figure = s.figure
      · exact ⟨ws, w, [], rfl, mine, fun _ wrong => (nomatch wrong)⟩
      · have other : s ∈ ws := by
          obtain member | member := List.mem_append.1 member
          · exact member
          · exact absurd (List.mem_singleton.1 member ▸ ⟨rfl, rfl⟩) mine
        obtain ⟨earlier, w', later, rfl, mine', others⟩ := ih other
        refine ⟨earlier, w', later ++ [w], by simp, mine', fun w' among => ?_⟩
        obtain among | among := List.mem_append.1 among
        · exact others w' among
        · exact List.mem_singleton.1 among ▸ mine
  obtain ⟨earlier, w, later, rfl, ⟨mine, mine'⟩, others⟩ := last
  obtain ⟨at_, amount⟩ := same w (by simp) mine mine'
  have below : (earlier.foldl saveValidatorStatistic t).amountBelow? s.validatorId s.figure s.height =
      t.amountBelow? s.validatorId s.figure s.height :=
    amountBelow?_saveAll fun w' among mine mine' => (same w' (by simp [among]) mine mine').1.ge
  refine ⟨w, by simp, ⟨mine, mine'⟩, ?_⟩
  rw [← below, ← mine, ← mine', ← at_, ← amount, List.foldl_append, List.foldl_cons, statistic?_saveAll,
    statistic?_save_self]
  exact fun w' member same same' _ => others w' member ⟨same.trans mine, same'.trans mine'⟩

/-- Either way the series shows the amount there. -/
theorem shows_saveAll : (writes.foldl saveValidatorStatistic t).Shows s := by
  have shown : (writes.foldl saveValidatorStatistic t).amountBelow? s.validatorId s.figure s.height =
      t.amountBelow? s.validatorId s.figure s.height :=
    amountBelow?_saveAll fun w member mine mine' => (same w member mine mine').1.ge
  obtain ⟨w, written, ⟨mine, mine'⟩, row⟩ := statistic?_saveAll_last member same t
  rw [Shows, amountAt?_eq, row, shown]
  by_cases left_out : t.amountBelow? s.validatorId s.figure s.height = some s.amount
  · rw [if_pos left_out]
    exact ⟨left_out, fun _ wrong => (nomatch wrong)⟩
  · rw [if_neg left_out]
    have amount := (same w written mine mine').2
    refine ⟨congrArg some amount, fun w' found => ?_⟩
    cases found
    rwa [amount]

end SaveAll

section Written

variable {s : ValidatorSnapshot} (member : s ∈ snapshots)
  (distinct : (snapshots.map (·.validatorId)).Nodup)
include member

/-- A figure of a validator is among those that are written. -/
theorem mem_figuresWritten (height : Nat) (time : Instant) (t : Tables) (figure : ValidatorFigure) :
    ⟨s.validatorId, height, time, figure, s.amount figure⟩ ∈
      t.figuresWritten (.saveValidatorSnapshots snapshots height time) := by
  refine List.mem_flatMap.2 ⟨s, member, List.mem_map.2 ⟨figure, ?_, rfl⟩⟩
  cases figure <;> simp

include distinct

/-- It is written once. -/
theorem figuresWritten_unique {w : ValidatorStatistic} {figure : ValidatorFigure}
    (written : w ∈ t.figuresWritten (.saveValidatorSnapshots snapshots height time))
    (mine : w.validatorId = s.validatorId) (mine' : w.figure = figure) :
    w = ⟨s.validatorId, height, time, figure, s.amount figure⟩ := by
  obtain ⟨s', member', written⟩ := List.mem_flatMap.1 written
  obtain ⟨figure', -, rfl⟩ := List.mem_map.1 written
  obtain rfl : figure' = figure := mine'
  rw [List.inj_on_of_nodup_map distinct member' member mine]

theorem saveSnapshots_shows (height : Nat) (time : Instant) (t : Tables) (figure : ValidatorFigure) :
    (t.perform (.saveValidatorSnapshots snapshots height time)).2.Shows
      ⟨s.validatorId, height, time, figure, s.amount figure⟩ := by
  have shows : ((t.figuresWritten (.saveValidatorSnapshots snapshots height time)).foldl
      saveValidatorStatistic t).Shows ⟨s.validatorId, height, time, figure, s.amount figure⟩ := by
    refine shows_saveAll (mem_figuresWritten member height time t figure) (fun w written mine mine' => ?_) t
    rw [figuresWritten_unique member distinct written mine mine']
    exact ⟨rfl, rfl⟩
  unfold Shows amountAt? amountBelow? lastStatistic? statistic? at shows ⊢
  rwa [validatorStatistics_perform]

/-- The row of a figure is what was written, or left out where the series shows that amount already. -/
theorem statistic?_saveSnapshots_self (height : Nat) (time : Instant) (t : Tables)
    (figure : ValidatorFigure) :
    (t.perform (.saveValidatorSnapshots snapshots height time)).2.statistic? s.validatorId figure height =
      if t.amountBelow? s.validatorId figure height = some (s.amount figure) then none
      else some ⟨s.validatorId, height, time, figure, s.amount figure⟩ := by
  obtain ⟨w, written, ⟨mine, mine'⟩, row⟩ := statistic?_saveAll_last
    (mem_figuresWritten member height time t figure) (fun w written mine mine' => by
      rw [figuresWritten_unique member distinct written mine mine']
      exact ⟨rfl, rfl⟩) t
  rw [figuresWritten_unique member distinct written mine mine'] at row
  rwa [statistic?, validatorStatistics_perform]

end Written

theorem statistic?_saveSnapshots {id : Word} {k : Nat}
    (elsewhere : k ≠ height ∨ id ∉ snapshots.map (·.validatorId)) (time : Instant) (t : Tables)
    (figure : ValidatorFigure) :
    (t.perform (.saveValidatorSnapshots snapshots height time)).2.statistic? id figure k =
      t.statistic? id figure k := by
  rw [statistic?, validatorStatistics_perform, ← statistic?]
  refine statistic?_saveAll fun w written mine _ => ?_
  obtain ⟨s, member, written⟩ := List.mem_flatMap.1 written
  obtain ⟨_, -, rfl⟩ := List.mem_map.1 written
  obtain other | other := elsewhere
  · exact Ne.symm other
  · exact absurd (mine ▸ List.mem_map_of_mem member) other

end Snapshots

end StakeIndex.Tables
