import StakeIndex.Proofs.Resynchronisation

/-!
Writes of figures into series with any rows. The series then shows the amount at the height of the write,
by a row of its own exactly where another amount, or none, stands below; no other row changes, and to write
once more changes nothing. A request with snapshots makes three such writes for each of its validators, and
as these do not meet, it may be made again as a whole.
-/
namespace StakeIndex.Tables

/-- What one write makes of the series. -/
structure Writes (s : ValidatorStatistic) (before after : Tables) : Prop where
  /-- The amount is shown where it was written. -/
  shown : after.amountAt? s.validatorId s.figure s.height = some s.amount
  /-- A row at that height is the one that was written. -/
  row : ∀ row, after.statistic? s.validatorId s.figure s.height = some row → row = s
  /-- There is a row where no row stands below, or one with another amount. -/
  row_iff : (after.statistic? s.validatorId s.figure s.height).isSome ↔
    before.amountBelow? s.validatorId s.figure s.height ≠ some s.amount
  /-- Rows at other heights and in other series stay. -/
  others : ∀ id figure k, ((id, figure), k) ≠ ((s.validatorId, s.figure), s.height) →
    after.statistic? id figure k = before.statistic? id figure k
  /-- Other series show the same everywhere, and the series itself shows the same below. -/
  elsewhere : ∀ id figure k, (id, figure) ≠ (s.validatorId, s.figure) ∨ k < s.height →
    after.amountAt? id figure k = before.amountAt? id figure k

section One

variable (t : Tables) (s : ValidatorStatistic)

theorem amountAt?_congr {s t : Tables} {id : Word} {figure : ValidatorFigure} {height : Nat}
    (same : ∀ k ≤ height, s.statistic? id figure k = t.statistic? id figure k) :
    s.amountAt? id figure height = t.amountAt? id figure height :=
  congrArg (Option.map ValidatorStatistic.amount)
    (lastStatistic?_congr fun k upTo => same k (of_decide_eq_true upTo))

theorem writes_saveStatistic : Writes s t (t.saveValidatorStatistic s) := by
  have others (id : Word) (figure : ValidatorFigure) (k : Nat)
      (other : ((id, figure), k) ≠ ((s.validatorId, s.figure), s.height)) :
      (t.saveValidatorStatistic s).statistic? id figure k = t.statistic? id figure k := by
    rw [statistic?_save, if_neg]
    rintro ⟨series, at_⟩
    exact other (Prod.ext series at_)
  refine ⟨?_, fun row found => ?_, ?_, others, fun id figure k away => ?_⟩
  · rw [amountAt?_eq, statistic?_save_self, amountBelow?_save_self]
    by_cases stands : t.amountBelow? s.validatorId s.figure s.height = some s.amount
    · rw [if_pos stands, stands]
    · rw [if_neg stands]
  · rw [statistic?_save_self] at found
    split at found
    · cases found
    · exact (Option.some.inj found).symm
  · rw [statistic?_save_self]
    split <;> simp_all
  · refine amountAt?_congr fun j upTo => others id figure j fun same => ?_
    obtain ⟨series, at_⟩ := Prod.mk.inj same
    obtain apart | below := away
    · exact apart series
    · omega

theorem saveStatistic_again :
    (t.saveValidatorStatistic s).saveValidatorStatistic s = t.saveValidatorStatistic s := by
  rw [saveValidatorStatistic_eq_self_iff, statistic?_save_self, amountBelow?_save_self]

theorem Writes.congr {s : ValidatorStatistic} {before after after' : Tables} (writes : Writes s before after)
    (same : after'.validatorStatistics = after.validatorStatistics) : Writes s before after' := by
  obtain ⟨shown, row, row_iff, others, elsewhere⟩ := writes
  unfold amountAt? lastStatistic? statistic? at *
  rw [← same] at shown row row_iff others elsewhere
  exact ⟨shown, row, row_iff, others, elsewhere⟩

variable (at_ : Calculation) (figure : ValidatorFigure) (amount : Word)

/-- The counter that is shown with a figure does not touch the series. -/
theorem writes_writeFigure :
    Writes ⟨at_.validatorId, at_.height, at_.time, figure, amount⟩ t (t.writeFigure at_ figure amount) := by
  refine (writes_saveStatistic t _).congr ?_
  rw [writeFigure_eq]

theorem writeFigure_again :
    (t.writeFigure at_ figure amount).writeFigure at_ figure amount = t.writeFigure at_ figure amount := by
  set row : ValidatorStatistic := ⟨at_.validatorId, at_.height, at_.time, figure, amount⟩
  have series : ((t.writeFigure at_ figure amount).saveValidatorStatistic row).validatorStatistics =
      (t.saveValidatorStatistic row).validatorStatistics := by
    have first : (t.writeFigure at_ figure amount).validatorStatistics =
        (t.saveValidatorStatistic row).validatorStatistics := by rw [writeFigure_eq]
    have once := saveAll_congr [row] first
    rw [List.foldl_cons, List.foldl_nil, List.foldl_cons, List.foldl_nil, saveStatistic_again] at once
    exact once
  have stays : (t.writeFigure at_ figure amount).saveValidatorStatistic row =
      t.writeFigure at_ figure amount := by
    refine saveValidatorStatistic_eq_self (series.trans ?_)
    rw [writeFigure_eq]
  rw [writeFigure_eq (t.writeFigure at_ figure amount), stays]
  dsimp only
  rw [writeFigure_eq, withCounter_again]
  rfl

end One

section Snapshots

variable {snapshots : List ValidatorSnapshot} {height : Nat} {time : Instant}

/-- The snapshots are written figure after figure. -/
theorem saveSnapshots_eq_foldl (snapshots : List ValidatorSnapshot) (height : Nat) (time : Instant)
    (t : Tables) : (t.perform (.saveValidatorSnapshots snapshots height time)).2 =
      (snapshots.flatMap fun s => [ValidatorFigure.activeNodes, .linkedNodes, .totalStake].map
        fun figure => (s, figure)).foldl
          (fun t write => t.writeFigure ⟨write.1.validatorId, height, time⟩ write.2
            (write.1.amount write.2)) t := by
  rw [List.foldl_flatMap]
  rfl

/-- Snapshots of different validators may be written again. -/
theorem saveSnapshots_again (distinct : (snapshots.map (·.validatorId)).Nodup) (t : Tables) :
    ((t.perform (.saveValidatorSnapshots snapshots height time)).2.perform
      (.saveValidatorSnapshots snapshots height time)).2 =
        (t.perform (.saveValidatorSnapshots snapshots height time)).2 := by
  refine eq_of_unsynchronised ?_ ?_ ?_ (validatorStatistics_again distinct rfl) ?_
  · exact validators_again (fun v (wrong : v ∈ []) => (nomatch wrong)) distinct rfl rfl
  all_goals exact saveSnapshots_frame _ (fun _ _ _ => rfl) snapshots height time _

end Snapshots

/-- A figure is written by one change of its series at most, alone or with the snapshots of some
validators, and to write the same again changes nothing. -/
theorem figure_written_once {snapshots : List ValidatorSnapshot}
    (distinct : (snapshots.map (·.validatorId)).Nodup) (height : Nat) (time : Instant) (t : Tables) :
    let save := fun (r : StoreRequest) (t : Tables) => (t.perform r).2
    (∀ s, Writes s t (save (.saveValidatorStatistic s) t) ∧
      save (.saveValidatorStatistic s) (save (.saveValidatorStatistic s) t) =
        save (.saveValidatorStatistic s) t) ∧
    (∀ at_ figure amount,
      Writes ⟨at_.validatorId, at_.height, at_.time, figure, amount⟩ t (t.writeFigure at_ figure amount) ∧
        (t.writeFigure at_ figure amount).writeFigure at_ figure amount =
          t.writeFigure at_ figure amount) ∧
    save (.saveValidatorSnapshots snapshots height time) t =
      (snapshots.flatMap fun s => [ValidatorFigure.activeNodes, .linkedNodes, .totalStake].map
        fun figure => (s, figure)).foldl
          (fun t write => t.writeFigure ⟨write.1.validatorId, height, time⟩ write.2
            (write.1.amount write.2)) t ∧
    save (.saveValidatorSnapshots snapshots height time)
        (save (.saveValidatorSnapshots snapshots height time) t) =
      save (.saveValidatorSnapshots snapshots height time) t :=
  ⟨fun s => ⟨writes_saveStatistic t s, saveStatistic_again t s⟩,
    fun at_ figure amount => ⟨writes_writeFigure t at_ figure amount, writeFigure_again t at_ figure amount⟩,
    saveSnapshots_eq_foldl snapshots height time t, saveSnapshots_again distinct t⟩

/-- Snapshots of two validators, of which one has an older stake of the same amount. -/
theorem figure_written_once_two :
    let snapshots : List ValidatorSnapshot := [⟨1, 2, 3, 100⟩, ⟨2, 1, 1, 40⟩]
    let save := fun t : Tables => (t.perform (.saveValidatorSnapshots snapshots 10 (.ofSeconds 10))).2
    let t := Tables.empty.performAll (stakeRequests [(5, 100), (10, 40), (12, 70)])
    (snapshots.map (·.validatorId)).Nodup ∧ save (save t) = save t ∧
      (t.statistic? 1 .totalStake 10).isSome ∧ (save t).statistic? 1 .totalStake 10 = none ∧
      (save t).statistic? 1 .totalStake 12 = t.statistic? 1 .totalStake 12 ∧
      (save t).amountAt? 2 .totalStake 10 = some 40 := by
  have distinct : (([⟨1, 2, 3, 100⟩, ⟨2, 1, 1, 40⟩] : List ValidatorSnapshot).map (·.validatorId)).Nodup := by
    decide
  obtain ⟨-, -, -, again⟩ := figure_written_once distinct 10 (.ofSeconds 10)
    (Tables.empty.performAll (stakeRequests [(5, 100), (10, 40), (12, 70)]))
  exact ⟨distinct, again, by decide, by decide, by decide, by decide⟩

end StakeIndex.Tables
