import StakeIndex.Proofs.Perform

/-!
Series of figures. A write compares with the rows below it at that moment and touches the row at its own
height only, so what a series shows at a height in the end depends on what stood below the height at its
last write and on what stands there now.
-/
namespace StakeIndex.Tables

/-- The row of a series at a height. -/
def statistic? (t : Tables) (id : Word) (figure : ValidatorFigure) (height : Nat) :
    Option ValidatorStatistic :=
  t.validatorStatistics.find? ((id, figure), height)

/-- The amount that a series shows at a height: that of the last row not above it. -/
def amountAt? (t : Tables) (id : Word) (figure : ValidatorFigure) (height : Nat) : Option Word :=
  (t.lastStatistic? id figure (· ≤ height)).map (·.amount)

/-- The amount that a series shows below a height. -/
def amountBelow? (t : Tables) (id : Word) (figure : ValidatorFigure) (height : Nat) : Option Word :=
  (t.lastStatistic? id figure (· < height)).map (·.amount)

section Reading

variable {s t : Tables} {id : Word} {figure : ValidatorFigure} {wanted : Nat → Bool}

theorem lastStatistic?_eq_some_iff {row : ValidatorStatistic} :
    t.lastStatistic? id figure wanted = some row ↔ ∃ height, wanted height ∧
      t.statistic? id figure height = some row ∧
        ∀ k, wanted k → height < k → t.statistic? id figure k = none := by
  rw [lastStatistic?, Option.map_eq_some_iff]
  constructor
  · rintro ⟨⟨⟨subject, height⟩, row⟩, last, rfl⟩
    obtain ⟨same, w, found, top⟩ := Table.last?_subject_eq_some_iff.1 last
    subst same
    exact ⟨height, w, found, top⟩
  · rintro ⟨height, w, found, top⟩
    exact ⟨(((id, figure), height), row),
      Table.last?_subject_eq_some_iff.2 ⟨rfl, w, found, top⟩, rfl⟩

theorem lastStatistic?_congr
    (h : ∀ height, wanted height → s.statistic? id figure height = t.statistic? id figure height) :
    s.lastStatistic? id figure wanted = t.lastStatistic? id figure wanted :=
  congrArg (Option.map Prod.snd) (Table.last?_subject_congr h)

theorem amountBelow?_congr {height : Nat}
    (h : ∀ k < height, s.statistic? id figure k = t.statistic? id figure k) :
    s.amountBelow? id figure height = t.amountBelow? id figure height :=
  congrArg (Option.map ValidatorStatistic.amount)
    (lastStatistic?_congr fun k below => h k (of_decide_eq_true below))

/-- A series shows the row at a height, or else what it shows below. -/
theorem amountAt?_eq (t : Tables) (id : Word) (figure : ValidatorFigure) (height : Nat) :
    t.amountAt? id figure height = match t.statistic? id figure height with
      | some row => some row.amount
      | none => t.amountBelow? id figure height := by
  cases found : t.statistic? id figure height with
  | some row =>
    have last : t.lastStatistic? id figure (· ≤ height) = some row := by
      refine lastStatistic?_eq_some_iff.2 ⟨height, by simp, found, fun k below above => ?_⟩
      have := of_decide_eq_true below
      omega
    rw [amountAt?, last]
    rfl
  | none =>
    refine congrArg (Option.map ValidatorStatistic.amount) (Option.ext fun row => ?_)
    simp only [lastStatistic?_eq_some_iff, decide_eq_true_eq]
    grind

end Reading

section Writing

variable (t : Tables) (s : ValidatorStatistic) (id : Word) (figure : ValidatorFigure) (height : Nat)

/-- A write leaves the row at its height out or puts it there, and touches no other row. -/
theorem statistic?_save : (t.saveValidatorStatistic s).statistic? id figure height =
    if (id, figure) = (s.validatorId, s.figure) ∧ height = s.height then
      if t.amountBelow? s.validatorId s.figure s.height = some s.amount then none else some s
    else t.statistic? id figure height := by
  have key : ((id, figure), height) = ((s.validatorId, s.figure), s.height) ↔
      (id, figure) = (s.validatorId, s.figure) ∧ height = s.height := Prod.mk.injEq .. ▸ Iff.rfl
  unfold statistic? saveValidatorStatistic
  simp only [← key]
  change (if t.amountBelow? s.validatorId s.figure s.height = some s.amount then _ else _ :
    Table _ _).find? _ = _
  split
  next => rw [Table.find?_erase]
  next => rw [Table.find?_insert]

theorem statistic?_save_self : (t.saveValidatorStatistic s).statistic? s.validatorId s.figure s.height =
    if t.amountBelow? s.validatorId s.figure s.height = some s.amount then none else some s := by
  rw [statistic?_save, if_pos ⟨rfl, rfl⟩]

theorem amountBelow?_save_self :
    (t.saveValidatorStatistic s).amountBelow? s.validatorId s.figure s.height =
      t.amountBelow? s.validatorId s.figure s.height := by
  refine amountBelow?_congr fun k below => ?_
  rw [statistic?_save, if_neg fun same => by omega]

variable {t id figure height}

/-- Writes to other series and at other heights leave a row as it is. -/
theorem statistic?_saveAll {writes : List ValidatorStatistic}
    (elsewhere : ∀ w ∈ writes, w.validatorId = id → w.figure = figure → w.height ≠ height) :
    (writes.foldl saveValidatorStatistic t).statistic? id figure height =
      t.statistic? id figure height := by
  induction writes generalizing t with
  | nil => rfl
  | cons w rest ih =>
    rw [List.foldl_cons, ih fun w member => elsewhere w (List.mem_cons_of_mem _ member),
      statistic?_save, if_neg]
    rintro ⟨same, rfl⟩
    obtain ⟨rfl, rfl⟩ := Prod.mk.inj same
    exact elsewhere w List.mem_cons_self rfl rfl rfl

/-- Writes that are not below a height leave what is shown below it as it is. -/
theorem amountBelow?_saveAll {writes : List ValidatorStatistic}
    (above : ∀ w ∈ writes, w.validatorId = id → w.figure = figure → height ≤ w.height) :
    (writes.foldl saveValidatorStatistic t).amountBelow? id figure height =
      t.amountBelow? id figure height := by
  refine amountBelow?_congr fun k below => statistic?_saveAll fun w member same same' => ?_
  have := above w member same same'
  omega

theorem saveAll_congr {s t : Tables} (writes : List ValidatorStatistic)
    (same : s.validatorStatistics = t.validatorStatistics) :
    (writes.foldl saveValidatorStatistic s).validatorStatistics =
      (writes.foldl saveValidatorStatistic t).validatorStatistics := by
  induction writes generalizing s t with
  | nil => exact same
  | cons w rest ih =>
    refine ih ?_
    unfold saveValidatorStatistic lastStatistic?
    rw [same]

end Writing

section Requests

/-- The figures that a request writes to their series, as they are computed then. -/
def figuresWritten (t : Tables) : StoreRequest → List ValidatorStatistic
  | .saveValidatorStatistic s => [s]
  | .calculate figure at_ =>
    [⟨at_.validatorId, at_.height, at_.time, figure, t.figureAt figure at_⟩]
  | .saveValidatorSnapshots snapshots height time =>
    snapshots.flatMap fun s => [ValidatorFigure.activeNodes, .linkedNodes, .totalStake].map
      fun figure => ⟨s.validatorId, height, time, figure, s.amount figure⟩
  | _ => []

/-- The figures that some requests write one after another. -/
def allFiguresWritten (t : Tables) : List StoreRequest → List ValidatorStatistic
  | [] => []
  | r :: rest => t.figuresWritten r ++ (t.perform r).2.allFiguresWritten rest

/-- A loop writes what its turns write. -/
theorem saveAll_foldl {ι : Type} {turn : Tables → ι → Tables} {writes : ι → List ValidatorStatistic}
    (each : ∀ t i, (turn t i).validatorStatistics =
      ((writes i).foldl saveValidatorStatistic t).validatorStatistics) (t : Tables) (items : List ι) :
    (items.foldl turn t).validatorStatistics =
      ((items.flatMap writes).foldl saveValidatorStatistic t).validatorStatistics := by
  induction items generalizing t with
  | nil => rfl
  | cons i rest ih =>
    rw [List.foldl_cons, ih, List.flatMap_cons, List.foldl_append]
    exact saveAll_congr _ (each t i)

theorem validatorStatistics_saveSnapshot (t : Tables) (height : Nat) (time : Instant)
    (s : ValidatorSnapshot) : (t.saveSnapshot height time s).validatorStatistics =
      (([ValidatorFigure.activeNodes, .linkedNodes, .totalStake].map fun figure =>
        (⟨s.validatorId, height, time, figure, s.amount figure⟩ : ValidatorStatistic)).foldl
          saveValidatorStatistic t).validatorStatistics := by
  rw [List.map_eq_flatMap]
  refine saveAll_foldl (fun t figure => ?_) t _
  rw [writeFigure_eq]
  rfl

theorem validatorStatistics_perform (t : Tables) (r : StoreRequest) :
    (t.perform r).2.validatorStatistics =
      ((t.figuresWritten r).foldl saveValidatorStatistic t).validatorStatistics := by
  cases r with
  | saveContractEvent e =>
    simp only [perform, saveContractEvent]
    split <;> rfl
  | updateCounts id =>
    simp only [perform, updateCounts, ValidatorFigure.all, List.foldl_cons, List.foldl_nil,
      showLatest_eq]
    rfl
  | calculate figure at_ =>
    simp only [perform, calculate, writeFigure_eq]
    rfl
  | saveValidatorSnapshots snapshots height time =>
    exact saveAll_foldl (fun t s => validatorStatistics_saveSnapshot t height time s) t snapshots
  | _ => rfl

theorem validatorStatistics_performAll (t : Tables) (requests : List StoreRequest) :
    (t.performAll requests).validatorStatistics =
      ((t.allFiguresWritten requests).foldl saveValidatorStatistic t).validatorStatistics := by
  induction requests generalizing t with
  | nil => rfl
  | cons r rest ih =>
    rw [performAll_cons, ih, allFiguresWritten, List.foldl_append]
    exact saveAll_congr _ (validatorStatistics_perform t r)

/-- A series shows an amount at the height where it was written, and a row at that height differs from
what stands below it. -/
def Shows (t : Tables) (s : ValidatorStatistic) : Prop :=
  t.amountAt? s.validatorId s.figure s.height = some s.amount ∧
    ∀ row, t.statistic? s.validatorId s.figure s.height = some row →
      t.amountBelow? s.validatorId s.figure s.height ≠ some row.amount

/-- Some writes to a series among which one is the last at its height. -/
structure LastWrite (writes earlier : List ValidatorStatistic) (s : ValidatorStatistic)
    (later : List ValidatorStatistic) : Prop where
  split : writes = earlier ++ s :: later
  last : ∀ w ∈ later, w.validatorId = s.validatorId → w.figure = s.figure → w.height ≠ s.height

/-- Whether a row is left out is settled at the last write of its height, by what stood below it then.
Where it was left out, the height shows what stands below it now. So the series shows the write
exactly if the comparison with the rows below would come out the same now; it does when nothing lower
was written since. -/
theorem shows_last_write_iff (t : Tables) (requests : List StoreRequest)
    {earlier later : List ValidatorStatistic} {s : ValidatorStatistic}
    (write : LastWrite (t.allFiguresWritten requests) earlier s later) :
    let after := t.performAll requests
    let before := (earlier.foldl saveValidatorStatistic t).amountBelow? s.validatorId s.figure s.height
    let now := after.amountBelow? s.validatorId s.figure s.height
    after.statistic? s.validatorId s.figure s.height =
        (if before = some s.amount then none else some s) ∧
      after.amountAt? s.validatorId s.figure s.height =
        (if before = some s.amount then now else some s.amount) ∧
      (after.Shows s ↔ (before = some s.amount ↔ now = some s.amount)) ∧
      ((∀ w ∈ later, w.validatorId = s.validatorId → w.figure = s.figure → s.height ≤ w.height) →
        after.Shows s) ∧
      ∀ height, (∀ w ∈ t.allFiguresWritten requests, w.validatorId = s.validatorId →
        w.figure = s.figure → w.height ≠ height) →
        after.statistic? s.validatorId s.figure height = t.statistic? s.validatorId s.figure height := by
  intro after before now
  have rows (height : Nat) : after.statistic? s.validatorId s.figure height =
      ((t.allFiguresWritten requests).foldl saveValidatorStatistic t).statistic?
        s.validatorId s.figure height :=
    congrArg (Table.find? · ((s.validatorId, s.figure), height))
      (validatorStatistics_performAll t requests)
  have row : after.statistic? s.validatorId s.figure s.height =
      if before = some s.amount then none else some s := by
    rw [rows, write.split, List.foldl_append, List.foldl_cons, statistic?_saveAll write.last,
      statistic?_save_self]
  have shown : after.amountAt? s.validatorId s.figure s.height =
      if before = some s.amount then now else some s.amount := by
    rw [amountAt?_eq, row]
    by_cases same : before = some s.amount
    · rw [if_pos same, if_pos same]
    · rw [if_neg same, if_neg same]
  have exact_iff : after.Shows s ↔ (before = some s.amount ↔ now = some s.amount) := by
    unfold Shows
    rw [shown, row]
    by_cases same : before = some s.amount <;> simp [same, now, eq_comm]
  refine ⟨row, shown, exact_iff, fun above => exact_iff.2 ?_, fun height none => ?_⟩
  · have unchanged : now = before := by
      calc now = ((t.allFiguresWritten requests).foldl saveValidatorStatistic t).amountBelow?
            s.validatorId s.figure s.height := amountBelow?_congr fun k _ => rows k
        _ = before := by
          rw [write.split, List.foldl_append, List.foldl_cons, amountBelow?_saveAll above,
            amountBelow?_save_self]
    rw [unchanged]
  · rw [rows, statistic?_saveAll none]

/-- The request to write total stakes of one validator, by height. -/
def stakeRequests (amounts : List (Nat × Word)) : List StoreRequest :=
  amounts.map fun (height, amount) =>
    .saveValidatorStatistic ⟨1, height, .ofSeconds height, .totalStake, amount⟩

/-- Amounts written from the top down: the last of them is shown where it was written. -/
theorem shows_last_write_reordered :
    LastWrite (Tables.empty.allFiguresWritten (stakeRequests [(20, 100), (10, 40), (20, 70)]))
        [⟨1, 20, .ofSeconds 20, .totalStake, 100⟩, ⟨1, 10, .ofSeconds 10, .totalStake, 40⟩]
        ⟨1, 20, .ofSeconds 20, .totalStake, 70⟩ [] ∧
      (Tables.empty.performAll (stakeRequests [(20, 100), (10, 40), (20, 70)])).Shows
        ⟨1, 20, .ofSeconds 20, .totalStake, 70⟩ := by
  have write : LastWrite (Tables.empty.allFiguresWritten
      (stakeRequests [(20, 100), (10, 40), (20, 70)])) [_, _] _ [] := ⟨rfl, by simp⟩
  exact ⟨write, (shows_last_write_iff _ _ write).2.2.2.1 (by simp)⟩

/-- An amount that was left out because the row below carried it is lost when another amount is written
between the two; and a row equal to the one below it stays when that one is written later. -/
theorem not_shows_last_write :
    (∃ requests earlier s later, LastWrite (Tables.empty.allFiguresWritten requests) earlier s later ∧
      (Tables.empty.performAll requests).amountAt? s.validatorId s.figure s.height ≠ some s.amount) ∧
    ∃ requests earlier s later, LastWrite (Tables.empty.allFiguresWritten requests) earlier s later ∧
      (Tables.empty.performAll requests).statistic? s.validatorId s.figure s.height = some s ∧
        (Tables.empty.performAll requests).amountBelow? s.validatorId s.figure s.height =
          some s.amount := by
  refine ⟨⟨stakeRequests [(10, 100), (20, 100), (15, 50)], [_], _, [_], ⟨rfl, ?_⟩, ?_⟩,
    ⟨stakeRequests [(20, 100), (10, 100)], [], _, [_], ⟨rfl, ?_⟩, ?_, ?_⟩⟩
  all_goals decide

end Requests

end StakeIndex.Tables
