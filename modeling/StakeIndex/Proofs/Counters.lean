import StakeIndex.Proofs.Repeat

/-!
Counters on the latest snapshots of validators. They are coherent when they show the latest amounts of
the series. A stored snapshot or a row stored by hand can unsettle the counters of their own validator
only, a calculation settles one of them, and an update settles all.
-/
namespace StakeIndex

theorem Validator.counter_setCounter (v : Validator) (f g : ValidatorFigure) (amount : Word) :
    (v.setCounter f amount).counter g = if g = f then amount else v.counter g := by
  cases f <;> cases g <;> rfl

namespace Tables

/-- The snapshot of a validator with the greatest height, under its key. -/
def latest? (t : Tables) (id : Word) : Option ((Word × Nat) × Validator) :=
  t.validators.last? fun key => key.1 == id

/-- The latest snapshot of a validator, if there is one, shows the latest amount of a figure. -/
def ShowsLatest (t : Tables) (id : Word) (figure : ValidatorFigure) : Prop :=
  ∀ key v, t.latest? id = some (key, v) → v.counter figure = t.latestAmount id figure

/-- All counters on the latest snapshots show the latest amounts. -/
def Coherent (t : Tables) : Prop := ∀ id figure, t.ShowsLatest id figure

section Latest

variable {validators : Table (Word × Nat) Validator} {id other : Word}

theorem last?_insert_other (height : Nat) (apart : other ≠ id) (v : Validator) :
    ((validators.insert (other, height) v).last? fun key => key.1 == id) =
      validators.last? fun key => key.1 == id := by
  refine Table.last?_congr fun k wanted => Table.find?_insert_ne _ _ ?_
  rintro rfl
  exact apart (eq_of_beq wanted)

theorem last?_insert_self (validators : Table (Word × Nat) Validator) (id : Word) (height : Nat)
    (v : Validator) : ((validators.insert (id, height) v).last? fun key => key.1 == id) =
      match validators.last? fun key => key.1 == id with
      | some (key, w) => if height < key.2 then some (key, w) else some ((id, height), v)
      | none => some ((id, height), v) := by
  have top (none : ∀ k, height < k → validators.find? (id, k) = none) :
      ((validators.insert (id, height) v).last? fun key => key.1 == id) = some ((id, height), v) := by
    refine Table.last?_eq_some_iff.2 ⟨Table.find?_insert_self .., beq_self_eq_true id, ?_⟩
    rintro ⟨i, k⟩ wanted above
    obtain rfl := eq_of_beq wanted
    have above := (Table.compare_heights ..).1 above
    rw [Table.find?_insert_ne _ _ fun same => above.ne' (congrArg Prod.snd same), none k above]
  cases last : validators.last? fun key => key.1 == id with
  | none =>
    exact top fun k _ => Table.last?_eq_none_iff.1 last (id, k) (beq_self_eq_true id)
  | some e =>
    obtain ⟨⟨i, n⟩, w⟩ := e
    obtain ⟨found, mine, above⟩ := Table.last?_eq_some_iff.1 last
    obtain rfl := eq_of_beq mine
    dsimp only
    split
    next higher =>
      refine Table.last?_eq_some_iff.2 ⟨?_, mine, ?_⟩
      · rwa [Table.find?_insert_ne _ _ fun same => higher.ne' (congrArg Prod.snd same)]
      · rintro ⟨j, k⟩ wanted order
        obtain rfl := eq_of_beq wanted
        have order' := (Table.compare_heights ..).1 order
        rw [Table.find?_insert_ne _ _ fun same => (higher.trans order').ne' (congrArg Prod.snd same),
          above _ wanted order]
    next lower =>
      refine top fun k higher => above (i, k) mine ?_
      rw [Table.compare_heights]
      omega

/-- A counter is set on the latest snapshot of its validator, and no other latest snapshot changes. -/
theorem last?_withCounter (validators : Table (Word × Nat) Validator) (id other : Word)
    (figure : ValidatorFigure) (amount : Word) :
    ((withCounter validators id figure amount).last? fun key => key.1 == other) =
      (validators.last? fun key => key.1 == other).map fun e =>
        (e.1, if other = id then e.2.setCounter figure amount else e.2) := by
  cases last : validators.last? fun key => key.1 == id with
  | none =>
    rw [withCounter_of_none last]
    by_cases same : other = id
    · subst same
      rw [last]
      rfl
    · simp [same]
  | some e =>
    obtain ⟨key, v⟩ := e
    rw [withCounter_of_last last]
    by_cases same : other = id
    · subst same
      rw [Table.last?_insert_last last, last]
      simp
    · obtain ⟨i, height⟩ := key
      obtain rfl : i = id := eq_of_beq (Table.last?_eq_some_iff.1 last).2.1
      rw [last?_insert_other height (Ne.symm same)]
      simp [same]

end Latest

section Settling

variable {t : Tables} {id other : Word} {figure : ValidatorFigure}

theorem showsLatest_congr {s t : Tables} (latest : s.latest? id = t.latest? id)
    (amount : s.latestAmount id figure = t.latestAmount id figure) :
    s.ShowsLatest id figure ↔ t.ShowsLatest id figure := by
  rw [ShowsLatest, ShowsLatest, latest, amount]

theorem ShowsLatest.saveValidator {v : Validator} (shown : t.ShowsLatest id figure) (apart : v.id ≠ id) :
    (t.saveValidator v).ShowsLatest id figure := by
  have latest : (t.saveValidator v).latest? id = t.latest? id :=
    last?_insert_other v.height apart v
  exact (showsLatest_congr latest rfl).2 shown

theorem latestAmount_saveStatistic {s : ValidatorStatistic}
    (apart : (s.validatorId, s.figure) ≠ (id, figure)) :
    (t.saveValidatorStatistic s).latestAmount id figure = t.latestAmount id figure := by
  have series (height : Nat) : (t.saveValidatorStatistic s).statistic? id figure height =
      t.statistic? id figure height := by
    rw [statistic?_save, if_neg]
    rintro ⟨same, -⟩
    exact apart same.symm
  simp only [latestAmount, lastStatistic?_congr fun height _ => series height]

theorem ShowsLatest.saveStatistic {s : ValidatorStatistic} (shown : t.ShowsLatest id figure)
    (apart : (s.validatorId, s.figure) ≠ (id, figure)) :
    (t.saveValidatorStatistic s).ShowsLatest id figure := by
  have latest : (t.saveValidatorStatistic s).latest? id = t.latest? id := rfl
  exact (showsLatest_congr latest (latestAmount_saveStatistic apart)).2 shown

theorem latestAmount_showLatest (t : Tables) (id : Word) (figure : ValidatorFigure) :
    (t.showLatest id figure).latestAmount = t.latestAmount := by
  rw [showLatest_eq]
  exact latestAmount_congr rfl

theorem showLatest_shows (t : Tables) (id : Word) (figure : ValidatorFigure) :
    (t.showLatest id figure).ShowsLatest id figure := by
  intro key v last
  rw [latestAmount_showLatest]
  rw [showLatest_eq, latest?, last?_withCounter, Option.map_eq_some_iff] at last
  obtain ⟨e, -, same⟩ := last
  cases same
  rw [if_pos rfl, Validator.counter_setCounter, if_pos rfl]

theorem ShowsLatest.showLatest (shown : t.ShowsLatest id figure) (other : Word)
    (g : ValidatorFigure) : (t.showLatest other g).ShowsLatest id figure := by
  by_cases same : id = other ∧ figure = g
  · obtain ⟨rfl, rfl⟩ := same
    exact showLatest_shows _ _ _
  intro key v last
  rw [latestAmount_showLatest]
  rw [showLatest_eq, latest?, last?_withCounter, Option.map_eq_some_iff] at last
  obtain ⟨⟨k, w⟩, stored, changed⟩ := last
  cases changed
  rw [← shown k w stored]
  split
  next mine => rw [Validator.counter_setCounter, if_neg fun both => same ⟨mine, both⟩]
  next => rfl

theorem writeFigure_shows (t : Tables) (at_ : Calculation) (figure : ValidatorFigure) (amount : Word) :
    (t.writeFigure at_ figure amount).ShowsLatest at_.validatorId figure :=
  showLatest_shows _ _ _

theorem ShowsLatest.writeFigure (shown : t.ShowsLatest id figure) (at_ : Calculation)
    (g : ValidatorFigure) (amount : Word) :
    (t.writeFigure at_ g amount).ShowsLatest id figure := by
  by_cases same : (at_.validatorId, g) = (id, figure)
  · cases same
    exact writeFigure_shows _ _ _ _
  · have row := shown.saveStatistic (s := ⟨at_.validatorId, at_.height, at_.time, g, amount⟩) same
    exact row.showLatest at_.validatorId g

theorem ShowsLatest.updateCounts (shown : t.ShowsLatest id figure) (other : Word) :
    (t.updateCounts other).ShowsLatest id figure :=
  ((shown.showLatest other .totalStake).showLatest other .activeNodes).showLatest other .linkedNodes

theorem updateCounts_shows (t : Tables) (id : Word) (figure : ValidatorFigure) :
    (t.updateCounts id).ShowsLatest id figure := by
  have staked := showLatest_shows t id .totalStake
  have active := showLatest_shows (t.showLatest id .totalStake) id .activeNodes
  cases figure with
  | totalStake => exact (staked.showLatest id .activeNodes).showLatest id .linkedNodes
  | activeNodes => exact active.showLatest id .linkedNodes
  | linkedNodes => exact showLatest_shows _ _ _

theorem ShowsLatest.saveSnapshot (shown : t.ShowsLatest id figure) (height : Nat) (time : Instant)
    (s : ValidatorSnapshot) : (t.saveSnapshot height time s).ShowsLatest id figure :=
  ((shown.writeFigure _ .activeNodes _).writeFigure _ .linkedNodes _).writeFigure _ .totalStake _

theorem saveSnapshot_shows (t : Tables) (height : Nat) (time : Instant) (s : ValidatorSnapshot)
    (figure : ValidatorFigure) : (t.saveSnapshot height time s).ShowsLatest s.validatorId figure := by
  set at_ : Calculation := ⟨s.validatorId, height, time⟩
  have active := writeFigure_shows t at_ .activeNodes (s.amount .activeNodes)
  have linked := writeFigure_shows (t.writeFigure at_ .activeNodes (s.amount .activeNodes)) at_
    .linkedNodes (s.amount .linkedNodes)
  cases figure with
  | totalStake => exact writeFigure_shows _ _ _ _
  | activeNodes => exact (active.writeFigure at_ .linkedNodes _).writeFigure at_ .totalStake _
  | linkedNodes => exact linked.writeFigure at_ .totalStake _

end Settling

section Requests

/-- The validators whose counters may be wrong after a request though they were right before. -/
def unsettled : StoreRequest → List Word
  | .saveValidator v => [v.id]
  | .saveValidatorStatistic s => [s.validatorId]
  | _ => []

theorem ShowsLatest.perform {t : Tables} {id : Word} {figure : ValidatorFigure}
    (shown : t.ShowsLatest id figure) {r : StoreRequest} (settled : id ∉ unsettled r) :
    (t.perform r).2.ShowsLatest id figure := by
  cases r with
  | saveContractEvent e =>
    have validators := saveContractEvent_frame Tables.validators (fun _ _ _ => rfl) e t
    have series := saveContractEvent_frame validatorStatistics (fun _ _ _ => rfl) e t
    refine (showsLatest_congr (congrArg (Table.last? · _) validators) ?_).2 shown
    rw [latestAmount_congr series]
  | saveValidator v => exact shown.saveValidator (Ne.symm (List.ne_of_not_mem_cons settled))
  | saveValidatorStatistic s =>
    refine shown.saveStatistic fun same => List.ne_of_not_mem_cons settled ?_
    exact (congrArg Prod.fst same).symm
  | updateCounts other => exact shown.updateCounts other
  | calculate g at_ => exact shown.writeFigure at_ g _
  | saveValidatorSnapshots snapshots height time =>
    change (snapshots.foldl _ t).ShowsLatest id figure
    clear settled
    induction snapshots generalizing t with
    | nil => exact shown
    | cons s rest ih => exact ih (shown.saveSnapshot height time s)
  | _ => exact shown

theorem calculate_shows (t : Tables) (figure : ValidatorFigure) (at_ : Calculation) :
    (t.perform (.calculate figure at_)).2.ShowsLatest at_.validatorId figure :=
  writeFigure_shows _ _ _ _

theorem saveValidatorSnapshots_shows {snapshots : List ValidatorSnapshot} {s : ValidatorSnapshot}
    (member : s ∈ snapshots) (height : Nat) (time : Instant) (t : Tables) (figure : ValidatorFigure) :
    (t.perform (.saveValidatorSnapshots snapshots height time)).2.ShowsLatest s.validatorId figure := by
  induction snapshots generalizing t with
  | nil => cases member
  | cons first rest ih =>
    rcases List.mem_cons.1 member with rfl | member
    · have shown := saveSnapshot_shows t height time s figure
      exact shown.perform (r := .saveValidatorSnapshots rest height time) List.not_mem_nil
    · exact ih member _

end Requests

end Tables
end StakeIndex
