import Mathlib.Algebra.BigOperators.Group.Finset.Basic
import StakeIndex.Proofs.FigureWrites
import StakeIndex.Proofs.Recomputation

/-!
Calculations of figures over any tables. Of each delegation and of each node the snapshot with the greatest
height up to that of the calculation is chosen, whatever it says; then those that are with the validator and
in the right stage are summed up or counted. The amount is written to its series, and the counter on the
latest snapshot of the validator shows what the series ends with, which may be a row above.
-/
namespace StakeIndex

namespace Table

section Standing

variable {σ α : Type} [Ord σ] [DecidableEq σ]

/-- The subjects of the rows. -/
def subjects (t : Table (σ × Nat) α) : Finset σ := (t.entries.map (·.1.1)).toFinset

/-- The row of a subject with the greatest height up to a bound. -/
def upTo? (t : Table (σ × Nat) α) (subject : σ) (height : Nat) : Option α :=
  (t.last? fun key => key.1 == subject && decide (key.2 ≤ height)).map (·.2)

/-- The subjects of which the row with the greatest height up to a bound passes a test. -/
def standing (t : Table (σ × Nat) α) (height : Nat) (test : α → Bool) : Finset σ :=
  t.subjects.filter fun subject => (t.upTo? subject height).any test

variable [Std.TransOrd σ] [Std.LawfulEqOrd σ] {t : Table (σ × Nat) α} {subject : σ} {height : Nat}

theorem upTo?_eq_some_iff {a : α} : t.upTo? subject height = some a ↔
    ∃ k ≤ height, t.find? (subject, k) = some a ∧
      ∀ j ≤ height, k < j → t.find? (subject, j) = none := by
  have last (key : σ × Nat) :
      (t.last? fun key => key.1 == subject && decide (key.2 ≤ height)) = some (key, a) ↔
        key.1 = subject ∧ decide (key.2 ≤ height) ∧ t.find? key = some a ∧
          ∀ j, decide (j ≤ height) → key.2 < j → t.find? (subject, j) = none :=
    @last?_subject_eq_some_iff _ _ _ _ _ _ _ t subject (fun k => decide (k ≤ height)) key a
  simp only [decide_eq_true_eq] at last
  rw [upTo?, Option.map_eq_some_iff]
  constructor
  · rintro ⟨⟨⟨s, k⟩, a⟩, there, rfl⟩
    obtain ⟨rfl, low, found, top⟩ := (last _).1 there
    exact ⟨k, low, found, top⟩
  · rintro ⟨k, low, found, top⟩
    exact ⟨((subject, k), a), (last _).2 ⟨rfl, low, found, top⟩, rfl⟩

theorem mem_subjects_of_upTo? {a : α} (there : t.upTo? subject height = some a) :
    subject ∈ t.subjects := by
  obtain ⟨k, -, found, -⟩ := upTo?_eq_some_iff.1 there
  exact List.mem_toFinset.2 (List.mem_map_of_mem (find?_eq_some_iff.1 found))

theorem mem_standing_iff {test : α → Bool} :
    subject ∈ t.standing height test ↔ ∃ a, t.upTo? subject height = some a ∧ test a := by
  rw [standing, Finset.mem_filter, Option.any_eq_true]
  exact and_iff_right_of_imp fun ⟨_, there, _⟩ => mem_subjects_of_upTo? there

omit [Ord σ] [Std.TransOrd σ] [Std.LawfulEqOrd σ] in
theorem filter_subject_of_apart {entries : List ((σ × Nat) × α)}
    (apart : ∀ e ∈ entries, e.1.1 ≠ subject) : entries.filter (·.1.1 = subject) = [] :=
  List.filter_eq_nil_iff.2 fun e member => by simpa using apart e member

/-- A sum over the last rows is one over the subjects. -/
theorem sum_lastOfEach {entries : List ((σ × Nat) × α)}
    (sorted : entries.Pairwise fun a b => compare a.1 b.1 = .lt) (weight : α → Nat) :
    ((lastOfEach entries).map weight).sum = ∑ subject ∈ (entries.map (·.1.1)).toFinset,
      (entries.filter (·.1.1 = subject)).getLast?.elim 0 fun e => weight e.2 := by
  induction entries using lastOfEach.induct with
  | case1 => rfl
  | case2 e => simp [lastOfEach]
  | case3 e next rest same ih =>
    have subjects : ((e :: next :: rest).map (·.1.1)).toFinset =
        ((next :: rest).map (·.1.1)).toFinset := by simp [same]
    rw [lastOfEach, if_pos same, ih (List.pairwise_cons.1 sorted).2, subjects]
    refine Finset.sum_congr rfl fun subject _ => ?_
    by_cases mine : e.1.1 = subject
    · have more : (next :: rest).filter (·.1.1 = subject) ≠ [] := by simp [← same, mine]
      have kept : (e :: next :: rest).filter (·.1.1 = subject) = e :: (next :: rest).filter (·.1.1 = subject) :=
        List.filter_cons_of_pos (decide_eq_true mine)
      rw [kept, List.getLast?_cons_of_ne_nil more]
    · have dropped : (e :: next :: rest).filter (·.1.1 = subject) = (next :: rest).filter (·.1.1 = subject) :=
        List.filter_cons_of_neg (by simpa using mine)
      rw [dropped]
  | case4 e next rest changed ih =>
    obtain ⟨below, tail⟩ := List.pairwise_cons.1 sorted
    have apart : ∀ e' ∈ next :: rest, e'.1.1 ≠ e.1.1 := by
      intro e' member
      obtain rfl | member := List.mem_cons.1 member
      · exact Ne.symm changed
      · exact subjects_apart changed (below next List.mem_cons_self)
          ((List.pairwise_cons.1 tail).1 e' member)
    have new : e.1.1 ∉ ((next :: rest).map (·.1.1)).toFinset := by
      intro member
      obtain ⟨e', among, same⟩ := List.mem_map.1 (List.mem_toFinset.1 member)
      exact apart e' among same
    have own : (e :: next :: rest).filter (·.1.1 = e.1.1) = [e] := by
      have kept : (e :: next :: rest).filter (·.1.1 = e.1.1) = e :: (next :: rest).filter (·.1.1 = e.1.1) :=
        List.filter_cons_of_pos (decide_eq_true rfl)
      rw [kept, filter_subject_of_apart apart]
    have subjects : ((e :: next :: rest).map (·.1.1)).toFinset =
        Insert.insert e.1.1 ((next :: rest).map (·.1.1)).toFinset := List.toFinset_cons
    rw [lastOfEach, if_neg changed, List.map_cons, List.sum_cons, ih tail, subjects,
      Finset.sum_insert new, own]
    refine congrArg (weight e.2 + ·) (Finset.sum_congr rfl fun subject member => ?_)
    have dropped : (e :: next :: rest).filter (·.1.1 = subject) = (next :: rest).filter (·.1.1 = subject) :=
      List.filter_cons_of_neg fun same => new (of_decide_eq_true same ▸ member)
    rw [dropped]

/-- The current rows up to a height, one for each subject that has any. -/
theorem sum_current (fits : ∀ e ∈ t.entries, e.1.2 ≤ topHeight) (height : Nat)
    (weight : α → Nat) : ((t.current (Tables.boundAfter height)).map weight).sum =
      ∑ subject ∈ t.subjects, (t.upTo? subject height).elim 0 weight := by
  set bounded := t.entries.filter fun e => (Tables.boundAfter height).all (e.1.2 < ·)
  have low : bounded = t.entries.filter fun e => decide (e.1.2 ≤ height) := by
    refine List.filter_congr fun e member => ?_
    rw [Bool.eq_iff_iff, decide_eq_true_iff]
    refine ⟨le_of_boundAfter (fits e member), fun upTo => ?_⟩
    have := boundAfter_self height
    unfold Tables.boundAfter at this ⊢
    split at this
    next inside => simpa [inside] using Nat.lt_succ_of_le upTo
    next outside => simp [outside]
  have last (subject : σ) : (bounded.filter (·.1.1 = subject)).getLast?.elim 0 (fun e => weight e.2) =
      (t.upTo? subject height).elim 0 weight := by
    rw [low, List.filter_filter, upTo?, last?, Option.elim_map]
    rfl
  calc ((t.current (Tables.boundAfter height)).map weight).sum
      = ∑ subject ∈ (bounded.map (·.1.1)).toFinset,
          (bounded.filter (·.1.1 = subject)).getLast?.elim 0 (fun e => weight e.2) :=
        sum_lastOfEach (t.sorted.filter _) weight
    _ = ∑ subject ∈ (bounded.map (·.1.1)).toFinset, (t.upTo? subject height).elim 0 weight :=
        Finset.sum_congr rfl fun subject _ => last subject
    _ = ∑ subject ∈ t.subjects, (t.upTo? subject height).elim 0 weight := by
        refine Finset.sum_subset (fun subject member => ?_) fun subject _ absent => ?_
        · obtain ⟨e, among, rfl⟩ := List.mem_map.1 (List.mem_toFinset.1 member)
          exact List.mem_toFinset.2 (List.mem_map_of_mem (List.mem_filter.1 among).1)
        · rw [← last, filter_subject_of_apart]
          · rfl
          · rintro e among rfl
            exact absent (List.mem_toFinset.2 (List.mem_map_of_mem among))

/-- What the rows that pass a test add up to. -/
theorem sum_current_filter (fits : ∀ e ∈ t.entries, e.1.2 ≤ topHeight) (height : Nat)
    (test : α → Bool) (weight : α → Nat) :
    (((t.current (Tables.boundAfter height)).filter test).map weight).sum =
      ∑ subject ∈ t.standing height test, (t.upTo? subject height).elim 0 weight := by
  have weighed (rows : List α) : ((rows.filter test).map weight).sum =
      (rows.map fun a => if test a then weight a else 0).sum := by
    induction rows with
    | nil => rfl
    | cons a rest ih => by_cases passes : test a <;> simp [passes, ih]
  rw [weighed, sum_current fits, standing, Finset.sum_filter]
  refine Finset.sum_congr rfl fun subject _ => ?_
  cases t.upTo? subject height <;> rfl

/-- How many rows pass a test. -/
theorem length_current_filter (fits : ∀ e ∈ t.entries, e.1.2 ≤ topHeight) (height : Nat)
    (test : α → Bool) :
    ((t.current (Tables.boundAfter height)).filter test).length = (t.standing height test).card := by
  have ones := sum_current_filter fits height test fun _ => 1
  rw [List.map_const', List.sum_replicate_nat, Nat.mul_one] at ones
  rw [ones, Finset.card_eq_sum_ones]
  refine Finset.sum_congr rfl fun subject member => ?_
  obtain ⟨a, there, -⟩ := mem_standing_iff.1 member
  rw [there]
  rfl

omit [Std.TransOrd σ] [Std.LawfulEqOrd σ] in
theorem card_standing_le (t : Table (σ × Nat) α) (height : Nat) (test : α → Bool) :
    (t.standing height test).card ≤ t.size := by
  refine (Finset.card_filter_le ..).trans ((List.toFinset_card_le _).trans ?_)
  rw [List.length_map, size]

end Standing

end Table

namespace Tables

/-- Heights in the tables of delegations and nodes fit a register, and so does the number of nodes. -/
structure FitsRegisters (t : Tables) : Prop where
  delegations : ∀ e ∈ t.delegations.entries, e.1.2 ≤ topHeight
  nodes : ∀ e ∈ t.nodes.entries, e.1.2 ≤ topHeight
  counted : t.nodes.size < registerSize

section Amounts

variable {t : Tables} (fits : t.FitsRegisters) (at_ : Calculation)
include fits

theorem figureAt_totalStake : (t.figureAt .totalStake at_).toNat =
    min (∑ id ∈ t.delegations.standing at_.height fun d =>
        d.validatorId == at_.validatorId && d.state.isStaked,
      (t.delegations.upTo? id at_.height).elim 0 (·.amount.toNat)) (2 ^ 256 - 1) := by
  rw [figureAt, sumAmounts, Word.foldl_saturatingAdd, Table.sum_current_filter fits.delegations,
    Word.toNat_clamp, Word.toNat_zero, Nat.zero_add]

theorem toNat_count (test : Node → Bool) :
    (Word.ofNat ((t.nodes.current (boundAfter at_.height)).filter test).length).toNat =
      (t.nodes.standing at_.height test).card := by
  rw [Table.length_current_filter fits.nodes]
  refine toNat_ofNat ((Table.card_standing_le ..).trans_lt (fits.counted.trans ?_))
  decide

theorem figureAt_activeNodes : (t.figureAt .activeNodes at_).toNat =
    (t.nodes.standing at_.height fun n =>
      n.validatorId == at_.validatorId && n.status.isActive).card :=
  toNat_count fits at_ _

theorem figureAt_linkedNodes : (t.figureAt .linkedNodes at_).toNat =
    (t.nodes.standing at_.height fun n =>
      n.validatorId == at_.validatorId && n.status.isLinked).card :=
  toNat_count fits at_ _

end Amounts

/-- What a calculation makes of the tables. -/
structure Settles (figure : ValidatorFigure) (at_ : Calculation) (amount : Word)
    (before after : Tables) : Prop where
  /-- The amount is written to its series, and every other row of every series stays. -/
  written : Writes ⟨at_.validatorId, at_.height, at_.time, figure, amount⟩ before after
  /-- The last row of the series, wherever it stands, is counted on the latest snapshot of the validator,
  and nothing else changes among the validators. -/
  counted : ∃ top row, after.statistic? at_.validatorId figure top = some row ∧
    (∀ k, top < k → after.statistic? at_.validatorId figure k = none) ∧
    ∀ key, after.validators.find? key = (before.validators.find? key).map fun v =>
      if latestKey? before.validators at_.validatorId = some key then v.setCounter figure row.amount else v
  /-- No other table changes. -/
  rest : { after with
    validators := before.validators, validatorStatistics := before.validatorStatistics } = before

theorem find?_withCounter (rows : Table (Word × Nat) Validator) (id : Word) (figure : ValidatorFigure)
    (amount : Word) (key : Word × Nat) : (withCounter rows id figure amount).find? key =
      (rows.find? key).map fun v =>
        if latestKey? rows id = some key then v.setCounter figure amount else v := by
  by_cases latest : latestKey? rows id = some key
  · obtain ⟨⟨key, v⟩, last, rfl⟩ := Option.map_eq_some_iff.1 latest
    rw [withCounter_of_last last, Table.find?_insert_self, (Table.last?_eq_some_iff.1 last).1]
    simp [latest]
  · rw [find?_withCounter_of_earlier _ _ latest]
    simp [latest]

theorem calculate_settles (t : Tables) (figure : ValidatorFigure) (at_ : Calculation) :
    Settles figure at_ (t.calculate figure at_).1 t (t.calculate figure at_).2 := by
  set after := (t.calculate figure at_).2 with calculated
  have written : Writes ⟨at_.validatorId, at_.height, at_.time, figure, t.figureAt figure at_⟩ t after :=
    writes_writeFigure t at_ figure _
  -- The series shows the amount at the height, so it has rows, and among them a last one.
  obtain ⟨row, last⟩ : ∃ row, after.lastStatistic? at_.validatorId figure (fun _ => true) = some row := by
    obtain ⟨row, shown, -⟩ := Option.map_eq_some_iff.1 written.shown
    obtain ⟨k, -, found, -⟩ := lastStatistic?_eq_some_iff.1 shown
    refine Option.ne_none_iff_exists'.1 fun none => ?_
    have nowhere := Table.last?_eq_none_iff.1 (Option.map_eq_none_iff.1 none)
    cases (nowhere ((at_.validatorId, figure), k) (by simp)).symm.trans found
  obtain ⟨top, -, found, above⟩ := lastStatistic?_eq_some_iff.1 last
  refine ⟨written, ⟨top, row, found, fun k => above k rfl, fun key => ?_⟩, ?_⟩
  · have amount : row.amount = after.latestAmount at_.validatorId figure := by rw [latestAmount, last]
    rw [amount, ← find?_withCounter, calculated, calculate, writeFigure_eq]
    rfl
  · rw [calculated, calculate, writeFigure_eq]
    rfl

/-- A calculation comes to the sum, or the number, of what stands with the validator at its height, and
changes nothing but the row of its figure there and the counter that shows the last row. -/
theorem calculated_from_standing (t : Tables) (fits : t.FitsRegisters) (at_ : Calculation) :
    (t.calculate .totalStake at_).1.toNat =
      min (∑ id ∈ t.delegations.standing at_.height fun d => d.validatorId = at_.validatorId ∧
          (d.state = .delegated ∨ d.state = .undelegationRequested),
        (t.delegations.upTo? id at_.height).elim 0 (·.amount.toNat)) (2 ^ 256 - 1) ∧
    (t.calculate .activeNodes at_).1.toNat =
      (t.nodes.standing at_.height fun n =>
        n.validatorId = at_.validatorId ∧ n.status = .active).card ∧
    (t.calculate .linkedNodes at_).1.toNat =
      (t.nodes.standing at_.height fun n =>
        n.validatorId = at_.validatorId ∧ n.status ≠ .left).card ∧
    ∀ figure, Settles figure at_ (t.calculate figure at_).1 t (t.calculate figure at_).2 := by
  have staked (state : DelegationState) :
      state.isStaked = decide (state = .delegated ∨ state = .undelegationRequested) := by
    cases state <;> rfl
  have active (status : NodeStatus) : status.isActive = decide (status = .active) := by
    cases status <;> rfl
  have linked (status : NodeStatus) : status.isLinked = decide (status ≠ .left) := by
    cases status <;> rfl
  refine ⟨(figureAt_totalStake fits at_).trans ?_, (figureAt_activeNodes fits at_).trans ?_,
    (figureAt_linkedNodes fits at_).trans ?_, fun figure => calculate_settles t figure at_⟩
  · simp only [staked, beq_eq_decide, Bool.decide_and]
  · simp only [active, beq_eq_decide, Bool.decide_and]
  · simp only [linked, beq_eq_decide, Bool.decide_and]

/-- A validator with two snapshots and a row of its stake at the eighth block. Of its delegations the first
has the greatest amount there is, and the third is with another validator from the sixth block on. Of its
nodes one has left, and one is first seen in the last block. -/
def movedTables : Tables :=
  let delegation (id amount : Word) (state : DelegationState) (height : Nat) : Delegation :=
    { (default : Delegation) with id, validatorId := 1, amount, state, height }
  let node (id : Word) (status : NodeStatus) (height : Nat) : Node :=
    { (default : Node) with id, validatorId := 1, status, height }
  Tables.empty.performAll
    [.saveValidator { (default : Validator) with id := 1, height := 3 },
      .saveValidator { (default : Validator) with id := 1, height := 9 },
      .saveDelegation (delegation 1 (.clamp (2 ^ 256)) .delegated 4),
      .saveDelegation (delegation 2 5 .undelegationRequested 4),
      .saveDelegation (delegation 3 7 .delegated 4),
      .saveDelegation { delegation 3 7 .delegated 6 with validatorId := 2 },
      .saveNodes [node 1 .active 4, node 2 .left 4, node 3 .inMaintenance topHeight],
      .saveValidatorStatistic ⟨1, 8, .ofSeconds 8, .totalStake, 11⟩]

/-- At the sixth block the stakes of two delegations add up beyond the greatest word, while the counter
shows the stake of the eighth block; in the last block the newest node is counted. -/
theorem calculated_from_standing_moved :
    let stake := movedTables.calculate .totalStake ⟨1, 6, .ofSeconds 6⟩
    let last : Calculation := ⟨1, topHeight, .ofSeconds 9⟩
    movedTables.FitsRegisters ∧ stake.1.toNat = 2 ^ 256 - 1 ∧
      Settles .totalStake ⟨1, 6, .ofSeconds 6⟩ stake.1 movedTables stake.2 ∧
      stake.2.validators.find? (1, 9) = (movedTables.validators.find? (1, 9)).map ({ · with staked := 11 }) ∧
      (movedTables.calculate .activeNodes last).1.toNat = 1 ∧
      (movedTables.calculate .linkedNodes last).1.toNat = 2 := by
  have fits : movedTables.FitsRegisters := ⟨by decide, by decide, by decide⟩
  obtain ⟨staked, -, -, settles⟩ := calculated_from_standing movedTables fits ⟨1, 6, .ofSeconds 6⟩
  obtain ⟨-, active, linked, -⟩ := calculated_from_standing movedTables fits ⟨1, topHeight, .ofSeconds 9⟩
  exact ⟨fits, staked.trans (by decide +kernel), settles .totalStake, by decide,
    active.trans (by decide +kernel), linked.trans (by decide +kernel)⟩

end Tables
end StakeIndex
