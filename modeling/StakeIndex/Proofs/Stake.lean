import StakeIndex.Proofs.Repeat

/-!
Stakes of validators. An observed delegation leaves a snapshot and a row with the stake as the snapshots
up to its height have it. A row is not looked at again when a snapshot below it comes later, so the
series ends with the stake as it stood at the last observation of its greatest height.
-/
namespace StakeIndex.Tables

/-- The stake of a validator in the current delegations, of those before a height if one is given. -/
def stakeOf (delegations : Table (Word × Nat) Delegation) (before : Option Nat) (id : Word) : Word :=
  sumAmounts ((delegations.current before).filter fun d =>
    d.validatorId == id && d.state.isStaked)

/-- The stake of a validator in the current delegations. -/
def stake (t : Tables) (id : Word) : Word := stakeOf t.delegations none id

theorem calculated_totalStake (t : Tables) (at_ : Calculation) :
    t.calculated .totalStake at_ = ⟨at_.validatorId, at_.height, at_.time, .totalStake,
      stakeOf t.delegations (boundAfter at_.height) at_.validatorId⟩ := rfl

section Homes

variable {home : Word → Word} {rows rows' : Table (Word × Nat) Delegation}

/-- Every snapshot of a delegation is with the validator that is its home. -/
def Homed (home : Word → Word) (rows : Table (Word × Nat) Delegation) : Prop :=
  ∀ key d, rows.find? key = some d → d.validatorId = home key.1

/-- The snapshots before a height of the delegations that are at home with a validator. -/
def atHome (home : Word → Word) (rows : Table (Word × Nat) Delegation) (before : Option Nat)
    (id : Word) : Table (Word × Nat) Delegation :=
  rows.filter fun key _ => before.all (key.2 < ·) && home key.1 == id

theorem stakeOf_atHome (homed : Homed home rows) (before : Option Nat) (id : Word) :
    stakeOf rows before id = sumAmounts ((lastOfEach (atHome home rows before id).entries).filter
      (·.state.isStaked)) := by
  have kept : (rows.filter fun key _ => before.all (key.2 < ·)).entries.Pairwise
      fun a b => compare a.1 b.1 = .lt := Table.sorted _
  have chosen : (rows.current before).filter (·.validatorId == id) = lastOfEach
      ((rows.filter fun key _ => before.all (key.2 < ·)).entries.filter fun e => home e.1.1 == id) := by
    refine Table.lastOfEach_filter (home · == id) kept fun e member => ?_
    rw [homed e.1 e.2 (Table.find?_eq_some_iff.2 (List.mem_filter.1 member).1)]
  calc stakeOf rows before id
      = sumAmounts (((rows.current before).filter (·.validatorId == id)).filter
          (·.state.isStaked)) := by
        simp only [stakeOf, List.filter_filter, Bool.and_comm]
    _ = _ := by
        refine congrArg (fun rows => sumAmounts (List.filter _ rows)) (chosen.trans ?_)
        simp only [Table.filter, atHome, List.filter_filter, Bool.and_comm]

/-- The stake of a validator depends on the snapshots of the delegations at home with it. -/
theorem stakeOf_congr (homed : Homed home rows) (homed' : Homed home rows') {before before' : Option Nat}
    {id : Word} (same : ∀ key, home key.1 = id →
      (rows.find? key).filter (fun _ => before.all (key.2 < ·)) =
        (rows'.find? key).filter fun _ => before'.all (key.2 < ·)) :
    stakeOf rows before id = stakeOf rows' before' id := by
  have equal : atHome home rows before id = atHome home rows' before' id := by
    refine Table.ext_find? fun key => ?_
    rw [atHome, atHome, Table.find?_filter, Table.find?_filter]
    by_cases mine : home key.1 = id
    · simpa [mine] using same key mine
    · have other : (home key.1 == id) = false := beq_false_of_ne mine
      simp [other]
  rw [stakeOf_atHome homed, stakeOf_atHome homed', equal]

end Homes

section Steps

/-- What an observed delegation leaves: its snapshot, and a row with the stake of its validator. -/
def Records (seen : Option Delegation) (t t' : Tables) : Prop :=
  match seen with
  | none => t'.delegations = t.delegations ∧ t'.validatorStatistics = t.validatorStatistics
  | some d => t'.delegations = t.delegations.insert (d.id, d.height) d ∧
      ∃ time, t'.validatorStatistics = (t.saveValidatorStatistic ⟨d.validatorId, d.height, time,
        .totalStake, stakeOf t'.delegations (boundAfter d.height) d.validatorId⟩).validatorStatistics

variable {seen : Option Delegation} {t t' : Tables}

theorem Records.rows (step : Records seen t t') {key : Word × Nat} {d : Delegation}
    (found : t'.delegations.find? key = some d) :
    (seen = some d ∧ key = (d.id, d.height)) ∨ t.delegations.find? key = some d := by
  cases seen with
  | none =>
    rw [step.1] at found
    exact .inr found
  | some told =>
    rw [step.1, Table.find?_insert] at found
    split at found
    next same =>
      cases found
      exact .inl ⟨rfl, same⟩
    next => exact .inr found

theorem Records.apart (step : Records seen t t') {key : Word × Nat}
    (other : ∀ d, seen = some d → key ≠ (d.id, d.height)) :
    t'.delegations.find? key = t.delegations.find? key := by
  cases seen with
  | none => rw [step.1]
  | some told => rw [step.1, Table.find?_insert_ne _ _ (other told rfl)]

theorem Records.series (step : Records seen t t') {id : Word} {height : Nat}
    (other : ∀ d, seen = some d → d.validatorId = id → d.height ≠ height) :
    t'.statistic? id .totalStake height = t.statistic? id .totalStake height := by
  cases seen with
  | none => rw [statistic?, step.2, statistic?]
  | some told =>
    obtain ⟨-, time, series⟩ := step
    rw [statistic?, series]
    refine (statistic?_save t _ id .totalStake height).trans (if_neg ?_)
    rintro ⟨same, rfl⟩
    exact other told rfl (Prod.mk.inj same).1.symm rfl

/-- What touches neither snapshots nor series records nothing. -/
theorem Records.silent {t'' : Tables} (step : Records seen t t') (silent : Records none t' t'') :
    Records seen t t'' := by
  obtain ⟨snapshots, rows⟩ := silent
  cases seen with
  | none => exact ⟨snapshots.trans step.1, rows.trans step.2⟩
  | some d =>
    obtain ⟨inserted, time, series⟩ := step
    exact ⟨snapshots.trans inserted, time, by rw [rows, snapshots, series]⟩

end Steps

section Runs

variable {ι : Type} {see : ι → Option Delegation} {items : List ι} {t t' t'' : Tables}

/-- Observations recorded one after another. -/
inductive Recorded (see : ι → Option Delegation) : List ι → Tables → Tables → Prop where
  | nil (t : Tables) : Recorded see [] t t
  | cons {i : ι} {items : List ι} {t t' t'' : Tables} : Records (see i) t t' →
      Recorded see items t' t'' → Recorded see (i :: items) t t''

theorem Recorded.append {more : List ι} (first : Recorded see items t t')
    (rest : Recorded see more t' t'') : Recorded see (items ++ more) t t'' := by
  induction first with
  | nil => exact rest
  | cons step _ ih => exact .cons step (ih rest)

theorem Recorded.rows (run : Recorded see items t t') {key : Word × Nat} {d : Delegation}
    (found : t'.delegations.find? key = some d) :
    (∃ i ∈ items, see i = some d ∧ key = (d.id, d.height)) ∨ t.delegations.find? key = some d := by
  induction run with
  | nil => exact .inr found
  | cons step _ ih =>
    obtain ⟨i, member, seen⟩ | found := ih found
    · exact .inl ⟨i, List.mem_cons_of_mem _ member, seen⟩
    · exact (step.rows found).imp_left fun seen => ⟨_, List.mem_cons_self, seen⟩

theorem Recorded.apart (run : Recorded see items t t') {key : Word × Nat}
    (other : ∀ i ∈ items, ∀ d, see i = some d → key ≠ (d.id, d.height)) :
    t'.delegations.find? key = t.delegations.find? key := by
  induction run with
  | nil => rfl
  | cons step _ ih =>
    obtain ⟨first, others⟩ := List.forall_mem_cons.1 other
    rw [ih others, step.apart first]

theorem Recorded.series (run : Recorded see items t t') {id : Word} {height : Nat}
    (other : ∀ i ∈ items, ∀ d, see i = some d → d.validatorId = id → d.height ≠ height) :
    t'.statistic? id .totalStake height = t.statistic? id .totalStake height := by
  induction run with
  | nil => rfl
  | cons step _ ih =>
    obtain ⟨first, others⟩ := List.forall_mem_cons.1 other
    rw [ih others, step.series first]

theorem Recorded.homed {home : Word → Word} (run : Recorded see items t t')
    (steady : ∀ i ∈ items, ∀ d, see i = some d → d.validatorId = home d.id)
    (start : Homed home t.delegations) : Homed home t'.delegations := by
  intro key d found
  obtain ⟨i, member, seen, rfl⟩ | found := run.rows found
  · exact steady i member d seen
  · exact start key d found

end Runs

section Latest

variable {t : Tables} {id : Word} {figure : ValidatorFigure} {height : Nat}

/-- A series without rows above a height ends with what it shows there. -/
theorem latestAmount_eq_amountAt?
    (top : ∀ k, height < k → t.statistic? id figure k = none) :
    t.latestAmount id figure = (t.amountAt? id figure height).getD 0 := by
  have last : (t.lastStatistic? id figure fun _ => true) = t.lastStatistic? id figure (· ≤ height) := by
    refine Option.ext fun row => ?_
    simp only [lastStatistic?_eq_some_iff, decide_eq_true_eq]
    constructor
    · rintro ⟨k, -, found, above⟩
      refine ⟨k, ?_, found, fun other _ => above other trivial⟩
      by_contra high
      rw [top k (by omega)] at found
      cases found
    · rintro ⟨k, low, found, above⟩
      refine ⟨k, trivial, found, fun other _ higher => ?_⟩
      by_cases within : other ≤ height
      · exact above other within higher
      · exact top other (by omega)
  rw [latestAmount, last, amountAt?]
  cases t.lastStatistic? id figure (· ≤ height) <;> rfl

end Latest

section Order

variable {ι : Type} {see : ι → Option Delegation} {earlier later : List ι} {i : ι} {d : Delegation}
  {home : Word → Word} {s s' t : Tables}

/-- An observation of a validator is the last one at the greatest height with an observation of it. -/
structure LastOfGreatest (see : ι → Option Delegation) (earlier : List ι) (i : ι) (later : List ι)
    (d : Delegation) : Prop where
  seen : see i = some d
  before : ∀ j ∈ earlier, ∀ other, see j = some other → other.validatorId = d.validatorId →
    other.height ≤ d.height
  after : ∀ j ∈ later, ∀ other, see j = some other → other.validatorId = d.validatorId →
    other.height < d.height

/-- Observations recorded from empty tables, with the tables around the last one of the greatest height
of a validator. -/
structure RecordedAround (see : ι → Option Delegation) (home : Word → Word) (earlier : List ι) (i : ι)
    (later : List ι) (d : Delegation) (s s' t : Tables) : Prop where
  last : LastOfGreatest see earlier i later d
  steady : ∀ j ∈ earlier ++ i :: later, ∀ other, see j = some other →
    other.validatorId = home other.id
  start : Recorded see earlier Tables.empty s
  step : Records (see i) s s'
  rest : Recorded see later s' t

theorem homed_empty (home : Word → Word) : Homed home Tables.empty.delegations :=
  fun _ _ found => (nomatch found)

namespace RecordedAround

variable (run : RecordedAround see home earlier i later d s s' t)
include run

theorem whole : Recorded see (earlier ++ i :: later) Tables.empty t :=
  run.start.append (.cons run.step run.rest)

theorem upTo : Recorded see (earlier ++ [i]) Tables.empty s' :=
  run.start.append (.cons run.step (.nil s'))

theorem homed : Homed home s'.delegations ∧ Homed home t.delegations := by
  have steady' : ∀ j ∈ earlier ++ [i], ∀ other, see j = some other →
      other.validatorId = home other.id := fun j member =>
    run.steady j (by
      simp only [List.mem_append, List.mem_cons, List.not_mem_nil, or_false] at member ⊢
      exact member.imp_right .inl)
  exact ⟨run.upTo.homed steady' (homed_empty home), run.whole.homed run.steady (homed_empty home)⟩

/-- No observation of the validator is above the greatest height. -/
theorem greatest {j : ι} (member : j ∈ earlier ++ i :: later) {other : Delegation}
    (seen : see j = some other) (mine : other.validatorId = d.validatorId) :
    other.height ≤ d.height := by
  obtain member | member := List.mem_append.1 member
  · exact run.last.before j member other seen mine
  obtain rfl | member := List.mem_cons.1 member
  · cases run.last.seen.symm.trans seen
    exact Nat.le_refl _
  · exact (run.last.after j member other seen mine).le

/-- The row that is written last at the greatest height has the stake of all snapshots there are then. -/
theorem stake_at_height : stakeOf s'.delegations (boundAfter d.height) d.validatorId =
    s'.stake d.validatorId := by
  refine stakeOf_congr run.homed.1 run.homed.1 fun key mine => ?_
  cases found : s'.delegations.find? key with
  | none => rfl
  | some other =>
    -- All snapshots at home with the validator were observed of it, so none is above the height.
    have low : key.2 ≤ d.height := by
      obtain ⟨j, member, seen, rfl⟩ | wrong := run.upTo.rows found
      · have member : j ∈ earlier ++ i :: later := by
          simp only [List.mem_append, List.mem_cons, List.not_mem_nil, or_false] at member ⊢
          exact member.imp_right .inl
        exact run.greatest member seen ((run.steady j member other seen).trans mine)
      · cases wrong
    have counts : (boundAfter d.height).all (key.2 < ·) = true := by
      unfold boundAfter
      split
      · exact decide_eq_true (Nat.lt_succ_of_le low)
      · rfl
    simp only [counts]
    rfl

/-- The series ends with the stake as it was recorded last at the greatest height, unless the row was
left out then: then it ends with what stands below that height in the end. -/
theorem latestAmount_eq : t.latestAmount d.validatorId .totalStake =
    if s.amountBelow? d.validatorId .totalStake d.height = some (s'.stake d.validatorId) then
      (t.amountBelow? d.validatorId .totalStake d.height).getD 0
    else s'.stake d.validatorId := by
  have top (k : Nat) (above : d.height < k) : t.statistic? d.validatorId .totalStake k = none := by
    refine (run.whole.series fun j member other seen mine => ?_).trans rfl
    have := run.greatest member seen mine
    omega
  -- Later observations of the validator are lower, so none of them writes at this height.
  have kept := run.rest.series fun j member other seen mine =>
    (run.last.after j member other seen mine).ne
  have step := run.step
  rw [run.last.seen] at step
  obtain ⟨-, time, series⟩ := step
  rw [run.stake_at_height] at series
  have row : t.statistic? d.validatorId .totalStake d.height =
      if s.amountBelow? d.validatorId .totalStake d.height = some (s'.stake d.validatorId) then none
      else some ⟨d.validatorId, d.height, time, .totalStake, s'.stake d.validatorId⟩ := by
    rw [kept, statistic?, series]
    exact statistic?_save_self s _
  rw [latestAmount_eq_amountAt? top, amountAt?_eq, row]
  by_cases same : s.amountBelow? d.validatorId .totalStake d.height = some (s'.stake d.validatorId)
  · rw [if_pos same, if_pos same]
  · rw [if_neg same, if_neg same, Option.getD_some]

/-- Without later observations of the validator the series ends with its stake. -/
theorem latestAmount_of_last
    (absent : ∀ j ∈ later, ∀ other, see j = some other → other.validatorId ≠ d.validatorId) :
    t.latestAmount d.validatorId .totalStake = t.stake d.validatorId := by
  have unchanged : t.stake d.validatorId = s'.stake d.validatorId := by
    refine stakeOf_congr run.homed.2 run.homed.1 fun key mine => ?_
    rw [run.rest.apart]
    rintro j member other seen rfl
    refine absent j member other seen (.trans ?_ mine)
    exact run.steady j (by simp [member]) other seen
  have below : t.amountBelow? d.validatorId .totalStake d.height =
      s.amountBelow? d.validatorId .totalStake d.height := by
    refine amountBelow?_congr fun k low => ?_
    rw [run.rest.series fun j member other seen mine => absurd mine (absent j member other seen)]
    refine run.step.series fun other seen _ => ?_
    cases run.last.seen.symm.trans seen
    exact low.ne'
  rw [run.latestAmount_eq, unchanged, below]
  split
  next same => rw [same, Option.getD_some]
  next => rfl

end RecordedAround

/-- A validator that was not observed has no stake and no row. -/
theorem Recorded.unseen {items : List ι} {id : Word} (run : Recorded see items Tables.empty t)
    (steady : ∀ j ∈ items, ∀ other, see j = some other → other.validatorId = home other.id)
    (absent : ∀ j ∈ items, ∀ other, see j = some other → other.validatorId ≠ id) :
    t.latestAmount id .totalStake = 0 ∧ t.stake id = 0 := by
  constructor
  · have rows (k : Nat) : t.statistic? id .totalStake k = none :=
      run.series fun j member other seen mine => absurd mine (absent j member other seen)
    have shown : t.amountAt? id .totalStake 0 = none := by
      rw [amountAt?_eq, rows]
      refine (amountBelow?_congr fun k low => ?_).trans (rfl : Tables.empty.amountBelow? _ _ _ = _)
      omega
    rw [latestAmount_eq_amountAt? fun k _ => rows k, shown]
    rfl
  · have same : t.stake id = Tables.empty.stake id := by
      refine stakeOf_congr (run.homed steady (homed_empty home)) (homed_empty home) fun key mine => ?_
      rw [run.apart]
      rintro j member other seen rfl
      exact absent j member other seen ((steady j member other seen).trans mine)
    rw [same]
    rfl

/-- Of the observations of a validator, if there are any, one is the last at their greatest height. -/
theorem exists_lastOfGreatest (see : ι → Option Delegation) (id : Word) (items : List ι) :
    (∀ j ∈ items, ∀ other, see j = some other → other.validatorId ≠ id) ∨
      ∃ earlier i later d, items = earlier ++ i :: later ∧ d.validatorId = id ∧
        LastOfGreatest see earlier i later d := by
  induction items with
  | nil => exact .inl fun _ member => (nomatch member)
  | cons j rest ih =>
    by_cases mine : ∃ d, see j = some d ∧ d.validatorId = id
    · obtain ⟨d, seen, mine⟩ := mine
      obtain absent | ⟨earlier, i, later, last, rfl, same, greatest⟩ := ih
      · refine .inr ⟨[], j, rest, d, rfl, mine, seen, fun _ member => (nomatch member), ?_⟩
        exact fun k member other seen same =>
          absurd (same.trans mine) (absent k member other seen)
      -- The head counts only if it is above all that follow: of equal heights the later one is taken.
      by_cases above : last.height < d.height
      · refine .inr ⟨[], j, _, d, rfl, mine, seen, fun _ member => (nomatch member), ?_⟩
        intro k member other seen' same'
        have mine' : other.validatorId = last.validatorId := same'.trans (mine.trans same.symm)
        obtain member | member := List.mem_append.1 member
        · have := greatest.before k member other seen' mine'
          omega
        obtain rfl | member := List.mem_cons.1 member
        · cases greatest.seen.symm.trans seen'
          exact above
        · have := greatest.after k member other seen' mine'
          omega
      · refine .inr ⟨j :: earlier, i, later, last, rfl, same, greatest.seen, ?_, greatest.after⟩
        refine List.forall_mem_cons.2 ⟨fun other seen' _ => ?_, greatest.before⟩
        cases seen.symm.trans seen'
        omega
    · have apart (other : Delegation) (seen : see j = some other) : other.validatorId ≠ id :=
        fun same => mine ⟨other, seen, same⟩
      obtain absent | ⟨earlier, i, later, last, rfl, same, greatest⟩ := ih
      · exact .inl (List.forall_mem_cons.2 ⟨apart, absent⟩)
      · refine .inr ⟨j :: earlier, i, later, last, rfl, same, greatest.seen, ?_, greatest.after⟩
        exact List.forall_mem_cons.2 ⟨fun other seen same' =>
          absurd (same'.trans same) (apart other seen), greatest.before⟩

end Order

end StakeIndex.Tables
