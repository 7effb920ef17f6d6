import StakeIndex.Proofs.SyncTotals

/-!
Figures that are computed from the stored snapshots at the height of a synchronisation. Where every stored
snapshot is of something that the synchronisation has found, the snapshots that count are those it has
stored, so the figures come to what it has written, and to compute them changes nothing.
-/
namespace StakeIndex

open Dialogue Job Tables EpochSync

namespace Table

section Current

variable {σ α : Type} [Ord σ] [DecidableEq σ] [Std.TransOrd σ] [Std.LawfulEqOrd σ]

/-- Where each subject has a row at a height and none above, the last rows are those at the height. -/
theorem lastOfEach_eq_at {height : Nat} {entries : List ((σ × Nat) × α)}
    (sorted : entries.Pairwise fun a b => compare a.1 b.1 = .lt)
    (low : ∀ e ∈ entries, e.1.2 ≤ height)
    (covered : ∀ e ∈ entries, ∃ e' ∈ entries, e'.1.1 = e.1.1 ∧ e'.1.2 = height) :
    lastOfEach entries = (entries.filter (·.1.2 = height)).map (·.2) := by
  induction entries using lastOfEach.induct with
  | case1 => rfl
  | case2 e =>
    obtain ⟨e', member, -, at_⟩ := covered e (List.mem_singleton_self e)
    cases List.mem_singleton.1 member
    rw [lastOfEach, List.filter_cons_of_pos (by simpa using at_)]
    rfl
  | case3 e next rest subject ih =>
    obtain ⟨below, tail⟩ := List.pairwise_cons.1 sorted
    have earlier : e.1.2 < height := by
      have before := below next List.mem_cons_self
      rw [show e.1 = (next.1.1, e.1.2) from Prod.ext subject rfl, ← Prod.eta next.1,
        compare_heights] at before
      exact before.trans_le (low next (List.mem_cons_of_mem _ List.mem_cons_self))
    rw [lastOfEach, if_pos subject, List.filter_cons_of_neg (by simpa using earlier.ne)]
    refine ih tail (fun e member => low e (List.mem_cons_of_mem _ member)) fun e' member => ?_
    obtain ⟨e'', member', same, at_⟩ := covered e' (List.mem_cons_of_mem _ member)
    obtain rfl | member' := List.mem_cons.1 member'
    · exact absurd at_ earlier.ne
    · exact ⟨e'', member', same, at_⟩
  | case4 e next rest changed ih =>
    obtain ⟨below, tail⟩ := List.pairwise_cons.1 sorted
    have apart : ∀ e' ∈ next :: rest, e'.1.1 ≠ e.1.1 := by
      intro e' member
      obtain rfl | member := List.mem_cons.1 member
      · exact Ne.symm changed
      · exact subjects_apart changed (below next List.mem_cons_self)
          ((List.pairwise_cons.1 tail).1 e' member)
    obtain ⟨e', member, same, at_⟩ := covered e List.mem_cons_self
    obtain rfl | member := List.mem_cons.1 member
    swap
    · exact absurd same (apart e' member)
    rw [lastOfEach, if_neg changed, List.filter_cons_of_pos (by simpa using at_), List.map_cons]
    refine congrArg (_ :: ·) (ih tail (fun e member => low e (List.mem_cons_of_mem _ member)) ?_)
    intro e'' member'
    obtain ⟨found, member'', same', at_'⟩ := covered e'' (List.mem_cons_of_mem _ member')
    obtain rfl | member'' := List.mem_cons.1 member''
    · exact absurd same'.symm (apart e'' member')
    · exact ⟨found, member'', same', at_'⟩

section Stored

theorem boundAfter_self (height : Nat) : (boundAfter height).all (height < ·) := by
  unfold boundAfter
  split
  · exact decide_eq_true (Nat.lt_succ_self height)
  · rfl

theorem le_of_boundAfter {height k : Nat} (fits : k ≤ topHeight) (bounded : (boundAfter height).all (k < ·)) :
    k ≤ height := by
  unfold boundAfter at bounded
  split at bounded
  · exact Nat.le_of_lt_succ (of_decide_eq_true bounded)
  · omega

variable {key : α → σ × Nat} {rows : List α} {old : Table (σ × Nat) α} {height : Nat}
  (distinct : (rows.map key).Nodup) (at_ : ∀ a ∈ rows, (key a).2 = height)
  (fits : ∀ k a, old.find? k = some a → k.2 ≤ topHeight)
  (covers : ∀ k a, old.find? k = some a → k.2 ≤ height → ∃ b ∈ rows, (key b).1 = k.1)
include distinct at_ fits covers

/-- When all subjects that have rows up to a height get a row there, these rows are the current ones. -/
theorem current_perm_of_stored : ((rows.foldl (fun t a => t.insert (key a) a) old).current
    (boundAfter height)).Perm rows := by
  set stored := rows.foldl (fun t a => t.insert (key a) a) old
  have stands (e : (σ × Nat) × α) : e ∈ stored.entries ↔ e.2 ∈ rows ∧ key e.2 = e.1 ∨
      e.1 ∉ rows.map key ∧ old.find? e.1 = some e.2 := by
    rw [← find?_insertAll_of_nodup distinct]
    exact find?_eq_some_iff.symm
  set entries := stored.entries.filter fun e => (boundAfter height).all (e.1.2 < ·) with counted
  have low {e : (σ × Nat) × α} (member : e ∈ entries) : e.1.2 ≤ height := by
    obtain ⟨member, bounded⟩ := List.mem_filter.1 member
    obtain ⟨mine, same⟩ | ⟨-, found⟩ := (stands e).1 member
    · exact (same ▸ at_ _ mine).le
    · exact le_of_boundAfter (fits _ _ found) bounded
  have new {a : α} (member : a ∈ rows) : (key a, a) ∈ entries :=
    List.mem_filter.2 ⟨(stands (key a, a)).2 (.inl ⟨member, rfl⟩), at_ a member ▸ boundAfter_self height⟩
  -- An older row is of a subject of a new one, and stands below it: at the height are the new rows only.
  have covered (e : (σ × Nat) × α) (member : e ∈ entries) :
      ∃ b ∈ rows, (key b).1 = e.1.1 ∧ (e.1.2 = height → b = e.2 ∧ key b = e.1) := by
    obtain ⟨mine, same⟩ | ⟨absent, found⟩ := (stands e).1 (List.mem_filter.1 member).1
    · exact ⟨e.2, mine, congrArg Prod.fst same, fun _ => ⟨rfl, same⟩⟩
    · obtain ⟨b, mine, same⟩ := covers _ _ found (low member)
      refine ⟨b, mine, same, fun top => absurd (List.mem_map.2 ⟨b, mine, ?_⟩) absent⟩
      exact Prod.ext same ((at_ b mine).trans top.symm)
  have sorted : entries.Pairwise fun a b => compare a.1 b.1 = .lt := stored.sorted.filter _
  have current : stored.current (boundAfter height) =
      (entries.filter (·.1.2 = height)).map (·.2) := by
    refine lastOfEach_eq_at sorted (fun e => low) fun e member => ?_
    obtain ⟨b, mine, same, -⟩ := covered e member
    exact ⟨(key b, b), new mine, same, at_ b mine⟩
  have placed : ((entries.filter (·.1.2 = height)).map (·.2)).map key =
      (entries.filter (·.1.2 = height)).map (·.1) := by
    rw [List.map_map]
    refine List.map_congr_left fun e member => ?_
    obtain ⟨member, top⟩ := List.mem_filter.1 member
    obtain ⟨b, -, -, same⟩ := covered e member
    obtain ⟨rfl, placed⟩ := same (of_decide_eq_true top)
    exact placed
  have apart : ((entries.filter (·.1.2 = height)).map (·.1)).Nodup := by
    refine List.pairwise_map.2 ((sorted.filter _).imp fun {a b} before same => ?_)
    rw [same] at before
    simp at before
  rw [current]
  refine (List.perm_ext_iff_of_nodup (.of_map key (placed ▸ apart)) distinct.of_map).2 fun a => ?_
  constructor
  · intro among
    obtain ⟨e, member, rfl⟩ := List.mem_map.1 among
    obtain ⟨member, top⟩ := List.mem_filter.1 member
    obtain ⟨b, mine, -, same⟩ := covered e member
    exact (same (of_decide_eq_true top)).1 ▸ mine
  · intro member
    exact List.mem_map.2 ⟨(key a, a), List.mem_filter.2 ⟨new member, decide_eq_true (at_ a member)⟩, rfl⟩

end Stored

end Current

end Table

namespace Tables

section Amounts

/-- Series that hold the same amounts under the same heights. -/
def SameAmounts (s t : Tables) : Prop := ∀ id figure height,
  (s.statistic? id figure height).map (·.amount) = (t.statistic? id figure height).map (·.amount)

variable {s t : Tables} {id : Word} {figure : ValidatorFigure} {height : Nat} {wanted : Nat → Bool}

theorem lastAmount_eq_some_iff {amount : Word} :
    (t.lastStatistic? id figure wanted).map (·.amount) = some amount ↔ ∃ k, wanted k ∧
      (t.statistic? id figure k).map (·.amount) = some amount ∧
        ∀ k', wanted k' → k < k' → (t.statistic? id figure k').map (·.amount) = none := by
  rw [Option.map_eq_some_iff]
  simp only [lastStatistic?_eq_some_iff, Option.map_eq_none_iff, Option.map_eq_some_iff]
  constructor
  · rintro ⟨row, ⟨k, w, found, top⟩, same⟩
    exact ⟨k, w, ⟨row, found, same⟩, top⟩
  · rintro ⟨k, w, ⟨row, found, same⟩, top⟩
    exact ⟨row, ⟨k, w, found, top⟩, same⟩

theorem SameAmounts.last (same : SameAmounts s t) (wanted : Nat → Bool) :
    (s.lastStatistic? id figure wanted).map (·.amount) =
      (t.lastStatistic? id figure wanted).map (·.amount) := by
  refine Option.ext fun amount => ?_
  have rows (k : Nat) := same id figure k
  simp only [lastAmount_eq_some_iff, rows]

theorem SameAmounts.latestAmount (same : SameAmounts s t) :
    s.latestAmount id figure = t.latestAmount id figure := by
  have amount (t : Tables) : t.latestAmount id figure =
      ((t.lastStatistic? id figure fun _ => true).map (·.amount)).getD 0 := by
    unfold Tables.latestAmount
    cases t.lastStatistic? id figure fun _ => true <;> rfl
  rw [amount, amount, same.last]

/-- A series shows an amount exactly if the row says so, or there is none because it would repeat what
stands below. -/
theorem shows_iff {row : ValidatorStatistic} : t.Shows row ↔
    (t.statistic? row.validatorId row.figure row.height).map (·.amount) =
      if t.amountBelow? row.validatorId row.figure row.height = some row.amount then none
      else some row.amount := by
  rw [Shows, amountAt?_eq]
  cases t.statistic? row.validatorId row.figure row.height with
  | none =>
    by_cases below : t.amountBelow? row.validatorId row.figure row.height = some row.amount <;>
      simp [below]
  | some r =>
    by_cases below : t.amountBelow? row.validatorId row.figure row.height = some row.amount
    · simp only [Option.some.injEq, forall_eq', Option.map_some, if_pos below, reduceCtorEq, iff_false,
        not_and, not_not]
      intro amount
      rw [below, amount]
    · simp only [Option.some.injEq, forall_eq', Option.map_some, if_neg below, and_iff_left_iff_imp]
      intro amount
      rwa [amount]

theorem SameAmounts.shows (same : SameAmounts s t) {row : ValidatorStatistic} :
    s.Shows row ↔ t.Shows row := by
  have below : s.amountBelow? row.validatorId row.figure row.height =
      t.amountBelow? row.validatorId row.figure row.height := same.last _
  rw [shows_iff, shows_iff, same, below]

theorem setCounter_self (v : Validator) (figure : ValidatorFigure) :
    v.setCounter figure (v.counter figure) = v := by
  cases figure <;> rfl

/-- To set a counter that is right already changes nothing. -/
theorem withCounter_of_shows (shown : t.ShowsLatest id figure) :
    withCounter t.validators id figure (t.latestAmount id figure) = t.validators := by
  cases last : t.latest? id with
  | none => exact withCounter_of_none last _ _
  | some e =>
    obtain ⟨key, v⟩ := e
    rw [← shown key v last, withCounter_of_last last, setCounter_self]
    exact Table.insert_of_find? (Table.last?_eq_some_iff.1 last).1

theorem calculate_of_shows {at_ : Calculation} (shows : t.Shows (t.calculated figure at_))
    (shown : t.ShowsLatest at_.validatorId figure) :
    SameAmounts (t.perform (.calculate figure at_)).2 t ∧
      (t.perform (.calculate figure at_)).2.validators = t.validators := by
  have amounts : SameAmounts (t.saveValidatorStatistic (t.calculated figure at_)) t := by
    intro id f height
    rw [statistic?_save]
    split
    next same =>
      obtain ⟨subject, rfl⟩ := same
      obtain ⟨rfl, rfl⟩ := Prod.mk.inj subject
      refine Eq.trans ?_ (shows_iff.1 shows).symm
      split <;> rfl
    next => rfl
  constructor
  · intro id f height
    rw [statistic?_calculate]
    exact amounts id f height
  · rw [performed_calculate]
    dsimp only
    rw [amounts.latestAmount, withCounter_of_shows shown]

end Amounts

section Calculations

/-- Tables of which only the moments in the series may differ. -/
structure SameFigures (s t : Tables) : Prop where
  delegations : s.delegations = t.delegations
  nodes : s.nodes = t.nodes
  validators : s.validators = t.validators
  amounts : SameAmounts s t

variable {s t : Tables}

/-- Where a figure is shown as it would be computed, to compute it returns what is shown and changes
nothing but moments. -/
theorem SameFigures.calculate {figure : ValidatorFigure} {at_ : Calculation} (same : SameFigures s t)
    (shows : t.Shows (t.calculated figure at_)) (shown : t.ShowsLatest at_.validatorId figure) :
    (s.perform (.calculate figure at_)).1 = t.figureAt figure at_ ∧
      SameFigures (s.perform (.calculate figure at_)).2 t := by
  have figures := figureAt_congr same.delegations same.nodes
  have latest : s.latest? at_.validatorId = t.latest? at_.validatorId :=
    congrArg (Table.last? · _) same.validators
  have shows' : s.Shows (s.calculated figure at_) := by
    rw [calculated, figures]
    exact same.amounts.shows.2 shows
  obtain ⟨amounts, validators⟩ := calculate_of_shows shows'
    ((showsLatest_congr latest same.amounts.latestAmount).2 shown)
  refine ⟨congrFun (congrFun figures figure) at_, ?_, ?_, validators.trans same.validators,
    fun id f k => (amounts id f k).trans (same.amounts id f k)⟩
  · exact (calculate_frame Tables.delegations (fun _ _ _ => rfl) figure at_ s).trans same.delegations
  · exact (calculate_frame Tables.nodes (fun _ _ _ => rfl) figure at_ s).trans same.nodes

theorem sameFigures_calculateAll {calculations : List (ValidatorFigure × Calculation)}
    (shows : ∀ x ∈ calculations, t.Shows (t.calculated x.1 x.2) ∧ t.ShowsLatest x.2.validatorId x.1) :
    SameFigures (t.performAll (calculations.map fun x => .calculate x.1 x.2)) t := by
  refine performAll_invariant (SameFigures · t) ⟨rfl, rfl, rfl, fun _ _ _ => rfl⟩ fun r among s same => ?_
  obtain ⟨x, member, rfl⟩ := List.mem_map.1 among
  exact (same.calculate (shows x member).1 (shows x member).2).2

end Calculations

end Tables

namespace EpochSync

section Agreement

variable {chain : ChainAnswers} {plan : SyncPlan} {context : Context} {version : Version}
  {c : SyncContracts} {height size : Nat} {time : Instant} {t : Tables} {known : DelegationCache}
  {vs : List Validator} {ns : List Node} {ds : List Delegation} {turns : List Turn} {w : SyncWorld}

/-- Figures are computed over the snapshots that are current at a height. -/
theorem figureAt_of_current (nodes : (t.nodes.current (boundAfter height)).Perm ns)
    (delegations : (t.delegations.current (boundAfter height)).Perm ds) (id : Word) (time : Instant)
    (figure : ValidatorFigure) :
    t.figureAt figure ⟨id, height, time⟩ = (figures ns ds id).amount figure := by
  have counted (test : NodeStatus → Bool) :
      ((t.nodes.current (boundAfter height)).filter fun n =>
        n.validatorId == id && test n.status).length = nodesOf ns id test :=
    (nodes.filter _).length_eq
  cases figure with
  | activeNodes => exact congrArg Word.ofNat (counted (·.isActive))
  | linkedNodes => exact congrArg Word.ofNat (counted (·.isLinked))
  | totalStake =>
    refine (Word.foldl_saturatingAdd _ _ _).trans (congrArg Word.clamp ?_)
    rw [Word.toNat_zero, Nat.zero_add]
    exact ((delegations.filter _).map _).sum_nat

theorem nodesOf_dated (ns : List Node) (time : Instant) (id : Word) (test : NodeStatus → Bool) :
    nodesOf (ns.map (dated time)) id test = nodesOf ns id test := by
  rw [nodesOf, List.filter_map, List.length_map]
  rfl

theorem figures_dated (ns : List Node) (ds : List Delegation) (time : Instant) :
    figures (ns.map (dated time)) ds = figures ns ds := by
  funext id
  simp only [figures, nodesOf_dated]

/-- The snapshots that stand in a table up to a height are of things that the chain knows at the height,
like all that have ids before theirs. -/
structure Backed {α β : Type} (read : Nat → Except Stop β) (first height : Nat)
    (rows : Table (Word × Nat) α) : Prop where
  fits : ∀ key a, rows.find? key = some a → key.2 ≤ topHeight
  told : ∀ key a, rows.find? key = some a → key.2 ≤ height →
    first ≤ key.1.toNat ∧ ∀ i, first ≤ i → i ≤ key.1.toNat → ∃ b, read i = .ok b

section Current

variable (synchronised : Synchronised chain c height time t known size vs ns turns w)
include synchronised

theorem Synchronised.current_delegations (positive : 0 < size)
    (before : Backed (fun i => told chain (c.controller.delegation (.ofNat i) height)) 0 height
      t.delegations) :
    (w.tables.delegations.current (boundAfter height)).Perm (allFound turns) := by
  have place (d : Delegation) (member : d ∈ allFound turns) : d.height = height := by
    obtain ⟨-, i, -, -, -, there, -⟩ := synchronised.delegations.mem member
    exact (recalled_place there).2
  have distinct : ((allFound turns).map (·.id.toNat)).Nodup :=
    synchronised.delegations.nodup fun i d => delegationAt_key
  rw [synchronised.delegationRows (.refl _)]
  refine Table.current_perm_of_stored (.of_map (·.1.toNat) ?_) place before.fits
    fun key a stored low => ?_
  · rwa [List.map_map]
  · obtain ⟨-, told_⟩ := before.told key a stored low
    obtain ⟨d, found, there⟩ := synchronised.delegations.covers positive (i := key.1.toNat)
      fun j below nothing => by
        obtain ⟨e, told_⟩ := told_ j (Nat.zero_le j) below
        rw [delegationAt, recalled_of_state (told_state told_)] at nothing
        split at nothing
        · cases nothing
        · cases told_.symm.trans nothing
    exact ⟨d, found, (delegationAt_id there).trans (ofNat_toNat key.1)⟩

theorem Synchronised.current_nodes (before : Backed (nodeAt chain c.nodes height) 1 height t.nodes) :
    (w.tables.nodes.current (boundAfter height)).Perm (ns.map (dated time)) := by
  obtain ⟨_, walk⟩ := synchronised.nodes
  have place {i : Nat} {n : Node} (there : nodeAt chain c.nodes height i = .ok n) :
      n.id = .ofNat i ∧ n.height = height :=
    (c.nodes.node_consults height _).told (congrArg Except.toOption there)
  rw [synchronised.nodeRows]
  refine Table.current_perm_of_stored (.of_map Prod.fst ?_) (fun n among => ?_) before.fits
    fun key a stored low => ?_
  · rw [List.map_map, List.map_map]
    exact .of_map Word.toNat (synchronised.node_ids ▸ List.nodup_range')
  · obtain ⟨n, member, rfl⟩ := List.mem_map.1 among
    obtain ⟨i, -, -, there⟩ := walk.mem member
    exact (place there).2
  · obtain ⟨from_, told_⟩ := before.told key a stored low
    have ids : idsFrom 1 = allIds - 1 := rfl
    have fits := key.1.toNat_lt
    obtain ⟨n, found, there⟩ := walk.covers (i := key.1.toNat) from_ (by unfold allIds at ids; omega)
      fun j first below nothing => by
        obtain ⟨e, told_⟩ := told_ j first below
        cases told_.symm.trans nothing
    exact ⟨dated time n, List.mem_map_of_mem found, (place there).1.trans (ofNat_toNat key.1)⟩

end Current

/-- After a synchronisation that returns a summary, each figure of each validator that was found is shown as
it was written. Where the stored snapshots up to the height are of delegations and nodes within the ids that
the chain knows one after another, to compute the figures of these validators anew, in whatever order, returns
what was written, and changes no amount and no counter. -/
theorem calculations_agree {summary : SyncSummary} (found : findContracts context version = .ok c)
    (delegations : Backed (fun i => told chain (c.controller.delegation (.ofNat i) height)) 0 height
      t.delegations)
    (nodes : Backed (nodeAt chain c.nodes height) 1 height t.nodes)
    (returned : Returns (Answers chain) plan context version height time t known (.ok summary) w) :
    ∃ requests snapshots, w.written = requests ++ [.saveValidatorSnapshots snapshots height time] ∧
      snapshots.map (·.validatorId.toNat) = List.range' 1 summary.validators ∧
      (∀ s ∈ snapshots, ∀ figure,
        w.tables.amountAt? s.validatorId figure height = some (s.amount figure)) ∧
      ∀ calculations : List (ValidatorFigure × Calculation),
        (∀ x ∈ calculations, x.2.height = height ∧ ∃ s ∈ snapshots, s.validatorId = x.2.validatorId) →
        let after := w.tables.performAll (calculations.map fun x => .calculate x.1 x.2)
        SameFigures after w.tables ∧ ∀ s ∈ snapshots, ∀ figure time,
          (after.perform (.calculate figure ⟨s.validatorId, height, time⟩)).1 = s.amount figure := by
  obtain ⟨c', vs, ns, turns, before, found', synchronised, rfl, rfl⟩ := returned.synchronised
  cases found.symm.trans found'
  have positive := batch_pos plan
  set snapshots := vs.map fun v => figures ns (allFound turns) v.id with written
  set after := (before.tables.perform (.saveValidatorSnapshots snapshots height time)).2
  have distinct : (snapshots.map (·.validatorId)).Nodup := by
    rw [written, List.map_map]
    exact synchronised.validators_distinct
  have shows (s : ValidatorSnapshot) (member : s ∈ snapshots) (figure : ValidatorFigure) :
      after.Shows ⟨s.validatorId, height, time, figure, s.amount figure⟩ :=
    saveSnapshots_shows member distinct height time before.tables figure
  -- What counts for the height is what was found, so the figures computed from it are those written.
  have computed (s : ValidatorSnapshot) (member : s ∈ snapshots) (figure : ValidatorFigure)
      (time' : Instant) : after.figureAt figure ⟨s.validatorId, height, time'⟩ = s.amount figure := by
    obtain ⟨v, -, rfl⟩ := List.mem_map.1 member
    have current : (after.nodes.current (boundAfter height)).Perm (ns.map (dated time)) := by
      rw [saveSnapshots_frame Tables.nodes fun _ _ _ => rfl]
      exact synchronised.current_nodes nodes
    have current' : (after.delegations.current (boundAfter height)).Perm (allFound turns) := by
      rw [saveSnapshots_frame Tables.delegations fun _ _ _ => rfl]
      exact synchronised.current_delegations positive delegations
    rw [figureAt_of_current current current', figures_dated]
    rfl
  have settled (s : ValidatorSnapshot) (member : s ∈ snapshots) (figure : ValidatorFigure)
      (time' : Instant) :
      after.Shows (after.calculated figure ⟨s.validatorId, height, time'⟩) ∧
        after.ShowsLatest s.validatorId figure := by
    rw [calculated, computed s member]
    exact ⟨shows s member figure, saveValidatorSnapshots_shows member height time before.tables figure⟩
  refine ⟨before.written, snapshots, rfl, ?_, fun s member figure => (shows s member figure).1,
    fun calculations ours => ?_⟩
  · have ids := synchronised.validator_ids
    rw [List.map_map] at ids
    rw [written, List.map_map]
    exact ids
  have each : ∀ x ∈ calculations,
      after.Shows (after.calculated x.1 x.2) ∧ after.ShowsLatest x.2.validatorId x.1 := by
    intro x member
    obtain ⟨at_, s, among, mine⟩ := ours x member
    obtain ⟨figure, id, height', time'⟩ := x
    cases at_
    cases mine
    exact settled s among figure time'
  have same := sameFigures_calculateAll each
  refine ⟨same, fun s member figure time' => ?_⟩
  obtain ⟨shows', shown⟩ := settled s member figure time'
  exact (same.calculate shows' shown).1.trans (computed s member figure time')

end Agreement

section Held

variable {chain : ChainAnswers} {c : SyncContracts} {height : Nat} {vs : List Validator}
  {ns : List Node} {ds : List Delegation} (holds : ChainHolds chain c height vs ns ds)
include holds

theorem ChainHolds.backed_delegations {rows : Table (Word × Nat) Delegation}
    (inside : ∀ key d, rows.find? key = some d → key.2 ≤ topHeight ∧ key.1.toNat < ds.length)
    (few : ds.length ≤ allIds) :
    Backed (fun i => told chain (c.controller.delegation (.ofNat i) height)) 0 height rows where
  fits key d stored := (inside key d stored).1
  told key d stored _ := by
    refine ⟨Nat.zero_le _, fun i _ below => ?_⟩
    have fits := below.trans_lt (inside key d stored).2
    have there : heldAt ds 0 (Word.ofNat i).toNat = .ok ds[i] := by
      rw [toNat_ofNat (fits.trans_le few), heldAt_eq_ok_iff, itemAt?_eq_some_iff]
      exact ⟨i, (Nat.zero_add i).symm, List.getElem?_eq_getElem fits⟩
    rw [told_delegation, holds.records, holds.states, there]
    exact ⟨_, rfl⟩

theorem ChainHolds.backed_nodes {rows : Table (Word × Nat) Node}
    (inside : ∀ key n, rows.find? key = some n →
      key.2 ≤ topHeight ∧ 1 ≤ key.1.toNat ∧ key.1.toNat ≤ ns.length) :
    Backed (nodeAt chain c.nodes height) 1 height rows where
  fits key n stored := (inside key n stored).1
  told key n stored _ := by
    obtain ⟨-, first, last⟩ := inside key n stored
    refine ⟨first, fun i from_ below => ?_⟩
    have few := holds.fewNodes
    obtain ⟨k, rfl⟩ := Nat.exists_eq_add_of_le from_
    have fits : k < ns.length := by omega
    refine ⟨ns[k], (held_ofNat holds.nodes (by omega)).trans ?_⟩
    rw [heldAt_eq_ok_iff, itemAt?_eq_some_iff]
    exact ⟨k, rfl, List.getElem?_eq_getElem fits⟩

end Held

end EpochSync

section ById

/-- Tables with an older snapshot of a delegation and of a node. -/
def olderSnapshots (d : Delegation) (n : Node) : Tables :=
  (Tables.empty.saveDelegation { d with height := 10 }).saveNodes [{ n with height := 10 }]

theorem find?_olderSnapshots {d : Delegation} {n : Node} :
    (∀ key e, (olderSnapshots d n).delegations.find? key = some e →
      key = (d.id, 10) ∧ e = { d with height := 10 }) ∧
    ∀ key e, (olderSnapshots d n).nodes.find? key = some e →
      key = (n.id, 10) ∧ e = { n with height := 10 } := by
  constructor
  all_goals
    intro key e stored
    replace stored := (Table.find?_insert ..).symm.trans stored
    split at stored
    next same => exact ⟨same, (Option.some.inj stored).symm⟩
    next => cases stored

/-- Two workers find 2 validators, 2 active nodes and 3 delegations to the first validator; an older snapshot
has the last delegation with the second validator. Computed anew, after another calculation, the stake of the
first validator is what was written. -/
theorem calculations_agree_held :
    let t := olderSnapshots { heldDelegation 2 with validatorId := 2 } (heldNode 1)
    Backed (fun i => told (holding 2 2 3) (holdingContracts.controller.delegation (.ofNat i) 20)) 0 20
        t.delegations ∧
      Backed (nodeAt (holding 2 2 3) holdingContracts.nodes 20) 1 20 t.nodes ∧
      ∃ w, Returns (Answers (holding 2 2 3)) ⟨2, 2⟩ holdingContext ⟨"1.0.0"⟩ 20 (.ofSeconds 20) t .empty
          (.ok ⟨20, 2, 2, 3⟩) w ∧
        let after := w.tables.performAll [.calculate .activeNodes ⟨2, 20, .ofSeconds 30⟩]
        (after.perform (.calculate .totalStake ⟨1, 20, .ofSeconds 40⟩)).1 = 300 := by
  intro t
  have found : findContracts holdingContext ⟨"1.0.0"⟩ = .ok holdingContracts := rfl
  have holds := holding_holds 2 2 3 (by decide) (by decide)
  obtain ⟨delegations, nodes⟩ :=
    find?_olderSnapshots (d := { heldDelegation 2 with validatorId := 2 }) (n := heldNode 1)
  have backed : Backed (fun i => told (holding 2 2 3)
      (holdingContracts.controller.delegation (.ofNat i) 20)) 0 20 t.delegations := by
    refine holds.backed_delegations (fun key d stored => ?_) (by decide)
    rw [(delegations key d stored).1]
    decide
  have backed' : Backed (nodeAt (holding 2 2 3) holdingContracts.nodes 20) 1 20 t.nodes := by
    refine holds.backed_nodes fun key n stored => ?_
    rw [(nodes key n stored).1]
    decide
  have turns : (runInTurns (holding 2 2 3) ⟨2, 2⟩ holdingContracts 20 (.ofSeconds 20) t .empty
      ((List.range 60).map (· % 4))).map (fun ran => (ran.1, ran.2.tables.amountAt? 1 .totalStake 20)) =
        some (⟨20, 2, 2, 3⟩, some 300) := by decide +kernel
  obtain ⟨⟨summary, w⟩, ran, shown⟩ := Option.map_eq_some_iff.1 turns
  obtain ⟨rfl, shown⟩ := Prod.mk.inj shown
  have returned := (returns_of_turns found ran).weaken
  obtain ⟨-, snapshots, -, ids, written, agree⟩ := calculations_agree found backed backed' returned
  have mine (id : Word) (there : id.toNat ∈ List.range' 1 2) : ∃ s ∈ snapshots, s.validatorId = id := by
    rw [← ids, List.mem_map] at there
    obtain ⟨s, member, same⟩ := there
    exact ⟨s, member, Word.ext same⟩
  obtain ⟨s, member, first⟩ := mine 1 (by decide)
  obtain ⟨-, calculated⟩ := agree [(.activeNodes, ⟨2, 20, .ofSeconds 30⟩)]
    (List.forall_mem_singleton.2 ⟨rfl, mine 2 (by decide)⟩)
  refine ⟨backed, backed', w, returned, ?_⟩
  have stake := calculated s member .totalStake (.ofSeconds 40)
  have amount := written s member .totalStake
  rw [first] at stake amount
  exact stake.trans (Option.some.inj (amount.symm.trans shown))

/-- A chain that has delegations under the ids 0 and 2, a node under the id 0 and a validator. -/
def apart : ChainAnswers :=
  byId fun contract id =>
    if contract = .zero then
      if id = 0 ∨ id = 2 then [4, 1, 100, 0, 0, 0, 0, 256, 0].flatMap Abi.wordOf else []
    else if contract = .ofWord 1 then
      if id = 1 then (List.replicate 9 (0 : Nat)).flatMap Abi.wordOf else []
    else if id = 0 then [0, 0, 0, 0, 0, 0, 0, 0, 1].flatMap Abi.wordOf
    else []

/-- Snapshots of things that the chain knows at the height are not enough for that: nodes are looked for from
the id 1 on, and delegations no further than up to some id under which there is none. So a snapshot of the
node 0, or of a delegation after a gap, counts when a figure is computed anew, and else does not. -/
theorem calculations_differ :
    let t := olderSnapshots (heldDelegation 2) (heldNode 0)
    (∀ key d, t.delegations.find? key = some d →
        (told apart (holdingContracts.controller.delegation key.1 20)).toOption.map (·.validatorId) =
          some d.validatorId) ∧
      (∀ key n, t.nodes.find? key = some n →
        (told apart (holdingContracts.nodes.node key.1 20)).toOption.map (·.validatorId) =
          some n.validatorId) ∧
      ∃ w, Returns (Succeeds apart 20) ⟨1, 10⟩ holdingContext ⟨"1.0.0"⟩ 20 (.ofSeconds 20) t .empty
          (.ok ⟨20, 1, 0, 1⟩) w ∧
        w.tables.amountAt? 1 .totalStake 20 = some 100 ∧
        w.tables.amountAt? 1 .activeNodes 20 = some 0 ∧
        (w.tables.perform (.calculate .totalStake ⟨1, 20, .ofSeconds 30⟩)).1 = 200 ∧
        (w.tables.perform (.calculate .activeNodes ⟨1, 20, .ofSeconds 30⟩)).1 = 1 := by
  intro t
  obtain ⟨delegations, nodes⟩ := find?_olderSnapshots (d := heldDelegation 2) (n := heldNode 0)
  refine ⟨fun key d stored => ?_, fun key n stored => ?_, ?_⟩
  · obtain ⟨rfl, rfl⟩ := delegations key d stored
    decide +kernel
  · obtain ⟨rfl, rfl⟩ := nodes key n stored
    decide +kernel
  have turns : (runInTurns apart ⟨1, 10⟩ holdingContracts 20 (.ofSeconds 20) t .empty
      ((List.range 60).map (· % 3))).map (fun ran => (ran.1,
        ran.2.tables.amountAt? 1 .totalStake 20, ran.2.tables.amountAt? 1 .activeNodes 20,
        (ran.2.tables.perform (.calculate .totalStake ⟨1, 20, .ofSeconds 30⟩)).1,
        (ran.2.tables.perform (.calculate .activeNodes ⟨1, 20, .ofSeconds 30⟩)).1)) =
      some (⟨20, 1, 0, 1⟩, some 100, some 0, 200, 1) := by decide +kernel
  obtain ⟨⟨summary, w⟩, ran, shown⟩ := Option.map_eq_some_iff.1 turns
  simp only [Prod.mk.injEq] at shown
  obtain ⟨rfl, shown⟩ := shown
  have found : findContracts holdingContext ⟨"1.0.0"⟩ = .ok holdingContracts := rfl
  exact ⟨w, returns_of_turns found ran, shown⟩

end ById

end StakeIndex
