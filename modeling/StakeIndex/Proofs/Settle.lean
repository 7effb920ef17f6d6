import StakeIndex.Proofs.Reorder

/-!
What the requests of a block settle. A snapshot may unsettle the figures or the counters of a validator,
but the requests that settle them again follow. So once all requests of the block are performed, what they
computed fits the rows that are there, whatever the order was.
-/
namespace StakeIndex

open Tables

/-- The requests that settle what a request unsettles. -/
def BlockFacts.dues (facts : BlockFacts) : StoreRequest → List StoreRequest
  | .saveValidator v => [.updateCounts v.id]
  | .saveDelegation d => [.calculate .totalStake (facts.calculation d.validatorId)]
  | .saveNodes nodes => nodes.flatMap fun n => [
      .calculate .activeNodes (facts.calculation n.validatorId),
      .calculate .linkedNodes (facts.calculation n.validatorId)]
  | _ => []

/-- After each request comes all that it makes due. -/
def BlockFacts.Followed (facts : BlockFacts) : List StoreRequest → Prop
  | [] => True
  | r :: rest => (∀ due ∈ facts.dues r, due ∈ rest) ∧ facts.Followed rest

/-- The stored rows of a delegation or a node belong to the validator that the chain tells, and the claims
stand in their places. -/
structure BlockFacts.Fits (facts : BlockFacts) (t : Tables) : Prop where
  placed : t.Placed
  delegations : ∀ id height d told, t.delegations.find? (id, height) = some d →
    facts.delegation? id = some told → d.validatorId = told.validatorId
  nodes : ∀ id height n told, t.nodes.find? (id, height) = some n →
    facts.node? id = some told → n.validatorId = told.validatorId

def BlockFacts.ListsOwn (facts : BlockFacts) : Prop :=
  ∀ id nodes, facts.listed? id = some nodes → ∀ n ∈ nodes, n.validatorId = id

section Following

variable {facts : BlockFacts} {first second : List StoreRequest}

theorem BlockFacts.Followed.append (before : facts.Followed first) (after : facts.Followed second) :
    facts.Followed (first ++ second) := by
  induction first with
  | nil => exact after
  | cons r rest ih =>
    obtain ⟨dues, others⟩ := before
    exact ⟨fun due member => List.mem_append_left _ (dues due member), ih others⟩

theorem BlockFacts.Followed.flatMap {ι : Type} {items : List ι} {requests : ι → List StoreRequest}
    (each : ∀ i ∈ items, facts.Followed (requests i)) : facts.Followed (items.flatMap requests) := by
  induction items with
  | nil => trivial
  | cons i rest ih =>
    obtain ⟨first, others⟩ := List.forall_mem_cons.1 each
    rw [List.flatMap_cons]
    exact first.append (ih others)

theorem BlockFacts.Followed.due {requests : List StoreRequest} (followed : facts.Followed requests)
    {r due : StoreRequest} (member : r ∈ requests) (owed : due ∈ facts.dues r) : due ∈ requests := by
  induction requests with
  | nil => cases member
  | cons first rest ih =>
    obtain ⟨dues, others⟩ := followed
    obtain rfl | member := List.mem_cons.1 member
    · exact List.mem_cons_of_mem _ (dues due owed)
    · exact List.mem_cons_of_mem _ (ih others member)

end Following

namespace Tables

variable {facts : BlockFacts} {t : Tables} {r : StoreRequest} {requests requests' : List StoreRequest}

section Homes

theorem Placed.perform (placed : t.Placed) (r : StoreRequest) : (t.perform r).2.Placed := by
  cases r with
  | recordRewardClaim c => exact placed.record c
  | saveContractEvent e => exact saveContractEvent_frame Placed (fun _ _ _ => rfl) e t ▸ placed
  | calculate figure at_ => exact calculate_frame Placed (fun _ _ _ => rfl) figure at_ t ▸ placed
  | updateCounts id =>
    change (t.updateCounts id).Placed
    rw [updateCounts_eq]
    exact placed
  | saveValidatorSnapshots snapshots height time =>
    change (snapshots.foldl (fun t s => t.saveSnapshot height time s) t).Placed
    induction snapshots generalizing t with
    | nil => exact placed
    | cons s rest ih =>
      refine ih ?_
      simp only [saveSnapshot, List.foldl_cons, List.foldl_nil, writeFigure_eq]
      exact placed
  | _ => exact placed

/-- In tables that requests make, every claim stands in its place. -/
theorem placed_performAll (requests : List StoreRequest) : (Tables.empty.performAll requests).Placed := by
  refine performAll_invariant Placed ?_ fun r _ t placed => placed.perform r
  intro key c found
  cases found

theorem fits_perform (fits : facts.Fits t) (states : facts.States r) : facts.Fits (t.perform r).2 := by
  cases states with
  | figures figures =>
    exact figures.frame facts.Fits (fun t _ _ _ _ => propext
      ⟨fun fits => ⟨fits.placed, fits.delegations, fits.nodes⟩,
        fun fits => ⟨fits.placed, fits.delegations, fits.nodes⟩⟩) t ▸ fits
  | delegation d at_ known =>
    refine ⟨fits.placed, fun id height row told found tells => ?_, fits.nodes⟩
    change (t.delegations.insert (d.id, d.height) d).find? (id, height) = some row at found
    rw [Table.find?_insert] at found
    split at found
    next same =>
      cases found
      cases same
      rw [tells] at known
      have owner := congrArg Delegation.validatorId (Option.some.inj known)
      exact owner.symm
    next => exact fits.delegations id height row told found tells
  | nodes rows known =>
    refine ⟨fits.placed, fits.delegations, fun id height row told found tells => ?_⟩
    change (rows.foldl (fun table n => table.insert (n.id, n.height) n) t.nodes).find? (id, height) =
      some row at found
    rw [Table.find?_insertAll fun n : Node => (n.id, n.height)] at found
    cases stored : rows.reverse.find? fun n => (n.id, n.height) = (id, height) with
    | none =>
      rw [stored, Option.none_or] at found
      exact fits.nodes id height row told found tells
    | some n =>
      rw [stored, Option.some_or] at found
      cases found
      have among := List.mem_reverse.1 (List.mem_of_find?_eq_some stored)
      have key := List.find?_some stored
      simp only [decide_eq_true_eq] at key
      cases key
      rw [(known row among).2] at tells
      cases tells
      rfl
  | claim c at_ => exact ⟨fits.placed.perform _, fits.delegations, fits.nodes⟩
  | account a => exact ⟨fits.placed, fits.delegations, fits.nodes⟩
  | systemEvent e derived => exact ⟨fits.placed, fits.delegations, fits.nodes⟩

/-- What holds before the requests, or is settled by one of them, holds after them, if each of them keeps
it or makes due a request that settles it. -/
theorem performAll_settles (holds : Tables → Prop) (fits : facts.Fits t)
    (states : ∀ r ∈ requests, facts.States r) (followed : facts.Followed requests)
    (step : ∀ r ∈ requests, (∀ t, facts.Fits t → holds t → holds (t.perform r).2) ∨
      ∃ due ∈ facts.dues r, ∀ t, facts.Fits t → holds (t.perform due).2)
    (begun : holds t ∨ ∃ r ∈ requests, ∀ t, facts.Fits t → holds (t.perform r).2) :
    holds (t.performAll requests) := by
  induction requests generalizing t with
  | nil =>
    obtain held | ⟨r, none, -⟩ := begun
    · exact held
    · cases none
  | cons r rest ih =>
    obtain ⟨first, others⟩ := List.forall_mem_cons.1 states
    obtain ⟨dues, following⟩ := followed
    obtain ⟨here, after⟩ := List.forall_mem_cons.1 step
    refine ih (fits_perform fits first) others following after ?_
    obtain held | ⟨r', member, settles⟩ := begun
    · obtain keeps | ⟨due, owed, settles⟩ := here
      · exact .inl (keeps t fits held)
      · exact .inr ⟨due, dues due owed, settles⟩
    · obtain rfl | member := List.mem_cons.1 member
      · exact .inl (settles t fits)
      · exact .inr ⟨r', member, settles⟩

end Homes

section Rows

variable {figure : ValidatorFigure} {id : Word}

theorem figureAt_saveDelegation {d : Delegation} {at_ : Calculation}
    (fits : facts.Fits t) (states : facts.States (.saveDelegation d))
    (apart : d.validatorId ≠ at_.validatorId) :
    (t.saveDelegation d).figureAt figure at_ = t.figureAt figure at_ := by
  obtain ⟨told, tells, same⟩ := Option.map_eq_some_iff.1 (states.of_delegation rfl).2
  have owner : told.validatorId = d.validatorId := by
    change told.unstamped.validatorId = d.unstamped.validatorId
    rw [same]
  cases figure with
  | totalStake =>
    refine congrArg sumAmounts (Table.current_filter_congr (fun subject => ?_) _)
    by_cases mine : subject = d.id
    · subst mine
      refine .inr fun height row found => ?_
      have home : row.validatorId = told.validatorId := by
        rcases found with found | found
        · exact (fits_perform fits states).delegations _ _ _ _ found tells
        · exact fits.delegations _ _ _ _ found tells
      rw [home.trans owner, beq_false_of_ne apart, Bool.false_and]
    · refine .inl fun height => Table.find?_insert_ne _ _ ?_
      intro key
      exact mine (congrArg Prod.fst key)
  | activeNodes => rfl
  | linkedNodes => rfl

theorem figureAt_saveNodes {rows : List Node} {at_ : Calculation} (fits : facts.Fits t)
    (states : facts.States (.saveNodes rows)) (apart : ∀ n ∈ rows, n.validatorId ≠ at_.validatorId) :
    (t.saveNodes rows).figureAt figure at_ = t.figureAt figure at_ := by
  have count (counts : Node → Bool) (before : Option Nat) :
      (((t.saveNodes rows).nodes.current before).filter fun n =>
        n.validatorId == at_.validatorId && counts n) =
      (t.nodes.current before).filter fun n => n.validatorId == at_.validatorId && counts n := by
    refine Table.current_filter_congr (fun subject => ?_) _
    by_cases mine : ∃ n ∈ rows, n.id = subject
    · obtain ⟨n, among, rfl⟩ := mine
      have tells := (states.of_nodes rfl n among).2
      refine .inr fun height row found => ?_
      have other : row.validatorId = n.validatorId := by
        rcases found with found | found
        · exact (fits_perform fits states).nodes _ _ _ _ found tells
        · exact fits.nodes _ _ _ _ found tells
      rw [other, beq_false_of_ne (apart n among), Bool.false_and]
    · refine .inl fun height => ?_
      have absent : (rows.reverse.find? fun n => (n.id, n.height) = (subject, height)) = none := by
        rw [List.find?_eq_none]
        intro n among same
        simp only [decide_eq_true_eq] at same
        exact mine ⟨n, List.mem_reverse.1 among, congrArg Prod.fst same⟩
      change (rows.foldl (fun table n => table.insert (n.id, n.height) n) t.nodes).find?
        (subject, height) = _
      rw [Table.find?_insertAll fun n : Node => (n.id, n.height), absent, Option.none_or]
  cases figure with
  | totalStake => rfl
  | activeNodes => exact congrArg (fun rows => Word.ofNat (List.length rows)) (count ..)
  | linkedNodes => exact congrArg (fun rows => Word.ofNat (List.length rows)) (count ..)

/-- The row of a figure at a height is the one that a calculation leaves there. -/
def RowSettled (t : Tables) (figure : ValidatorFigure) (at_ : Calculation) : Prop :=
  t.saveValidatorStatistic (t.calculated figure at_) = t

theorem rowSettled_congr {s t : Tables} {at_ : Calculation}
    (series : ∀ height, s.statistic? at_.validatorId figure height =
      t.statistic? at_.validatorId figure height)
    (amount : s.figureAt figure at_ = t.figureAt figure at_) :
    s.RowSettled figure at_ ↔ t.RowSettled figure at_ := by
  have below := amountBelow?_congr fun height (_ : height < at_.height) => series height
  have same : s.calculated figure at_ = t.calculated figure at_ := by
    rw [calculated, calculated, amount]
  have expected (row : ValidatorStatistic) :
      (if s.amountBelow? at_.validatorId figure at_.height = some row.amount then none else some row) =
        if t.amountBelow? at_.validatorId figure at_.height = some row.amount then none else some row :=
    congrArg (fun below => if below = some row.amount then none else some row) below
  rw [RowSettled, RowSettled, saveValidatorStatistic_eq_self_iff, saveValidatorStatistic_eq_self_iff,
    same]
  constructor
  · intro row
    exact (series _).symm.trans (row.trans (expected _))
  · intro row
    exact (series _).trans (row.trans (expected _).symm)

theorem calculate_rowSettled (t : Tables) (figure : ValidatorFigure) (at_ : Calculation) :
    (t.perform (.calculate figure at_)).2.RowSettled figure at_ :=
  (settled_calculate_iff.1 (steady_calculate figure at_ t)).1

theorem statistic?_perform (states : facts.States r) {height : Nat}
    (other : r = .calculate figure (facts.calculation id) → height ≠ facts.height) :
    (t.perform r).2.statistic? id figure height = t.statistic? id figure height := by
  cases states with
  | figures figures =>
    cases figures with
    | event e =>
      exact saveContractEvent_frame (·.statistic? id figure height) (fun _ _ _ => rfl) e t
    | validator v => rfl
    | counts i =>
      change (t.updateCounts i).statistic? id figure height = _
      rw [updateCounts_eq]
      rfl
    | calculate f i =>
      rw [statistic?_calculate, statistic?_save, if_neg]
      rintro ⟨same, at_⟩
      cases same
      exact other rfl at_
  | _ => rfl

/-- A row that is settled stays so, or a request is due that settles it. -/
theorem rowSettled_step (states : facts.States r) : (∀ t, facts.Fits t →
      t.RowSettled figure (facts.calculation id) →
        (t.perform r).2.RowSettled figure (facts.calculation id)) ∨
    ∃ due ∈ facts.dues r, ∀ t, facts.Fits t →
      (t.perform due).2.RowSettled figure (facts.calculation id) := by
  have keeps (other : r ≠ .calculate figure (facts.calculation id))
      (amount : ∀ t, facts.Fits t → (t.perform r).2.figureAt figure (facts.calculation id) =
        t.figureAt figure (facts.calculation id)) (t : Tables) (fits : facts.Fits t)
      (settled : t.RowSettled figure (facts.calculation id)) :
      (t.perform r).2.RowSettled figure (facts.calculation id) :=
    (rowSettled_congr (fun _ => statistic?_perform states fun same => absurd same other)
      (amount t fits)).2 settled
  have settles : ∀ t, facts.Fits t → (t.perform (.calculate figure (facts.calculation id))).2.RowSettled
      figure (facts.calculation id) := fun t _ => calculate_rowSettled ..
  cases r with
  | saveDelegation d =>
    by_cases mine : d.validatorId = id ∧ figure = .totalStake
    · obtain ⟨rfl, rfl⟩ := mine
      exact .inr ⟨_, List.mem_singleton_self _, settles⟩
    · refine .inl (keeps nofun fun t fits => ?_)
      by_cases owner : d.validatorId = id
      · cases figure with
        | totalStake => exact absurd ⟨owner, rfl⟩ mine
        | activeNodes => rfl
        | linkedNodes => rfl
      · exact figureAt_saveDelegation fits states owner
  | saveNodes rows =>
    by_cases mine : ∃ n ∈ rows, n.validatorId = id
    · obtain ⟨n, among, rfl⟩ := mine
      have due (figure : ValidatorFigure) (counted : figure ≠ .totalStake) :
          .calculate figure (facts.calculation n.validatorId) ∈ facts.dues (.saveNodes rows) := by
        refine List.mem_flatMap.2 ⟨n, among, ?_⟩
        cases figure with
        | totalStake => exact absurd rfl counted
        | activeNodes => exact List.mem_cons_self
        | linkedNodes => exact List.mem_cons_of_mem _ List.mem_cons_self
      by_cases counted : figure = .totalStake
      · subst counted
        exact .inl (keeps nofun fun _ _ => rfl)
      · exact .inr ⟨_, due figure counted, settles⟩
    · refine .inl (keeps nofun fun t fits => figureAt_saveNodes fits states fun n among owner => ?_)
      exact mine ⟨n, among, owner⟩
  | calculate f at_ =>
    by_cases same : StoreRequest.calculate f at_ = .calculate figure (facts.calculation id)
    · cases same
      exact .inl fun t fits _ => settles t fits
    · exact .inl (keeps same fun t _ => calculate_frame (·.figureAt figure (facts.calculation id))
        (fun _ _ _ => rfl) f at_ t)
  | saveContractEvent e =>
    exact .inl (keeps nofun fun t _ => saveContractEvent_frame
      (·.figureAt figure (facts.calculation id)) (fun _ _ _ => rfl) e t)
  | updateCounts i =>
    refine .inl (keeps nofun fun t _ => ?_)
    change (t.updateCounts i).figureAt figure _ = _
    rw [updateCounts_eq]
    rfl
  | saveValidatorStatistic s => nomatch states
  | saveValidatorSnapshots snapshots height time => nomatch states
  | _ => exact .inl (keeps nofun fun _ _ => rfl)

theorem figureAt_of_unstamped {s t : Tables}
    (delegations : s.delegations.map (fun _ => Delegation.unstamped) =
      t.delegations.map fun _ => Delegation.unstamped)
    (nodes : s.nodes = t.nodes) : s.figureAt = t.figureAt := by
  have stake (u : Tables) (at_ : Calculation) : u.figureAt .totalStake at_ =
      sumAmounts (((u.delegations.map fun _ => Delegation.unstamped).current
        (boundAfter at_.height)).filter fun d => d.validatorId == at_.validatorId && d.state.isStaked) := by
    rw [Table.current_map, List.filter_map, sumAmounts, List.foldl_map]
    rfl
  funext figure at_
  cases figure with
  | totalStake => rw [stake, stake, delegations]
  | activeNodes => simp only [figureAt, nodes]
  | linkedNodes => simp only [figureAt, nodes]

end Rows

section Counters

variable {figure : ValidatorFigure} {id : Word}

/-- A counter that shows the latest amount does so afterwards, or an update of the counters is due. -/
theorem showsLatest_step (states : facts.States r) :
    (∀ t, facts.Fits t → t.ShowsLatest id figure → (t.perform r).2.ShowsLatest id figure) ∨
      ∃ due ∈ facts.dues r, ∀ t, facts.Fits t → (t.perform due).2.ShowsLatest id figure := by
  by_cases settled : id ∈ unsettled r
  · cases r with
    | saveValidator v =>
      obtain rfl := List.mem_singleton.1 settled
      exact .inr ⟨_, List.mem_singleton_self _, fun t _ => updateCounts_shows t v.id figure⟩
    | saveValidatorStatistic s => nomatch states
    | _ => cases settled
  · exact .inl fun t _ shown => shown.perform settled

def counter? (t : Tables) (id : Word) (figure : ValidatorFigure) : Option Word :=
  (t.latest? id).map fun e => e.2.counter figure

/-- A counter is changed by a snapshot of its validator, an update, or its own calculation. -/
theorem counter?_perform (states : facts.States r) (stored : ∀ v, r = .saveValidator v → v.id ≠ id)
    (updated : r ≠ .updateCounts id) (calculated : r ≠ .calculate figure (facts.calculation id)) :
    (t.perform r).2.counter? id figure = t.counter? id figure := by
  have other (rows : Table (Word × Nat) Validator) {i : Word} {f : ValidatorFigure} (amount : Word)
      (apart : id = i → figure ≠ f) :
      ((withCounter rows i f amount).last? fun key => key.1 == id).map (fun e => e.2.counter figure) =
        (rows.last? fun key => key.1 == id).map fun e => e.2.counter figure := by
    rw [last?_withCounter, Option.map_map]
    congr 1
    funext e
    dsimp only [Function.comp]
    split
    next same => rw [Validator.counter_setCounter, if_neg (apart same)]
    next => rfl
  cases states with
  | figures figures =>
    cases figures with
    | event e => exact saveContractEvent_frame (·.counter? id figure) (fun _ _ _ => rfl) e t
    | validator v =>
      have apart := stored v rfl
      exact congrArg (Option.map fun e => e.2.counter figure) (last?_insert_other v.height apart v)
    | counts i =>
      change (t.updateCounts i).counter? id figure = _
      rw [updateCounts_eq]
      simp only [counter?, latest?, counted, ValidatorFigure.all, List.foldl_cons, List.foldl_nil]
      have apart (f : ValidatorFigure) : id = i → figure ≠ f := by
        rintro rfl
        exact absurd rfl updated
      rw [other _ _ (apart _), other _ _ (apart _), other _ _ (apart _)]
    | calculate f i =>
      rw [performed_calculate]
      refine other _ _ ?_
      rintro rfl rfl
      exact calculated rfl
  | _ => rfl

end Counters

section Claims

variable {holder : Address}

/-- The rows of a holder from a height on are those of the ledger. -/
def RewardsFrom (t : Tables) (height : Nat) (holder : Address) : Prop :=
  ∀ k ≥ height, ∀ r, t.delegatorStatistics.find? ((holder, .claimedRewards), k) = some r ↔
    r ∈ RewardClaim.rows (t.ledger holder) ∧ r.height = k

theorem claims_perform (states : facts.States r) (none : r.claim? = none) :
    (t.perform r).2.rewardClaims = t.rewardClaims ∧
      (t.perform r).2.delegatorStatistics = t.delegatorStatistics := by
  cases states with
  | figures figures =>
    exact ⟨figures.frame rewardClaims (fun _ _ _ _ _ => rfl) t,
      figures.frame delegatorStatistics (fun _ _ _ _ _ => rfl) t⟩
  | claim c => cases none
  | _ => exact ⟨rfl, rfl⟩

theorem record_rewardsFrom (placed : t.Placed) (c : RewardClaim) :
    (t.recordRewardClaim c).RewardsFrom c.height c.holder := by
  intro k above r
  rw [find?_record_eq_some_iff placed, if_pos ⟨rfl, above⟩]

theorem rewardsFrom_perform (states : facts.States r) (fits : facts.Fits t)
    (settled : t.RewardsFrom facts.height holder) :
    (t.perform r).2.RewardsFrom facts.height holder := by
  cases found : r.claim? with
  | none =>
    obtain ⟨claims, rows⟩ := claims_perform (t := t) states found
    simpa only [RewardsFrom, ledger, claims, rows] using settled
  | some c =>
    have at_ := states.of_claim found
    cases r with
    | recordRewardClaim claim =>
      cases found
      change (t.recordRewardClaim c).RewardsFrom facts.height holder
      by_cases mine : holder = c.holder
      · subst mine
        rw [← at_]
        exact record_rewardsFrom fits.placed c
      · intro k above r
        rw [find?_record_eq_some_iff fits.placed, if_neg, ledger_record_of_ne mine, settled k above]
        rintro ⟨same, -⟩
        exact mine (congrArg Prod.fst same)
    | _ => cases found

theorem delegatorStatistic?_perform (states : facts.States r) (fits : facts.Fits t)
    {figure : DelegatorFigure} {height : Nat}
    (other : ∀ c, r.claim? = some c → (holder, figure) = (c.holder, .claimedRewards) →
      height < facts.height) :
    (t.perform r).2.delegatorStatistics.find? ((holder, figure), height) =
      t.delegatorStatistics.find? ((holder, figure), height) := by
  cases found : r.claim? with
  | none => rw [(claims_perform states found).2]
  | some c =>
    have at_ := states.of_claim found
    cases r with
    | recordRewardClaim claim =>
      cases found
      ext row
      change (t.recordRewardClaim c).delegatorStatistics.find? _ = some row ↔ _
      rw [find?_record_eq_some_iff fits.placed, if_neg]
      rintro ⟨same, above⟩
      have below := other c rfl same
      omega
    | _ => cases found

end Claims

/-- Two stores tell the same of validators, delegations, nodes, accounts, rewards and events. They may
differ in the transactions of delegations, in the numbers of events, and in the counters of snapshots that
are not the latest. -/
structure Agrees (s t : Tables) : Prop where
  delegations : s.delegations.map (fun _ => Delegation.unstamped) =
    t.delegations.map fun _ => Delegation.unstamped
  nodes : s.nodes = t.nodes
  accounts : s.accounts = t.accounts
  rewardClaims : s.rewardClaims = t.rewardClaims
  validatorStatistics : s.validatorStatistics = t.validatorStatistics
  delegatorStatistics : s.delegatorStatistics = t.delegatorStatistics
  contractEvents : s.contractEvents.map (fun _ => ContractEvent.unnumbered) =
    t.contractEvents.map fun _ => ContractEvent.unnumbered
  latest : ∀ id, s.latest? id = t.latest? id

section Order

variable (fits : facts.Fits t) (states : ∀ r ∈ requests, facts.States r)
  (order : requests.Perm requests') (followed : facts.Followed requests)
  (followed' : facts.Followed requests')
include fits states

include followed in
theorem performAll_rowSettled {figure : ValidatorFigure} {id : Word}
    (due : .calculate figure (facts.calculation id) ∈ requests) :
    (t.performAll requests).RowSettled figure (facts.calculation id) :=
  performAll_settles (·.RowSettled figure (facts.calculation id)) fits states followed
    (fun r member => rowSettled_step (states r member))
    (.inr ⟨_, due, fun _ _ => calculate_rowSettled ..⟩)

omit fits in
theorem statistic?_performAll {figure : ValidatorFigure} {id : Word} {height : Nat}
    (other : .calculate figure (facts.calculation id) ∈ requests → height ≠ facts.height) :
    (t.performAll requests).statistic? id figure height = t.statistic? id figure height := by
  refine performAll_invariant (fun s => s.statistic? id figure height = t.statistic? id figure height)
    rfl fun r member s same => ?_
  rw [← same]
  exact statistic?_perform (states r member) fun calculated => other (calculated ▸ member)

include order followed followed' in
theorem validatorStatistics_perm :
    (t.performAll requests).validatorStatistics = (t.performAll requests').validatorStatistics := by
  have states' : ∀ r ∈ requests', facts.States r := fun r member => states r (order.mem_iff.2 member)
  refine Table.ext_find? fun ((id, figure), height) => ?_
  change (t.performAll requests).statistic? id figure height =
    (t.performAll requests').statistic? id figure height
  by_cases due : .calculate figure (facts.calculation id) ∈ requests ∧ height = facts.height
  · obtain ⟨due, rfl⟩ := due
    have row := performAll_rowSettled fits states followed due
    have row' := performAll_rowSettled fits states' followed' (order.mem_iff.1 due)
    have same : (t.performAll requests).calculated figure (facts.calculation id) =
        (t.performAll requests').calculated figure (facts.calculation id) := by
      rw [calculated, calculated, figureAt_of_unstamped (delegations_perm states order t)
        (nodes_perm states order t)]
    have below : (t.performAll requests).amountBelow? id figure facts.height =
        (t.performAll requests').amountBelow? id figure facts.height := by
      refine amountBelow?_congr fun k lower => ?_
      rw [statistic?_performAll states fun _ => lower.ne, statistic?_performAll states' fun _ => lower.ne]
    rw [RowSettled, saveValidatorStatistic_eq_self_iff] at row row'
    rw [same] at row
    refine row.trans (Eq.trans ?_ row'.symm)
    exact congrArg (fun below => if below = some _ then none else some _) below
  · rw [not_and] at due
    rw [statistic?_performAll states due,
      statistic?_performAll states' fun member => due (order.mem_iff.2 member)]

include followed in
theorem performAll_shows {figure : ValidatorFigure} {id : Word} (shown : .updateCounts id ∈ requests ∨
    .calculate figure (facts.calculation id) ∈ requests) :
    (t.performAll requests).ShowsLatest id figure := by
  refine performAll_settles (·.ShowsLatest id figure) fits states followed
    (fun r member => showsLatest_step (states r member)) (.inr ?_)
  obtain update | due := shown
  · exact ⟨_, update, fun s _ => updateCounts_shows s id figure⟩
  · exact ⟨_, due, fun s _ => calculate_shows s figure (facts.calculation id)⟩

omit fits in
include followed in
theorem counter?_performAll {figure : ValidatorFigure} {id : Word} (updated : .updateCounts id ∉ requests)
    (calculated : .calculate figure (facts.calculation id) ∉ requests) :
    (t.performAll requests).counter? id figure = t.counter? id figure := by
  refine performAll_invariant (fun s => s.counter? id figure = t.counter? id figure) rfl
    fun r member s same => ?_
  rw [← same]
  refine counter?_perform (states r member) ?_ ?_ ?_
  · rintro v rfl rfl
    exact updated (followed.due member List.mem_cons_self)
  · rintro rfl
    exact updated member
  · rintro rfl
    exact calculated member

include order in
omit fits in
theorem latest?_bare_perm (id : Word) :
    ((t.performAll requests).latest? id).map (fun e => (e.1, e.2.bare)) =
      ((t.performAll requests').latest? id).map fun e => (e.1, e.2.bare) := by
  have bare (s : Tables) : ((s.validators.map fun _ => Validator.bare).last? fun key => key.1 == id) =
      (s.latest? id).map fun e => (e.1, e.2.bare) := Table.last?_map ..
  rw [← bare, ← bare, validators_perm states order]

include order followed followed' in
theorem counter?_perm (id : Word) (figure : ValidatorFigure) :
    (t.performAll requests).counter? id figure = (t.performAll requests').counter? id figure := by
  have states' : ∀ r ∈ requests', facts.States r := fun r member => states r (order.mem_iff.2 member)
  by_cases shown : .updateCounts id ∈ requests ∨ .calculate figure (facts.calculation id) ∈ requests
  · have shown' := shown
    rw [order.mem_iff, order.mem_iff] at shown'
    have latest {s : Tables} (shows : s.ShowsLatest id figure) : s.counter? id figure =
        ((s.latest? id).map fun e => (e.1, e.2.bare)).map fun _ => s.latestAmount id figure := by
      rw [counter?, Option.map_map]
      cases found : s.latest? id with
      | none => rfl
      | some e => exact congrArg some (shows e.1 e.2 found)
    rw [latest (performAll_shows fits states followed shown),
      latest (performAll_shows fits states' followed' shown'), latest?_bare_perm states order,
      latestAmount_congr (validatorStatistics_perm fits states order followed followed')]
  · obtain ⟨updated, calculated⟩ := not_or.1 shown
    rw [counter?_performAll states followed updated calculated]
    rw [order.mem_iff] at updated calculated
    rw [counter?_performAll states' followed' updated calculated]

include order followed followed' in
theorem latest?_perm (id : Word) :
    (t.performAll requests).latest? id = (t.performAll requests').latest? id := by
  have bare := latest?_bare_perm states order (t := t) id
  have counters := counter?_perm fits states order followed followed' id
  unfold counter? at counters
  cases found : (t.performAll requests).latest? id with
  | none =>
    rw [found] at bare
    exact (Option.map_eq_none_iff.1 bare.symm).symm
  | some e =>
    rw [found] at bare counters
    obtain ⟨e', found', same⟩ := Option.map_eq_some_iff.1 bare.symm
    rw [found'] at counters ⊢
    have key : e.1 = e'.1 := (congrArg Prod.fst same).symm
    have row : e.2 = e'.2 := by
      refine Validator.eq_of_bare (congrArg Prod.snd same).symm fun figure => ?_
      exact Option.some.inj (counters figure)
    rw [Prod.ext key row]

include followed in
theorem performAll_rewardsFrom {r : StoreRequest} (member : r ∈ requests) {c : RewardClaim}
    (claimed : r.claim? = some c) : (t.performAll requests).RewardsFrom facts.height c.holder := by
  refine performAll_settles (·.RewardsFrom facts.height c.holder) fits states followed
    (fun r member => .inl fun t fits settled => rewardsFrom_perform (states r member) fits settled)
    (.inr ⟨r, member, fun s fits => ?_⟩)
  cases r with
  | recordRewardClaim claim =>
    have at_ := (states _ member).of_claim claimed
    cases claimed
    rw [← at_]
    exact record_rewardsFrom fits.placed c
  | _ => cases claimed

theorem delegatorStatistic?_performAll {holder : Address} {figure : DelegatorFigure} {height : Nat}
    (other : ∀ r ∈ requests, ∀ c, r.claim? = some c → (holder, figure) = (c.holder, .claimedRewards) →
      height < facts.height) :
    (t.performAll requests).delegatorStatistics.find? ((holder, figure), height) =
      t.delegatorStatistics.find? ((holder, figure), height) := by
  refine (performAll_invariant (fun s => facts.Fits s ∧
    s.delegatorStatistics.find? ((holder, figure), height) =
      t.delegatorStatistics.find? ((holder, figure), height)) ⟨fits, rfl⟩ ?_).2
  rintro r member s ⟨fits, same⟩
  have row := delegatorStatistic?_perform (states r member) fits (other r member)
  exact ⟨fits_perform fits (states r member), row.trans same⟩

include order followed followed' in
theorem delegatorStatistics_perm
    (ledger : (t.performAll requests).rewardClaims = (t.performAll requests').rewardClaims) :
    (t.performAll requests).delegatorStatistics = (t.performAll requests').delegatorStatistics := by
  have states' : ∀ r ∈ requests', facts.States r := fun r member => states r (order.mem_iff.2 member)
  refine Table.ext_find? fun ((holder, figure), height) => ?_
  by_cases written : ∃ r ∈ requests, ∃ c, r.claim? = some c ∧
      (holder, figure) = (c.holder, .claimedRewards) ∧ facts.height ≤ height
  · obtain ⟨r, member, c, claimed, same, above⟩ := written
    cases same
    have rows := performAll_rewardsFrom fits states followed member claimed height above
    have rows' := performAll_rewardsFrom fits states' followed' (order.mem_iff.1 member) claimed
      height above
    ext row
    rw [rows, rows', Tables.ledger, Tables.ledger, ledger]
  · have other : ∀ r ∈ requests, ∀ c, r.claim? = some c →
        (holder, figure) = (c.holder, .claimedRewards) → height < facts.height := by
      intro r member c claimed same
      by_contra above
      exact written ⟨r, member, c, claimed, same, Nat.le_of_not_lt above⟩
    rw [delegatorStatistic?_performAll fits states other, delegatorStatistic?_performAll fits states'
      fun r member => other r (order.mem_iff.2 member)]

end Order

/-- Requests of one block leave stores that agree, in whatever order they are performed, if what each of
them unsettles is settled afterwards and no two claims or stored events are about the same log. -/
theorem performAll_agrees
    (fits : facts.Fits t) (states : ∀ r ∈ requests, facts.States r) (order : requests.Perm requests')
    (followed : facts.Followed requests) (followed' : facts.Followed requests')
    (claims : ∀ r ∈ requests, ∀ r' ∈ requests, ∀ c c', r.claim? = some c → r'.claim? = some c' →
      c.key = c'.key → c = c')
    (events : ∀ r ∈ requests, ∀ r' ∈ requests, ∀ e e', r.contractEvent? = some e →
      r'.contractEvent? = some e' → (e.txHash, e.logIndex) = (e'.txHash, e'.logIndex) →
        e.unnumbered = e'.unnumbered) :
    (t.performAll requests).Agrees (t.performAll requests') := by
  have ledger := rewardClaims_reordered states order t claims
  constructor
  · exact delegations_perm states order t
  · exact nodes_perm states order t
  · exact accounts_perm states order t
  · exact ledger
  · exact validatorStatistics_perm fits states order followed followed'
  · exact delegatorStatistics_perm fits states order followed followed' ledger
  · exact contractEvents_perm states order t events
  · exact latest?_perm fits states order followed followed'

end Tables
end StakeIndex
