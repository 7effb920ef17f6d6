import StakeIndex.Proofs.Rewards
import StakeIndex.Proofs.Series

/-!
Writes that may be made again. A request is settled when performing it changes nothing. Each write settles
itself, and none of those that follow it in the handling of a log unsettles it, so writes that were made
can all be made once more.
-/
namespace StakeIndex.Tables

/-- Performing a request changes nothing. -/
def Settled (t : Tables) (r : StoreRequest) : Prop := (t.perform r).2 = t

/-- A request is settled after it was performed. -/
def Steady (r : StoreRequest) : Prop := ∀ t : Tables, (t.perform r).2.Settled r

/-- A request leaves another one settled. -/
def Keeps (later r : StoreRequest) : Prop :=
  ∀ t : Tables, t.Settled r → (t.perform later).2.Settled r

/-- Requests each of which is settled by itself and stays so while the later ones are performed. -/
structure Orderly (requests : List StoreRequest) : Prop where
  steady : ∀ r ∈ requests, Steady r
  keeps : requests.Pairwise fun r later => Keeps later r

section Order

variable {requests : List StoreRequest} {t : Tables}

theorem Orderly.settled (orderly : Orderly requests) (t : Tables) :
    ∀ r ∈ requests, (t.performAll requests).Settled r := by
  induction requests generalizing t with
  | nil =>
    intro r member
    cases member
  | cons first rest ih =>
    obtain ⟨⟨steady, others⟩, keeps, tail⟩ :=
      And.intro (List.forall_mem_cons.1 orderly.steady) (List.pairwise_cons.1 orderly.keeps)
    intro r member
    rcases List.mem_cons.1 member with rfl | member
    · rw [performAll_cons]
      exact performAll_invariant (·.Settled r) (steady t) keeps
    · exact ih ⟨others, tail⟩ _ r member

theorem performAll_of_settled (settled : ∀ r ∈ requests, t.Settled r) :
    t.performAll requests = t := by
  induction requests with
  | nil => rfl
  | cons first rest ih =>
    obtain ⟨same, others⟩ := List.forall_mem_cons.1 settled
    rw [performAll_cons, same, ih others]

theorem Orderly.take (orderly : Orderly requests) (k : Nat) : Orderly (requests.take k) :=
  ⟨fun r member => orderly.steady r (List.mem_of_mem_take member),
    orderly.keeps.sublist (List.take_sublist k _)⟩

/-- Orderly requests can be made again. -/
theorem Orderly.again (orderly : Orderly requests) (t : Tables) :
    (t.performAll requests).performAll requests = t.performAll requests :=
  performAll_of_settled (orderly.settled t)

theorem Orderly.append {first second : List StoreRequest} (before : Orderly first)
    (after : Orderly second) (keeps : ∀ r ∈ first, ∀ later ∈ second, Keeps later r) :
    Orderly (first ++ second) :=
  ⟨fun r member => (List.mem_append.1 member).elim (before.steady r) (after.steady r),
    List.pairwise_append.2 ⟨before.keeps, after.keeps, keeps⟩⟩

theorem orderly_nil : Orderly [] := ⟨fun _ member => (nomatch member), .nil⟩

theorem Orderly.cons {r : StoreRequest} (steady : Steady r) (orderly : Orderly requests)
    (keeps : ∀ later ∈ requests, Keeps later r) : Orderly (r :: requests) :=
  ⟨List.forall_mem_cons.2 ⟨steady, orderly.steady⟩, List.pairwise_cons.2 ⟨keeps, orderly.keeps⟩⟩

end Order

section Subjects

/-- What an event of the system is about. -/
def subject (e : SystemEvent) : (Nat × SystemEventKind) × (Address × Word) × (Address × Word) :=
  ((e.height, e.kind), (e.sender, e.senderId), (e.recipient, e.recipientId))

theorem sameSubject_iff {a b : SystemEvent} : sameSubject a b ↔ subject a = subject b := by
  simp only [sameSubject, subject, Bool.and_eq_true, beq_iff_eq, Prod.mk.injEq, and_assoc]

theorem putSystemEvent_again (e : SystemEvent) (events : List SystemEvent) :
    putSystemEvent e (putSystemEvent e events) = putSystemEvent e events := by
  induction events with
  | nil => exact if_pos (sameSubject_iff.2 rfl)
  | cons known rest ih =>
    by_cases same : sameSubject known e
    · rw [putSystemEvent, if_pos same]
      exact if_pos same
    · rw [putSystemEvent, if_neg same, putSystemEvent, if_neg same, ih]

/-- An event about another thing does not change back what was put. -/
theorem putSystemEvent_apart {a b : SystemEvent} (apart : subject a ≠ subject b)
    {events : List SystemEvent} (there : putSystemEvent a events = events) :
    putSystemEvent a (putSystemEvent b events) = putSystemEvent b events := by
  induction events with
  | nil => cases there
  | cons known rest ih =>
    rw [putSystemEvent] at there
    by_cases same : sameSubject known a
    · have other : ¬ sameSubject known b := fun both =>
        apart ((sameSubject_iff.1 same).symm.trans (sameSubject_iff.1 both))
      rw [if_pos same] at there
      rw [putSystemEvent, if_neg other, putSystemEvent, if_pos same, (List.cons.inj there).1]
    · rw [if_neg same] at there
      have tail := (List.cons.inj there).2
      by_cases both : sameSubject known b
      · rw [putSystemEvent, if_pos both]
        refine (if_neg same).trans ?_
        rw [tail]
      · rw [putSystemEvent, if_neg both, putSystemEvent, if_neg same, ih tail]

/-- Events of some subjects are put among those of these subjects. -/
theorem filter_putSystemEvent {keep : SystemEvent → Bool}
    (same : ∀ a b, subject a = subject b → keep a = keep b) (e : SystemEvent) (events : List SystemEvent) :
    (putSystemEvent e events).filter keep =
      if keep e then putSystemEvent e (events.filter keep) else events.filter keep := by
  induction events with
  | nil => cases kept : keep e <;> simp [putSystemEvent, kept]
  | cons known rest ih =>
    by_cases both : sameSubject known e
    · have alike : keep known = keep e := same _ _ (sameSubject_iff.1 both)
      have changed : keep { known with before := e.before, after := e.after, change := e.change } =
          keep known := same _ _ rfl
      rw [putSystemEvent, if_pos both]
      cases kept : keep e with
      | true =>
        rw [List.filter_cons_of_pos (changed.trans (alike.trans kept)),
          List.filter_cons_of_pos (alike.trans kept), if_pos rfl, putSystemEvent, if_pos both]
      | false =>
        rw [List.filter_cons_of_neg (by simp [changed, alike, kept]),
          List.filter_cons_of_neg (by simp [alike, kept]), if_neg Bool.false_ne_true]
    · rw [putSystemEvent, if_neg both]
      cases kept : keep known with
      | true =>
        rw [List.filter_cons_of_pos kept, List.filter_cons_of_pos kept, ih, putSystemEvent, if_neg both]
        split <;> rfl
      | false =>
        rw [List.filter_cons_of_neg (by simp [kept]), List.filter_cons_of_neg (by simp [kept]), ih]

theorem settled_saveSystemEvent_iff {t : Tables} {e : SystemEvent} :
    t.Settled (.saveSystemEvent e) ↔ putSystemEvent e t.systemEvents = t.systemEvents :=
  ⟨congrArg systemEvents, congrArg fun events => { t with systemEvents := events }⟩

theorem steady_saveSystemEvent (e : SystemEvent) : Steady (.saveSystemEvent e) :=
  fun t => settled_saveSystemEvent_iff.2 (putSystemEvent_again e t.systemEvents)

theorem keeps_systemEvent {e : SystemEvent} {later : StoreRequest}
    (same : ∀ t : Tables, (t.perform later).2.systemEvents = t.systemEvents) :
    Keeps later (.saveSystemEvent e) := by
  intro t settled
  rw [settled_saveSystemEvent_iff] at settled ⊢
  rw [same, settled]

theorem keeps_systemEvent_apart {a b : SystemEvent} (apart : subject a ≠ subject b) :
    Keeps (.saveSystemEvent b) (.saveSystemEvent a) := fun _ settled =>
  settled_saveSystemEvent_iff.2
    (putSystemEvent_apart apart (settled_saveSystemEvent_iff.1 settled))

/-- Events about different things. -/
theorem orderly_systemEvents {events : List SystemEvent}
    (apart : events.Pairwise fun a b => subject a ≠ subject b) :
    Orderly (events.map .saveSystemEvent) :=
  ⟨List.forall_mem_map.2 fun e _ => steady_saveSystemEvent e,
    List.pairwise_map.2 (apart.imp keeps_systemEvent_apart)⟩

end Subjects

section Rows

/-- What does not look at the stored events is not changed by storing one. -/
theorem saveContractEvent_frame {α : Type} (look : Tables → α)
    (blind : ∀ t events last, look { t with contractEvents := events, lastEventId := last } = look t)
    (e : ContractEvent) (t : Tables) : look (t.perform (.saveContractEvent e)).2 = look t := by
  simp only [perform, saveContractEvent]
  split
  · exact blind t _ t.lastEventId
  · exact blind ..

theorem steady_saveContractEvent (e : ContractEvent) : Steady (.saveContractEvent e) := by
  intro t
  obtain ⟨id, there⟩ : ∃ id, (t.perform (.saveContractEvent e)).2.contractEvents.find?
      (e.txHash, e.logIndex) = some { e with id := some id } := by
    simp only [perform, saveContractEvent]
    split
    · exact ⟨_, Table.find?_insert_self ..⟩
    · exact ⟨_, Table.find?_insert_self ..⟩
  have known : (t.perform (.saveContractEvent e)).2.eventId? e = some id := by
    rw [eventId?, there]
    rfl
  generalize (t.perform (.saveContractEvent e)).2 = after at there known
  simp only [Settled, perform, saveContractEvent, known, Table.insert_of_find? there]

theorem settled_saveDelegation_iff {t : Tables} {d : Delegation} :
    t.Settled (.saveDelegation d) ↔ t.delegations.find? (d.id, d.height) = some d := by
  constructor
  · intro settled
    have same : t.delegations.insert (d.id, d.height) d = t.delegations :=
      congrArg delegations settled
    rw [← same, Table.find?_insert_self]
  · intro there
    simp only [Settled, perform, saveDelegation, Table.insert_of_find? there]

theorem steady_saveDelegation (d : Delegation) : Steady (.saveDelegation d) :=
  fun _ => settled_saveDelegation_iff.2 (Table.find?_insert_self ..)

theorem keeps_delegation {d : Delegation} {later : StoreRequest}
    (same : ∀ t : Tables, (t.perform later).2.delegations = t.delegations) :
    Keeps later (.saveDelegation d) := by
  intro t settled
  rw [settled_saveDelegation_iff] at settled ⊢
  rw [same, settled]

theorem max_again (a b : AccountType) : (a.max b).max b = a.max b := by
  cases a <;> cases b <;> rfl

/-- A type that another one does not lift is not lifted by it after a third one either. -/
theorem max_keeps {a b : AccountType} (h : a.max b = a) (c : AccountType) :
    (a.max c).max b = a.max c := by
  revert h
  cases a <;> cases b <;> cases c <;> decide

theorem find?_saveAccount (t : Tables) (a : Account) (address : Address) :
    (t.saveAccount a).accounts.find? address =
      if address = a.address then
        some (((t.accounts.find? a.address).map (·.max a.type)).getD a.type)
      else t.accounts.find? address := by
  rw [saveAccount, Table.find?_insert]
  split
  next => cases t.accounts.find? a.address <;> rfl
  next => rfl

theorem settled_saveAccount_iff {t : Tables} {a : Account} :
    t.Settled (.saveAccount a) ↔
      ∃ known, t.accounts.find? a.address = some known ∧ known.max a.type = known := by
  constructor
  · intro settled
    have same : (t.saveAccount a).accounts = t.accounts := congrArg accounts settled
    have there := find?_saveAccount t a a.address
    rw [same, if_pos rfl] at there
    cases known : t.accounts.find? a.address with
    | none =>
      rw [known] at there
      cases there
    | some type =>
      rw [known] at there
      exact ⟨type, rfl, (Option.some.inj there).symm⟩
  · rintro ⟨known, there, highest⟩
    simp only [Settled, perform, saveAccount, there, highest, Table.insert_of_find? there]

theorem steady_saveAccount (a : Account) : Steady (.saveAccount a) := by
  intro t
  refine settled_saveAccount_iff.2 ⟨_, (find?_saveAccount t a _).trans (if_pos rfl), ?_⟩
  cases t.accounts.find? a.address with
  | none => cases a.type <;> rfl
  | some known => exact max_again known a.type

theorem keeps_account {a : Account} {later : StoreRequest}
    (same : ∀ t : Tables, (t.perform later).2.accounts = t.accounts) :
    Keeps later (.saveAccount a) := by
  intro t settled
  rw [settled_saveAccount_iff] at settled ⊢
  rw [same]
  exact settled

theorem keeps_account_account (a b : Account) : Keeps (.saveAccount b) (.saveAccount a) := by
  intro t settled
  obtain ⟨known, there, highest⟩ := settled_saveAccount_iff.1 settled
  refine settled_saveAccount_iff.2 ?_
  have after := find?_saveAccount t b a.address
  split at after
  next same =>
    rw [← same, there] at after
    exact ⟨_, after, max_keeps highest b.type⟩
  next => exact ⟨known, after.trans there, highest⟩

theorem orderly_accounts (accounts : List Account) : Orderly (accounts.map .saveAccount) :=
  ⟨List.forall_mem_map.2 fun a _ => steady_saveAccount a,
    List.pairwise_map.2 (List.pairwise_of_forall keeps_account_account)⟩

theorem steady_saveNodes (nodes : List Node) : Steady (.saveNodes nodes) := by
  intro t
  have again : ((t.saveNodes nodes).saveNodes nodes).nodes = (t.saveNodes nodes).nodes := by
    refine Table.ext_find? fun key => ?_
    simp only [saveNodes, Table.find?_insertAll fun n : Node => (n.id, n.height), ← Option.or_assoc,
      Option.or_self]
  exact congrArg (fun rows => { t with nodes := rows }) again

theorem keeps_nodes {nodes : List Node} {later : StoreRequest}
    (same : ∀ t : Tables, (t.perform later).2.nodes = t.nodes) :
    Keeps later (.saveNodes nodes) := by
  intro t settled
  have settled : (t.saveNodes nodes).nodes = t.nodes := congrArg Tables.nodes settled
  have again : ((t.perform later).2.saveNodes nodes).nodes = (t.perform later).2.nodes := by
    simp only [saveNodes, same] at settled ⊢
    exact settled
  exact congrArg (fun rows => { (t.perform later).2 with nodes := rows }) again

theorem settled_recordRewardClaim_iff {t : Tables} {c : RewardClaim} :
    t.Settled (.recordRewardClaim c) ↔ (t.recordRewardClaim c).rewardClaims = t.rewardClaims ∧
      (t.recordRewardClaim c).delegatorStatistics = t.delegatorStatistics := by
  constructor
  · intro settled
    exact ⟨congrArg rewardClaims settled, congrArg delegatorStatistics settled⟩
  · rintro ⟨claims, rows⟩
    calc t.recordRewardClaim c
        = { t with
            rewardClaims := (t.recordRewardClaim c).rewardClaims
            delegatorStatistics := (t.recordRewardClaim c).delegatorStatistics } := rfl
      _ = t := by rw [claims, rows]

theorem delegatorStatistics_record (t : Tables) (c : RewardClaim) :
    (t.recordRewardClaim c).delegatorStatistics =
      ((RewardClaim.rows ((t.recordRewardClaim c).ledger c.holder)).filter (c.height ≤ ·.height)).foldl
        (fun table r => table.insert ((r.holder, .claimedRewards), r.height) r)
        (t.delegatorStatistics.filter fun key _ =>
          !(key.1 == (c.holder, .claimedRewards) && c.height ≤ key.2)) :=
  rfl

theorem steady_recordRewardClaim (c : RewardClaim) : Steady (.recordRewardClaim c) := by
  intro t
  have claims : ((t.recordRewardClaim c).recordRewardClaim c).rewardClaims =
      (t.recordRewardClaim c).rewardClaims := Table.insert_insert ..
  refine settled_recordRewardClaim_iff.2 ⟨claims, ?_⟩
  have ledger : ((t.recordRewardClaim c).recordRewardClaim c).ledger c.holder =
      (t.recordRewardClaim c).ledger c.holder := by rw [Tables.ledger, claims, Tables.ledger]
  change ((t.recordRewardClaim c).recordRewardClaim c).delegatorStatistics =
    (t.recordRewardClaim c).delegatorStatistics
  rw [delegatorStatistics_record (t.recordRewardClaim c), ledger, delegatorStatistics_record t]
  exact Table.insertAll_again (fun r : DelegatorStatistic =>
    ((r.holder, DelegatorFigure.claimedRewards), r.height)) ..

theorem keeps_rewardClaim {c : RewardClaim} {later : StoreRequest}
    (claims : ∀ t : Tables, (t.perform later).2.rewardClaims = t.rewardClaims)
    (rows : ∀ t : Tables, (t.perform later).2.delegatorStatistics = t.delegatorStatistics) :
    Keeps later (.recordRewardClaim c) := by
  intro t settled
  rw [settled_recordRewardClaim_iff] at settled ⊢
  simpa only [recordRewardClaim, claims, rows] using settled

end Rows

section Figures

variable {t : Tables}

theorem setCounter_again (v : Validator) (figure : ValidatorFigure) (a b : Word) :
    (v.setCounter figure a).setCounter figure b = v.setCounter figure b := by
  cases figure <;> rfl

theorem setCounter_comm (v : Validator) {f g : ValidatorFigure} (other : f ≠ g) (a b : Word) :
    (v.setCounter f a).setCounter g b = (v.setCounter g b).setCounter f a := by
  cases f <;> cases g <;> first | rfl | exact absurd rfl other

section Counters

variable {validators : Table (Word × Nat) Validator} {id : Word} {key : Word × Nat} {v : Validator}

theorem withCounter_of_last (last : (validators.last? fun key => key.1 == id) = some (key, v))
    (figure : ValidatorFigure) (amount : Word) :
    withCounter validators id figure amount = validators.insert key (v.setCounter figure amount) := by
  rw [withCounter, last]

theorem withCounter_of_none (last : (validators.last? fun key => key.1 == id) = none)
    (figure : ValidatorFigure) (amount : Word) :
    withCounter validators id figure amount = validators := by
  rw [withCounter, last]

theorem withCounter_again (validators : Table (Word × Nat) Validator) (id : Word)
    (figure : ValidatorFigure) (a b : Word) :
    withCounter (withCounter validators id figure a) id figure b =
      withCounter validators id figure b := by
  cases last : validators.last? fun key => key.1 == id with
  | none => rw [withCounter_of_none last, withCounter_of_none last]
  | some e =>
    rw [withCounter_of_last last, withCounter_of_last last,
      withCounter_of_last (Table.last?_insert_last last _), Table.insert_insert, setCounter_again]

theorem withCounter_comm (validators : Table (Word × Nat) Validator) (id : Word)
    {f g : ValidatorFigure} (other : f ≠ g) (a b : Word) :
    withCounter (withCounter validators id f a) id g b =
      withCounter (withCounter validators id g b) id f a := by
  cases last : validators.last? fun key => key.1 == id with
  | none => rw [withCounter_of_none last, withCounter_of_none last, withCounter_of_none last]
  | some e =>
    rw [withCounter_of_last last, withCounter_of_last last,
      withCounter_of_last (Table.last?_insert_last last _),
      withCounter_of_last (Table.last?_insert_last last _), Table.insert_insert,
      Table.insert_insert, setCounter_comm _ other]

end Counters

theorem figureAt_congr {s t : Tables} (delegations : s.delegations = t.delegations)
    (nodes : s.nodes = t.nodes) : s.figureAt = t.figureAt := by
  funext figure at_
  simp only [figureAt, delegations, nodes]

theorem saveValidatorStatistic_eq_self {s : ValidatorStatistic}
    (rows : (t.saveValidatorStatistic s).validatorStatistics = t.validatorStatistics) :
    t.saveValidatorStatistic s = t :=
  congrArg (fun rows => { t with validatorStatistics := rows }) rows

/-- A write changes nothing if its row is there, or is left out, already. -/
theorem saveValidatorStatistic_eq_self_iff {s : ValidatorStatistic} :
    t.saveValidatorStatistic s = t ↔ t.statistic? s.validatorId s.figure s.height =
      if t.amountBelow? s.validatorId s.figure s.height = some s.amount then none else some s := by
  constructor
  · intro same
    rw [← statistic?_save_self, same]
  · intro there
    refine saveValidatorStatistic_eq_self (Table.ext_find? fun ((id, figure), height) => ?_)
    refine (statistic?_save t s id figure height).trans ?_
    split
    next same =>
      obtain ⟨subject, rfl⟩ := same
      obtain ⟨rfl, rfl⟩ := Prod.mk.inj subject
      exact there.symm
    next => rfl

/-- The figure of a calculation, as a row of its series. -/
def calculated (t : Tables) (figure : ValidatorFigure) (at_ : Calculation) : ValidatorStatistic :=
  ⟨at_.validatorId, at_.height, at_.time, figure, t.figureAt figure at_⟩

theorem performed_calculate (t : Tables) (figure : ValidatorFigure) (at_ : Calculation) :
    (t.perform (.calculate figure at_)).2 =
      let rows := t.saveValidatorStatistic (t.calculated figure at_)
      { rows with
        validators := withCounter t.validators at_.validatorId figure
          (rows.latestAmount at_.validatorId figure) } :=
  writeFigure_eq ..

/-- What looks neither at the series nor at the validators is not changed by a calculation. -/
theorem calculate_frame {α : Type} (look : Tables → α)
    (blind : ∀ t rows series, look { t with validators := rows, validatorStatistics := series } = look t)
    (figure : ValidatorFigure) (at_ : Calculation) (t : Tables) :
    look (t.perform (.calculate figure at_)).2 = look t := by
  rw [performed_calculate]
  exact blind t _ _

theorem settled_calculate_iff {figure : ValidatorFigure} {at_ : Calculation} :
    t.Settled (.calculate figure at_) ↔
      t.saveValidatorStatistic (t.calculated figure at_) = t ∧
        withCounter t.validators at_.validatorId figure (t.latestAmount at_.validatorId figure) =
          t.validators := by
  rw [Settled, performed_calculate]
  constructor
  · intro settled
    have rows := congrArg validatorStatistics settled
    change (t.saveValidatorStatistic (t.calculated figure at_)).validatorStatistics =
      t.validatorStatistics at rows
    have same := saveValidatorStatistic_eq_self rows
    refine ⟨same, ?_⟩
    have counters := congrArg Tables.validators settled
    simpa only [same] using counters
  · rintro ⟨rows, counters⟩
    simp only [rows, counters]

/-- A series after a calculation: the row of the calculation is settled, and every other row is as it
was. -/
theorem statistic?_calculate (t : Tables) (figure : ValidatorFigure) (at_ : Calculation) (id : Word)
    (f : ValidatorFigure) (height : Nat) :
    (t.perform (.calculate figure at_)).2.statistic? id f height =
      (t.saveValidatorStatistic (t.calculated figure at_)).statistic? id f height := by
  rw [performed_calculate]
  rfl

theorem steady_calculate (figure : ValidatorFigure) (at_ : Calculation) :
    Steady (.calculate figure at_) := by
  intro t
  have again : (t.perform (.calculate figure at_)).2.calculated figure at_ = t.calculated figure at_ := by
    rw [performed_calculate]
    rfl
  refine settled_calculate_iff.2 ⟨?_, ?_⟩
  · rw [again, saveValidatorStatistic_eq_self_iff, statistic?_calculate, statistic?_save_self]
    have below : (t.perform (.calculate figure at_)).2.amountBelow? at_.validatorId figure at_.height =
        t.amountBelow? at_.validatorId figure at_.height := by
      refine .trans (amountBelow?_congr fun k _ => statistic?_calculate ..) ?_
      exact amountBelow?_save_self t (t.calculated figure at_)
    exact congrArg (fun below => if below = some _ then none else some _) below.symm
  · rw [performed_calculate]
    exact withCounter_again ..

/-- The calculation of another figure leaves a calculation settled. -/
theorem keeps_calculate_calculate {f g : ValidatorFigure} (other : f ≠ g) (at_ : Calculation) :
    Keeps (.calculate g at_) (.calculate f at_) := by
  intro t settled
  obtain ⟨row, counter⟩ := settled_calculate_iff.1 settled
  have series (height : Nat) : (t.perform (.calculate g at_)).2.statistic? at_.validatorId f height =
      t.statistic? at_.validatorId f height := by
    rw [statistic?_calculate, statistic?_save, if_neg]
    rintro ⟨same, -⟩
    exact other (Prod.mk.inj same).2
  have again : (t.perform (.calculate g at_)).2.calculated f at_ = t.calculated f at_ := by
    rw [performed_calculate]
    rfl
  have latest : (t.perform (.calculate g at_)).2.latestAmount at_.validatorId f =
      t.latestAmount at_.validatorId f := by
    simp only [latestAmount, lastStatistic?_congr fun height _ => series height]
  refine settled_calculate_iff.2 ⟨?_, ?_⟩
  · rw [saveValidatorStatistic_eq_self_iff] at row ⊢
    have below := amountBelow?_congr fun k (_ : k < at_.height) => series k
    rw [again]
    exact (series _).trans (row.trans (congrArg (fun below =>
      if below = some _ then none else some _) below.symm))
  · rw [latest, performed_calculate]
    exact (withCounter_comm _ _ other.symm _ _).trans (congrArg (withCounter · _ _ _) counter)

theorem keeps_calculate {figure : ValidatorFigure} {at_ : Calculation} {later : StoreRequest}
    (validators : ∀ t : Tables, (t.perform later).2.validators = t.validators)
    (delegations : ∀ t : Tables, (t.perform later).2.delegations = t.delegations)
    (nodes : ∀ t : Tables, (t.perform later).2.nodes = t.nodes)
    (series : ∀ t : Tables, (t.perform later).2.validatorStatistics = t.validatorStatistics) :
    Keeps later (.calculate figure at_) := by
  intro t settled
  obtain ⟨row, counter⟩ := settled_calculate_iff.1 settled
  have again : (t.perform later).2.calculated figure at_ = t.calculated figure at_ := by
    rw [calculated, figureAt_congr (delegations t) (nodes t)]
    rfl
  refine settled_calculate_iff.2 ⟨saveValidatorStatistic_eq_self ?_, ?_⟩
  · rw [again, series]
    exact (saveAll_congr [t.calculated figure at_] (series t)).trans (congrArg validatorStatistics row)
  · rw [latestAmount_congr (series t), validators, counter]

end Figures

section Counts

/-- A validator with the values of all counters. -/
def counting (v : Validator) (amounts : ValidatorFigure → Word) : Validator :=
  ValidatorFigure.all.foldl (fun v figure => v.setCounter figure (amounts figure)) v

/-- The validators with all counters set on the latest snapshot of one of them. -/
def counted (validators : Table (Word × Nat) Validator) (id : Word)
    (amounts : ValidatorFigure → Word) : Table (Word × Nat) Validator :=
  ValidatorFigure.all.foldl (fun rows figure => withCounter rows id figure (amounts figure)) validators

theorem updateCounts_eq (t : Tables) (id : Word) :
    t.updateCounts id = { t with validators := counted t.validators id (t.latestAmount id) } := by
  simp only [updateCounts, counted, ValidatorFigure.all, List.foldl_cons, List.foldl_nil,
    showLatest_eq]
  rfl

variable {validators : Table (Word × Nat) Validator} {id : Word} {amounts : ValidatorFigure → Word}

theorem counted_of_last {key : Word × Nat} {v : Validator}
    (last : (validators.last? fun key => key.1 == id) = some (key, v)) :
    counted validators id amounts = validators.insert key (counting v amounts) := by
  have last' (w : Validator) := Table.last?_insert_last last w
  simp only [counted, counting, ValidatorFigure.all, List.foldl_cons, List.foldl_nil,
    withCounter_of_last last, withCounter_of_last (last' _), Table.insert_insert]

theorem counted_of_none (last : (validators.last? fun key => key.1 == id) = none) :
    counted validators id amounts = validators := by
  simp only [counted, ValidatorFigure.all, List.foldl_cons, List.foldl_nil, withCounter_of_none last]

theorem counting_again (v : Validator) (amounts : ValidatorFigure → Word) :
    counting (counting v amounts) amounts = counting v amounts := rfl

theorem setCounter_counting (v : Validator) {figure : ValidatorFigure} {after : ValidatorFigure → Word}
    (same : ∀ f, f ≠ figure → after f = amounts f) :
    (counting v amounts).setCounter figure (after figure) = counting v after := by
  have active := same .activeNodes
  have linked := same .linkedNodes
  have staked := same .totalStake
  cases figure <;> simp_all [counting, ValidatorFigure.all, Validator.setCounter]

/-- One more counter set after all of them. -/
theorem withCounter_counted {figure : ValidatorFigure} {after : ValidatorFigure → Word}
    (same : ∀ f, f ≠ figure → after f = amounts f) :
    withCounter (counted validators id amounts) id figure (after figure) =
      counted validators id after := by
  cases last : validators.last? fun key => key.1 == id with
  | none =>
    rw [counted_of_none last, counted_of_none last, withCounter_of_none last]
  | some e =>
    rw [counted_of_last last, counted_of_last last,
      withCounter_of_last (Table.last?_insert_last last _), Table.insert_insert,
      setCounter_counting e.2 same]

/-- Storing a snapshot again and setting the counters again changes nothing. -/
theorem counted_again (v : Validator) :
    counted ((counted (validators.insert (v.id, v.height) v) v.id amounts).insert
        (v.id, v.height) v) v.id amounts =
      counted (validators.insert (v.id, v.height) v) v.id amounts := by
  have present : ((validators.insert (v.id, v.height) v).last? fun key => key.1 == v.id) ≠ none := by
    rw [ne_eq, Table.last?_eq_none_iff]
    intro absent
    have := absent (v.id, v.height) (beq_self_eq_true _)
    rw [Table.find?_insert_self] at this
    cases this
  obtain ⟨⟨key, w⟩, last⟩ := Option.ne_none_iff_exists'.1 present
  rw [counted_of_last last]
  by_cases same : key = (v.id, v.height)
  · subst same
    rw [Table.insert_insert, Table.insert_insert, counted_of_last last]
  · have stored : ((validators.insert (v.id, v.height) v).insert key (counting w amounts)).find?
        (v.id, v.height) = some v := by
      rw [Table.find?_insert_ne _ _ (Ne.symm same), Table.find?_insert_self]
    rw [Table.insert_of_find? stored, counted_of_last (Table.last?_insert_last last _),
      Table.insert_insert, counting_again]

/-- A validator has a snapshot at a height or above it. -/
def HasFrom (validators : Table (Word × Nat) Validator) (id : Word) (height : Nat) : Prop :=
  ∃ k v, height ≤ k ∧ validators.find? (id, k) = some v

/-- Where there is a snapshot at a height, counters are not set below it. -/
theorem withCounter_below {height : Nat} (there : HasFrom validators id height)
    (figure : ValidatorFigure) (amount : Word) :
    (withCounter validators id figure amount).below height = validators.below height ∧
      HasFrom (withCounter validators id figure amount) id height := by
  obtain ⟨k, v, above, found⟩ := there
  cases last : validators.last? fun key => key.1 == id with
  | none =>
    have absent := Table.last?_eq_none_iff.1 last (id, k) (beq_self_eq_true _)
    rw [found] at absent
    cases absent
  | some e =>
    obtain ⟨⟨i, n⟩, w⟩ := e
    obtain ⟨-, mine, top⟩ := Table.last?_eq_some_iff.1 last
    obtain rfl := eq_of_beq mine
    have highest : height ≤ n := by
      by_contra low
      have absent := top (i, k) (beq_self_eq_true _) ((Table.compare_heights ..).2 (by omega))
      rw [found] at absent
      cases absent
    rw [withCounter_of_last last]
    exact ⟨Table.below_insert highest, n, _, highest, Table.find?_insert_self ..⟩

theorem counted_below {height : Nat} (there : HasFrom validators id height)
    (amounts : ValidatorFigure → Word) :
    (counted validators id amounts).below height = validators.below height ∧
      HasFrom (counted validators id amounts) id height := by
  unfold counted
  induction ValidatorFigure.all generalizing validators with
  | nil => exact ⟨rfl, there⟩
  | cons figure rest ih =>
    obtain ⟨same, there⟩ := withCounter_below there figure (amounts figure)
    obtain ⟨same', there⟩ := ih there
    exact ⟨same'.trans same, there⟩

/-- A snapshot is stored, and the latest one shows the counters. -/
def Counted (t : Tables) (v : Validator) : Prop :=
  t.performAll [.saveValidator v, .updateCounts v.id] = t

theorem counted_iff {t : Tables} {v : Validator} : t.Counted v ↔
    counted (t.validators.insert (v.id, v.height) v) v.id (t.latestAmount v.id) = t.validators := by
  have performed : t.performAll [.saveValidator v, .updateCounts v.id] = { t with
      validators := counted (t.validators.insert (v.id, v.height) v) v.id (t.latestAmount v.id) } :=
    updateCounts_eq ..
  rw [Counted, performed]
  exact ⟨congrArg Tables.validators, congrArg fun rows => { t with validators := rows }⟩

theorem counted_performAll (t : Tables) (v : Validator) :
    (t.performAll [.saveValidator v, .updateCounts v.id]).Counted v := by
  have performed : t.performAll [.saveValidator v, .updateCounts v.id] = { t with
      validators := counted (t.validators.insert (v.id, v.height) v) v.id (t.latestAmount v.id) } :=
    updateCounts_eq ..
  rw [performed]
  exact counted_iff.2 (counted_again v)

/-- A request leaves a snapshot and the counters as they are. -/
def KeepsCounted (later : StoreRequest) (v : Validator) : Prop :=
  ∀ t : Tables, t.Counted v → (t.perform later).2.Counted v

theorem keepsCounted {v : Validator} {later : StoreRequest}
    (validators : ∀ t : Tables, (t.perform later).2.validators = t.validators)
    (series : ∀ t : Tables, (t.perform later).2.validatorStatistics = t.validatorStatistics) :
    KeepsCounted later v := by
  intro t settled
  rw [counted_iff] at settled ⊢
  rw [validators, latestAmount_congr (series t), settled]

/-- A calculation shows on the latest snapshot what the series shows. -/
theorem keepsCounted_calculate {v : Validator} (figure : ValidatorFigure) {at_ : Calculation}
    (mine : at_.validatorId = v.id) : KeepsCounted (.calculate figure at_) v := by
  intro t settled
  rw [counted_iff] at settled ⊢
  set after := (t.perform (.calculate figure at_)).2 with performed
  have others (f : ValidatorFigure) (other : f ≠ figure) :
      after.latestAmount v.id f = t.latestAmount v.id f := by
    have series (height : Nat) : after.statistic? v.id f height = t.statistic? v.id f height := by
      rw [performed, statistic?_calculate, statistic?_save, if_neg]
      rintro ⟨same, -⟩
      exact other (Prod.mk.inj same).2
    simp only [latestAmount, lastStatistic?_congr fun height _ => series height]
  have shown : after.validators = counted (t.validators.insert (v.id, v.height) v) v.id
      (after.latestAmount v.id) := by
    calc after.validators = withCounter t.validators v.id figure (after.latestAmount v.id figure) := by
          rw [performed, performed_calculate, ← mine]
          rfl
      _ = withCounter (counted (t.validators.insert (v.id, v.height) v) v.id (t.latestAmount v.id))
            v.id figure (after.latestAmount v.id figure) := by rw [settled]
      _ = _ := withCounter_counted others
  rw [shown]
  exact counted_again v

/-- A snapshot with its counters and what follows them can be made again, wherever it was cut. -/
theorem again_after_counts {v : Validator} {rest : List StoreRequest} (orderly : Orderly rest)
    (keeps : ∀ later ∈ rest, KeepsCounted later v) (k : Nat) (t : Tables) :
    let cut := (StoreRequest.saveValidator v :: .updateCounts v.id :: rest).take k
    (t.performAll cut).performAll cut = t.performAll cut := by
  match k with
  | 0 => rfl
  | 1 =>
    have again := Table.insert_insert t.validators (v.id, v.height) v v
    exact congrArg (fun rows => { t with validators := rows }) again
  | k + 2 =>
    intro cut
    have split (s : Tables) : s.performAll cut =
        (s.performAll [.saveValidator v, .updateCounts v.id]).performAll (rest.take k) := rfl
    have shown : (t.performAll cut).Counted v := by
      rw [split]
      exact performAll_invariant (·.Counted v) (counted_performAll t v) fun later member =>
        keeps later (List.mem_of_mem_take member)
    rw [split (t.performAll cut), shown, split t]
    exact (orderly.take k).again _

end Counts

section Handling

/-- The writes that the handling of a log makes beside those to a validator's snapshot. -/
inductive OfHandling : StoreRequest → Prop where
  | delegation (d : Delegation) : OfHandling (.saveDelegation d)
  | nodes (nodes : List Node) : OfHandling (.saveNodes nodes)
  | account (a : Account) : OfHandling (.saveAccount a)
  | rewardClaim (c : RewardClaim) : OfHandling (.recordRewardClaim c)
  | systemEvent (e : SystemEvent) : OfHandling (.saveSystemEvent e)
  | calculate (figure : ValidatorFigure) (at_ : Calculation) : OfHandling (.calculate figure at_)

namespace OfHandling

variable {r : StoreRequest}

/-- A write to tables that the handling does not look at again keeps everything that is not about the
same thing. -/
theorem keeps {later : StoreRequest} (handled : OfHandling r)
    (delegations : ∀ t : Tables, (t.perform later).2.delegations = t.delegations)
    (nodes : ∀ t : Tables, (t.perform later).2.nodes = t.nodes)
    (claims : ∀ t : Tables, (t.perform later).2.rewardClaims = t.rewardClaims)
    (rows : ∀ t : Tables, (t.perform later).2.delegatorStatistics = t.delegatorStatistics)
    (accounts : ∀ a, r = .saveAccount a → Keeps later r)
    (events : ∀ e, r = .saveSystemEvent e → Keeps later r)
    (figures : ∀ figure at_, r = .calculate figure at_ → Keeps later r) : Keeps later r := by
  cases handled with
  | delegation d => exact keeps_delegation delegations
  | nodes n => exact keeps_nodes nodes
  | account a => exact accounts a rfl
  | rewardClaim c => exact keeps_rewardClaim claims rows
  | systemEvent e => exact events e rfl
  | calculate figure at_ => exact figures figure at_ rfl

theorem keeps_event (handled : OfHandling r) (e : ContractEvent) : Keeps (.saveContractEvent e) r := by
  have frame {α : Type} (look : Tables → α) (blind : ∀ t events last,
      look { t with contractEvents := events, lastEventId := last } = look t) (t : Tables) :=
    saveContractEvent_frame look blind e t
  refine handled.keeps (frame _ fun _ _ _ => rfl) (frame _ fun _ _ _ => rfl)
    (frame _ fun _ _ _ => rfl) (frame _ fun _ _ _ => rfl) ?_ ?_ ?_
  · rintro a rfl
    exact keeps_account (frame _ fun _ _ _ => rfl)
  · rintro s rfl
    exact keeps_systemEvent (frame _ fun _ _ _ => rfl)
  · rintro figure at_ rfl
    exact keeps_calculate (frame _ fun _ _ _ => rfl) (frame _ fun _ _ _ => rfl)
      (frame _ fun _ _ _ => rfl) (frame _ fun _ _ _ => rfl)

theorem keeps_account (handled : OfHandling r) (a : Account) : Keeps (.saveAccount a) r := by
  refine handled.keeps (fun _ => rfl) (fun _ => rfl) (fun _ => rfl) (fun _ => rfl) ?_ ?_ ?_
  · rintro b rfl
    exact keeps_account_account b a
  · rintro s rfl
    exact keeps_systemEvent fun _ => rfl
  · rintro figure at_ rfl
    exact keeps_calculate (fun _ => rfl) (fun _ => rfl) (fun _ => rfl) (fun _ => rfl)

theorem keeps_systemEvent (handled : OfHandling r) {e : SystemEvent}
    (apart : ∀ s, r = .saveSystemEvent s → subject s ≠ subject e) : Keeps (.saveSystemEvent e) r := by
  refine handled.keeps (fun _ => rfl) (fun _ => rfl) (fun _ => rfl) (fun _ => rfl) ?_ ?_ ?_
  · rintro a rfl
    exact Tables.keeps_account fun _ => rfl
  · rintro s rfl
    exact keeps_systemEvent_apart (apart s rfl)
  · rintro figure at_ rfl
    exact keeps_calculate (fun _ => rfl) (fun _ => rfl) (fun _ => rfl) (fun _ => rfl)

theorem keeps_calculate (handled : OfHandling r) {figure : ValidatorFigure} {at_ : Calculation}
    (other : ∀ f a, r = .calculate f a → f ≠ figure ∧ a = at_) : Keeps (.calculate figure at_) r := by
  have frame {α : Type} (look : Tables → α) (blind : ∀ t rows series,
      look { t with validators := rows, validatorStatistics := series } = look t) (t : Tables) :=
    calculate_frame look blind figure at_ t
  refine handled.keeps (frame _ fun _ _ _ => rfl) (frame _ fun _ _ _ => rfl)
    (frame _ fun _ _ _ => rfl) (frame _ fun _ _ _ => rfl) ?_ ?_ ?_
  · rintro a rfl
    exact Tables.keeps_account (frame _ fun _ _ _ => rfl)
  · rintro s rfl
    exact Tables.keeps_systemEvent (frame _ fun _ _ _ => rfl)
  · rintro f a rfl
    obtain ⟨different, rfl⟩ := other f a rfl
    exact keeps_calculate_calculate different a

end OfHandling

theorem OfHandling.keepsCounted {r : StoreRequest} {v : Validator} (handled : OfHandling r)
    (mine : ∀ figure at_, r = .calculate figure at_ → at_.validatorId = v.id) : KeepsCounted r v := by
  cases handled with
  | calculate figure at_ => exact keepsCounted_calculate figure (mine figure at_ rfl)
  | _ => exact Tables.keepsCounted (fun _ => rfl) fun _ => rfl

theorem event_keepsCounted (e : ContractEvent) (v : Validator) :
    KeepsCounted (.saveContractEvent e) v :=
  keepsCounted (saveContractEvent_frame validators (fun _ _ _ => rfl) e)
    (saveContractEvent_frame validatorStatistics (fun _ _ _ => rfl) e)

/-- The event of the contract is stored after everything else. -/
theorem Orderly.with_event {requests : List StoreRequest} (orderly : Orderly requests)
    (handled : ∀ r ∈ requests, OfHandling r) (e : ContractEvent) :
    Orderly (requests ++ [.saveContractEvent e]) := by
  have last : Orderly [.saveContractEvent e] :=
    orderly_nil.cons (steady_saveContractEvent e) fun _ member => (nomatch member)
  refine orderly.append last fun r member later final => ?_
  rw [List.mem_singleton.1 final]
  exact (handled r member).keeps_event e

end Handling

end StakeIndex.Tables
