import StakeIndex.Proofs.Counters

/-!
The requests of one block in another order. Rows that are merely put into tables do not depend on the
order. Figures and counters are computed from the rows that are there; each request that changes what they
are computed from is followed by one that computes them again, so in the end they are right.
-/
namespace StakeIndex

/-- A delegation without the transaction that it was observed in. -/
def Delegation.unstamped (d : Delegation) : Delegation := { d with txHash := .zero }

/-- An event without the number that the store gave it. -/
def ContractEvent.unnumbered (e : ContractEvent) : ContractEvent := { e with id := none }

def Validator.bare (v : Validator) : Validator :=
  { v with activeNodes := 0, linkedNodes := 0, staked := 0 }

theorem Validator.bare_setCounter (v : Validator) (figure : ValidatorFigure) (amount : Word) :
    (v.setCounter figure amount).bare = v.bare := by
  cases figure <;> rfl

theorem Validator.eq_of_bare {v w : Validator} (same : v.bare = w.bare)
    (counters : ∀ figure, v.counter figure = w.counter figure) : v = w := by
  have staked := counters .totalStake
  have active := counters .activeNodes
  have linked := counters .linkedNodes
  cases v
  cases w
  simp_all [Validator.bare, Validator.counter]

/-- What is so at a block: its height and time, the validators, delegations and nodes as the chain has them
there, the nodes that it lists for each validator, and the validators and delegations as they were known
before. -/
structure BlockFacts where
  height : Nat
  time : Instant
  validator? : Word → Option Validator
  delegation? : Word → Option Delegation
  node? : Word → Option Node
  listed? : Word → Option (List Node)
  olderValidator? : Word → Option Validator
  olderDelegation? : Word → Option Delegation

/-- The amounts of an event of the system, where they follow from its kind and sender. -/
def BlockFacts.amounts? (facts : BlockFacts) (kind : SystemEventKind) (sender : Word) :
    Option (Word × Word) :=
  match kind with
  | .newDelegation | .delegationAccepted => (facts.delegation? sender).map fun d => (0, d.amount)
  | .undelegationRequested | .delegationRejected =>
    (facts.delegation? sender).map fun d => (d.amount, 0)
  | .feeChange => do
    return ((← facts.olderValidator? sender).feeRate, (← facts.validator? sender).feeRate)
  | .minimumDelegationChange => do
    return ((← facts.olderValidator? sender).minimumDelegation,
      (← facts.validator? sender).minimumDelegation)
  | .joinedActiveSet | .leftActiveSet => some (0, 0)
  | .slashed | .forgiven => none

/-- Whether an event of the system records a punishment or its end. -/
def SystemEvent.punishes (e : SystemEvent) : Bool := e.kind == .slashed || e.kind == .forgiven

/-- The figures of a validator are due at the block. -/
def BlockFacts.calculation (facts : BlockFacts) (id : Word) : Calculation :=
  ⟨id, facts.height, facts.time⟩

/-- Requests of a block that concern the validators, their series and the stored events alone. -/
inductive BlockFacts.Figures (facts : BlockFacts) : StoreRequest → Prop where
  | event (e : ContractEvent) : Figures facts (.saveContractEvent e)
  | validator (v : Validator) : v.height = facts.height → facts.validator? v.id = some v →
    Figures facts (.saveValidator v)
  | counts (id : Word) : Figures facts (.updateCounts id)
  | calculate (figure : ValidatorFigure) (id : Word) :
    Figures facts (.calculate figure (facts.calculation id))

/-- Requests that state what is so at a block, compute figures for it, or record what nothing is computed
from. -/
inductive BlockFacts.States (facts : BlockFacts) : StoreRequest → Prop where
  | figures {r : StoreRequest} : facts.Figures r → States facts r
  | delegation (d : Delegation) : d.height = facts.height →
    (facts.delegation? d.id).map (·.unstamped) = some d.unstamped → States facts (.saveDelegation d)
  | nodes (nodes : List Node) : (∀ n ∈ nodes, n.height = facts.height ∧ facts.node? n.id = some n) →
    States facts (.saveNodes nodes)
  | account (a : Account) : States facts (.saveAccount a)
  | claim (c : RewardClaim) : c.height = facts.height → States facts (.recordRewardClaim c)
  | systemEvent (e : SystemEvent) : (e.punishes = false →
    facts.amounts? e.kind e.senderId = some (e.before, e.after) ∧
      e.change = .difference e.before e.after) → States facts (.saveSystemEvent e)

namespace StoreRequest

-- What a request stores, for each kind of row.

def delegation? : StoreRequest → Option Delegation
  | saveDelegation d => some d
  | _ => none

def nodes? : StoreRequest → Option (List Node)
  | saveNodes rows => some rows
  | _ => none

def account? : StoreRequest → Option Account
  | saveAccount a => some a
  | _ => none

def claim? : StoreRequest → Option RewardClaim
  | recordRewardClaim c => some c
  | _ => none

def validator? : StoreRequest → Option Validator
  | saveValidator v => some v
  | _ => none

def contractEvent? : StoreRequest → Option ContractEvent
  | saveContractEvent e => some e
  | _ => none

def systemEvent? : StoreRequest → Option SystemEvent
  | saveSystemEvent e => some e
  | _ => none

end StoreRequest

section Facts

variable {facts : BlockFacts} {r : StoreRequest}

/-- What looks neither at the validators and their series nor at the stored events is not changed by
requests that concern these alone. -/
theorem BlockFacts.Figures.frame {β : Type} (look : Tables → β)
    (blind : ∀ t rows series events last, look { t with
      validators := rows, validatorStatistics := series, contractEvents := events,
      lastEventId := last } = look t) (figures : facts.Figures r) (t : Tables) :
    look (t.perform r).2 = look t := by
  cases figures with
  | event e => exact Tables.saveContractEvent_frame look (fun t events last => blind t _ _ events last) e t
  | validator v => exact blind t _ t.validatorStatistics t.contractEvents t.lastEventId
  | counts id =>
    change look (t.updateCounts id) = look t
    rw [Tables.updateCounts_eq]
    exact blind t _ t.validatorStatistics t.contractEvents t.lastEventId
  | calculate figure id =>
    exact Tables.calculate_frame look (fun t rows series => blind t rows series _ _) figure _ t

theorem BlockFacts.States.of_delegation (states : facts.States r) {d : Delegation}
    (found : r.delegation? = some d) :
    d.height = facts.height ∧ (facts.delegation? d.id).map (·.unstamped) = some d.unstamped := by
  cases states with
  | figures figures => cases figures <;> cases found
  | delegation d at_ known =>
    cases found
    exact ⟨at_, known⟩
  | _ => cases found

theorem BlockFacts.States.of_nodes (states : facts.States r) {rows : List Node}
    (found : r.nodes? = some rows) : ∀ n ∈ rows, n.height = facts.height ∧ facts.node? n.id = some n := by
  cases states with
  | figures figures => cases figures <;> cases found
  | nodes rows known =>
    cases found
    exact known
  | _ => cases found

theorem BlockFacts.States.of_validator (states : facts.States r) {v : Validator}
    (found : r.validator? = some v) : v.height = facts.height ∧ facts.validator? v.id = some v := by
  cases states with
  | figures figures =>
    cases figures with
    | validator v at_ known =>
      cases found
      exact ⟨at_, known⟩
    | _ => cases found
  | _ => cases found

theorem BlockFacts.States.of_claim (states : facts.States r) {c : RewardClaim}
    (found : r.claim? = some c) : c.height = facts.height := by
  cases states with
  | figures figures => cases figures <;> cases found
  | claim c at_ =>
    cases found
    exact at_
  | _ => cases found

end Facts

namespace Tables

variable {facts : BlockFacts} {t : Tables} {requests requests' : List StoreRequest}

section Rows

/-- What is made of the tables by putting one item after another. -/
theorem look_performAll {β γ : Type} {look : Tables → β} {item? : StoreRequest → Option γ}
    {put : β → γ → β} (each : ∀ r ∈ requests, ∀ t, look (t.perform r).2 =
      ((item? r).map (put (look t))).getD (look t)) (t : Tables) :
    look (t.performAll requests) = (requests.filterMap item?).foldl put (look t) := by
  induction requests generalizing t with
  | nil => rfl
  | cons r rest ih =>
    obtain ⟨first, others⟩ := List.forall_mem_cons.1 each
    rw [performAll_cons, ih others, first, List.filterMap_cons]
    cases item? r <;> rfl

/-- It does not depend on the order, if any two of the items can be put in either order. -/
theorem look_perm {β γ : Type} (look : Tables → β) (item? : StoreRequest → Option γ) (put : β → γ → β)
    (each : ∀ r ∈ requests, ∀ t, look (t.perform r).2 = ((item? r).map (put (look t))).getD (look t))
    (commute : ∀ r ∈ requests, ∀ r' ∈ requests, ∀ a b, item? r = some a → item? r' = some b →
      ∀ x, put (put x a) b = put (put x b) a)
    (order : requests.Perm requests') (t : Tables) :
    look (t.performAll requests) = look (t.performAll requests') := by
  rw [look_performAll each, look_performAll fun r member => each r (order.mem_iff.2 member)]
  apply (order.filterMap item?).foldl_eq'
  intro a first b second x
  obtain ⟨r, member, found⟩ := List.mem_filterMap.1 first
  obtain ⟨r', member', found'⟩ := List.mem_filterMap.1 second
  exact commute r member r' member' a b found found' x

theorem insert_commute {κ α : Type} [Ord κ] [Std.TransOrd κ] [Std.LawfulEqOrd κ] [DecidableEq κ]
    (key : α → κ) {a b : α} (agree : key a = key b → a = b) (rows : Table κ α) :
    (rows.insert (key a) a).insert (key b) b = (rows.insert (key b) b).insert (key a) a := by
  by_cases same : key a = key b
  · rw [agree same]
  · exact Table.insert_comm rows a b same

variable (states : ∀ r ∈ requests, facts.States r) (order : requests.Perm requests') (t : Tables)
include states order

theorem delegations_perm : (t.performAll requests).delegations.map (fun _ => Delegation.unstamped) =
    (t.performAll requests').delegations.map fun _ => Delegation.unstamped := by
  refine look_perm (fun t => t.delegations.map fun _ => Delegation.unstamped)
    (fun r => r.delegation?.map (·.unstamped)) (fun rows d => rows.insert (d.id, d.height) d) ?_ ?_ order t
  · intro r member t
    cases states r member with
    | figures figures =>
      have none : r.delegation? = none := by cases figures <;> rfl
      rw [none]
      exact figures.frame (fun t => t.delegations.map _) (fun _ _ _ _ _ => rfl) t
    | delegation d => exact Table.map_insert ..
    | _ => rfl
  · intro r member r' member' a b found found' rows
    obtain ⟨d, stored, rfl⟩ := Option.map_eq_some_iff.1 found
    obtain ⟨d', stored', rfl⟩ := Option.map_eq_some_iff.1 found'
    apply insert_commute fun d : Delegation => (d.id, d.height)
    intro same
    have known := ((states r member).of_delegation stored).2
    have known' := ((states r' member').of_delegation stored').2
    have id : d.id = d'.id := congrArg Prod.fst same
    rw [id, known'] at known
    exact (Option.some.inj known).symm

theorem nodes_perm : (t.performAll requests).nodes = (t.performAll requests').nodes := by
  refine look_perm Tables.nodes StoreRequest.nodes?
    (fun table rows => rows.foldl (fun table n => table.insert (n.id, n.height) n) table) ?_ ?_ order t
  · intro r member t
    cases states r member with
    | figures figures =>
      have none : r.nodes? = none := by cases figures <;> rfl
      rw [none]
      exact figures.frame Tables.nodes (fun _ _ _ _ _ => rfl) t
    | _ => rfl
  · intro r member r' member' rows rows' found found' table
    rw [← List.foldl_append, ← List.foldl_append]
    apply Table.insertAll_perm List.perm_append_comm
    have known : ∀ n ∈ rows ++ rows', facts.node? n.id = some n := by
      intro n among
      rcases List.mem_append.1 among with among | among
      · exact ((states r member).of_nodes found n among).2
      · exact ((states r' member').of_nodes found' n among).2
    intro n first n' second same
    have id : n.id = n'.id := congrArg Prod.fst same
    have one := known n first
    rw [id, known n' second] at one
    exact (Option.some.inj one).symm

omit states order in
theorem saveAccount_comm (a b : Account) (t : Tables) :
    ((t.saveAccount a).saveAccount b).accounts = ((t.saveAccount b).saveAccount a).accounts := by
  refine Table.ext_find? fun address => ?_
  simp only [find?_saveAccount]
  by_cases same : a.address = b.address
  · simp only [same, if_true]
    by_cases mine : address = b.address
    · simp only [mine, if_true]
      cases t.accounts.find? b.address with
      | none => cases a.type <;> cases b.type <;> rfl
      | some known => cases known <;> cases a.type <;> cases b.type <;> rfl
    · simp only [mine, if_false]
  · by_cases first : address = a.address
    · subst first
      simp [same]
    · simp [first, Ne.symm same]

theorem accounts_perm : (t.performAll requests).accounts = (t.performAll requests').accounts := by
  refine look_perm Tables.accounts StoreRequest.account?
    (fun rows a => (({ Tables.empty with accounts := rows } : Tables).saveAccount a).accounts) ?_ ?_ order t
  · intro r member t
    cases states r member with
    | figures figures =>
      have none : r.account? = none := by cases figures <;> rfl
      rw [none]
      exact figures.frame Tables.accounts (fun _ _ _ _ _ => rfl) t
    | _ => rfl
  · intro _ _ _ _ a b _ _ rows
    exact saveAccount_comm a b { Tables.empty with accounts := rows }

theorem rewardClaims_reordered
    (agree : ∀ r ∈ requests, ∀ r' ∈ requests, ∀ c c', r.claim? = some c → r'.claim? = some c' →
      c.key = c'.key → c = c') :
    (t.performAll requests).rewardClaims = (t.performAll requests').rewardClaims := by
  refine look_perm Tables.rewardClaims StoreRequest.claim? (fun rows c => rows.insert c.key c) ?_ ?_ order t
  · intro r member t
    cases states r member with
    | figures figures =>
      have none : r.claim? = none := by cases figures <;> rfl
      rw [none]
      exact figures.frame Tables.rewardClaims (fun _ _ _ _ _ => rfl) t
    | _ => rfl
  · intro r member r' member' c c' found found' rows
    exact insert_commute RewardClaim.key (agree r member r' member' c c' found found') rows

omit states order in
theorem contractEvents_saveContractEvent (e : ContractEvent) :
    (t.saveContractEvent e).contractEvents.map (fun _ => ContractEvent.unnumbered) =
      (t.contractEvents.map fun _ => ContractEvent.unnumbered).insert (e.txHash, e.logIndex)
        e.unnumbered := by
  unfold saveContractEvent
  dsimp only
  split
  · exact Table.map_insert ..
  · exact Table.map_insert ..

theorem contractEvents_perm
    (agree : ∀ r ∈ requests, ∀ r' ∈ requests, ∀ e e', r.contractEvent? = some e →
      r'.contractEvent? = some e' → (e.txHash, e.logIndex) = (e'.txHash, e'.logIndex) →
        e.unnumbered = e'.unnumbered) :
    (t.performAll requests).contractEvents.map (fun _ => ContractEvent.unnumbered) =
      (t.performAll requests').contractEvents.map fun _ => ContractEvent.unnumbered := by
  refine look_perm (fun t => t.contractEvents.map fun _ => ContractEvent.unnumbered)
    (fun r => r.contractEvent?.map (·.unnumbered))
    (fun rows e => rows.insert (e.txHash, e.logIndex) e) ?_ ?_ order t
  · intro r member t
    cases states r member with
    | figures figures =>
      cases figures with
      | event e => exact contractEvents_saveContractEvent t e
      | counts id =>
        change (t.updateCounts id).contractEvents.map (fun _ => ContractEvent.unnumbered) = _
        rw [updateCounts_eq]
        rfl
      | calculate figure id =>
        exact calculate_frame (fun t => t.contractEvents.map _) (fun _ _ _ => rfl) ..
      | validator => rfl
    | _ => rfl
  · intro r member r' member' a b found found' rows
    obtain ⟨e, stored, rfl⟩ := Option.map_eq_some_iff.1 found
    obtain ⟨e', stored', rfl⟩ := Option.map_eq_some_iff.1 found'
    exact insert_commute (fun e : ContractEvent => (e.txHash, e.logIndex))
      (agree r member r' member' e e' stored stored') rows

omit states order in
theorem map_bare_withCounter (validators : Table (Word × Nat) Validator) (id : Word)
    (figure : ValidatorFigure) (amount : Word) :
    (withCounter validators id figure amount).map (fun _ => Validator.bare) =
      validators.map fun _ => Validator.bare := by
  cases last : validators.last? fun key => key.1 == id with
  | none => rw [withCounter_of_none last]
  | some e =>
    obtain ⟨found, -, -⟩ := Table.last?_eq_some_iff.1 last
    rw [withCounter_of_last last, Table.map_insert, Validator.bare_setCounter]
    apply Table.insert_of_find?
    rw [Table.find?_map, found]
    rfl

omit states order in
theorem map_bare_counted (validators : Table (Word × Nat) Validator) (id : Word)
    (amounts : ValidatorFigure → Word) :
    (counted validators id amounts).map (fun _ => Validator.bare) =
      validators.map fun _ => Validator.bare := by
  unfold counted
  induction ValidatorFigure.all generalizing validators with
  | nil => rfl
  | cons figure rest ih => rw [List.foldl_cons, ih, map_bare_withCounter]

theorem validators_perm : (t.performAll requests).validators.map (fun _ => Validator.bare) =
    (t.performAll requests').validators.map fun _ => Validator.bare := by
  refine look_perm (fun t => t.validators.map fun _ => Validator.bare)
    (fun r => r.validator?.map (·.bare)) (fun rows v => rows.insert (v.id, v.height) v) ?_ ?_ order t
  · intro r member t
    cases states r member with
    | figures figures =>
      cases figures with
      | event e => exact saveContractEvent_frame (fun t => t.validators.map _) (fun _ _ _ => rfl) e t
      | validator v => exact Table.map_insert ..
      | counts id =>
        change (t.updateCounts id).validators.map (fun _ => Validator.bare) = _
        rw [updateCounts_eq]
        exact map_bare_counted ..
      | calculate figure id =>
        rw [performed_calculate]
        exact map_bare_withCounter ..
    | _ => rfl
  · intro r member r' member' a b found found' rows
    obtain ⟨v, stored, rfl⟩ := Option.map_eq_some_iff.1 found
    obtain ⟨v', stored', rfl⟩ := Option.map_eq_some_iff.1 found'
    apply insert_commute fun v : Validator => (v.id, v.height)
    intro same
    have known := ((states r member).of_validator stored).2
    have known' := ((states r' member').of_validator stored').2
    have id : v.id = v'.id := congrArg Prod.fst same
    rw [id, known'] at known
    rw [Option.some.inj known]

end Rows

end Tables
end StakeIndex
