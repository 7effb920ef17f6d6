import StakeIndex.Proofs.Closing
import StakeIndex.Proofs.SyncReturns
import StakeIndex.Proofs.Words

/-!
What a synchronisation leaves in the tables. Where the chain holds some validators, nodes and delegations
under ids one after another and nothing else, these are stored, and the series show the totals over them.
-/
namespace StakeIndex

open Dialogue Job Tables EpochSync

section Items

variable {α : Type}

/-- What stands under an id, when items stand under ids one after another. -/
def itemAt? (items : List α) (first id : Nat) : Option α :=
  if first ≤ id then items[id - first]? else none

/-- What is told of an id, when items stand under ids one after another and there is nothing else. -/
def heldAt (items : List α) (first id : Nat) : Except Stop α :=
  match itemAt? items first id with
  | some a => .ok a
  | none => .error .empty

/-- What stands in a table under an id and a height, once items have been stored at some height in place of
what stood there. -/
def storedAt (items : List α) (first height : Nat) (rows : Table (Word × Nat) α) (id : Word) (k : Nat) :
    Option α :=
  if k = height then (itemAt? items first id.toNat).or (rows.find? (id, k)) else rows.find? (id, k)

variable {items : List α} {first id : Nat} {a : α}

theorem itemAt?_add (items : List α) (first k : Nat) : itemAt? items first (first + k) = items[k]? := by
  rw [itemAt?, if_pos (Nat.le_add_right ..), Nat.add_sub_cancel_left]

theorem itemAt?_eq_some_iff :
    itemAt? items first id = some a ↔ ∃ k, id = first + k ∧ items[k]? = some a := by
  constructor
  · intro there
    unfold itemAt? at there
    split at there
    next from_ => exact ⟨id - first, by omega, there⟩
    next => cases there
  · rintro ⟨k, rfl, there⟩
    rwa [itemAt?_add]

theorem heldAt_eq_ok_iff : heldAt items first id = .ok a ↔ itemAt? items first id = some a := by
  unfold heldAt
  cases itemAt? items first id <;> simp

theorem heldAt_eq_error_iff {stop : Stop} :
    heldAt items first id = .error stop ↔ itemAt? items first id = none ∧ stop = .empty := by
  unfold heldAt
  cases itemAt? items first id <;> simp [eq_comm]

theorem heldAt_eq_empty_iff : heldAt items 0 id = .error .empty ↔ items.length ≤ id := by
  rw [heldAt_eq_error_iff, itemAt?, if_pos (Nat.zero_le id), Nat.sub_zero, List.getElem?_eq_none_iff]
  exact and_iff_left rfl

/-- Where nothing is told but of items, a walk finds these. -/
theorem Walk.found_eq {read : Nat → Except Stop α} {left : Nat} {found : List α} {ended : Bool}
    (walk : Walk read left id found ended) (held : ∀ k < left, read (id + k) = heldAt items 0 k) :
    found = items.take left := by
  induction walk generalizing items with
  | full => rfl
  | ended left there =>
    have nothing := (heldAt_eq_error_iff.1 ((held 0 (Nat.succ_pos _)).symm.trans there)).1
    rw [← Nat.zero_add 0, itemAt?_add, List.getElem?_eq_none_iff] at nothing
    rw [List.eq_nil_of_length_eq_zero (Nat.le_zero.1 nothing), List.take_nil]
  | @next id left a found ended there _ ih =>
    have first := heldAt_eq_ok_iff.1 ((held 0 (Nat.succ_pos _)).symm.trans there)
    rw [← Nat.zero_add 0, itemAt?_add] at first
    cases items with
    | nil => cases first
    | cons b rest =>
      cases first
      rw [List.take_succ_cons]
      refine congrArg (a :: ·) (ih fun k below => ?_)
      have next := held (k + 1) (Nat.succ_lt_succ below)
      rwa [Nat.add_left_comm, Nat.add_comm k] at next

theorem filterMap_heldAt (items : List α) :
    ((List.range items.length).filterMap fun i => (heldAt items 0 i).toOption) = items := by
  have told (items : List α) (i : Nat) : (heldAt items 0 i).toOption = items[i]? := by
    have same := itemAt?_add items 0 i
    rw [Nat.zero_add] at same
    rw [heldAt, ← same]
    cases itemAt? items 0 i <;> rfl
  simp only [told]
  induction items using List.reverseRecOn with
  | nil => rfl
  | append_singleton items a ih =>
    rw [List.length_append, List.length_singleton, List.range_succ, List.filterMap_append,
      List.filterMap_congr fun i member => List.getElem?_append_left (List.mem_range.1 member), ih]
    simp

theorem toNat_ofNat {n : Nat} (fits : n < allIds) : (Word.ofNat n).toNat = n :=
  Nat.mod_eq_of_lt fits

theorem topHeight_lt : topHeight < allIds := by
  unfold topHeight allIds
  omega

section Storing

variable (key : α → Word × Nat) {height : Nat}
  (place : ∀ k a, items[k]? = some a → key a = (.ofNat (first + k), height))
  (few : first + items.length ≤ allIds)
include place few

theorem keys_items : (items.map key).map (·.1.toNat) = List.range' first items.length := by
  refine List.ext_getElem (by simp) fun k below _ => ?_
  rw [List.length_map, List.length_map] at below
  simp only [List.getElem_map, List.getElem_range', Nat.one_mul]
  rw [place k _ (List.getElem?_eq_getElem below), toNat_ofNat (by omega)]

theorem nodup_keys : (items.map key).Nodup := by
  refine List.Nodup.of_map (·.1.toNat) ?_
  rw [keys_items key place few]
  exact List.nodup_range'

/-- Items that stand under ids one after another, once they are put into a table under these. -/
theorem find?_storeAll (rows : Table (Word × Nat) α) (id : Word) (k : Nat) :
    (items.foldl (fun rows a => rows.insert (key a) a) rows).find? (id, k) =
      storedAt items first height rows id k := by
  have stands (a : α) : a ∈ items ∧ key a = (id, k) ↔ itemAt? items first id.toNat = some a ∧ k = height := by
    rw [itemAt?_eq_some_iff, List.mem_iff_getElem?]
    constructor
    · rintro ⟨⟨i, there⟩, same⟩
      rw [place i a there] at same
      obtain ⟨rfl, rfl⟩ := Prod.mk.inj same
      have below := (List.getElem?_eq_some_iff.1 there).1
      exact ⟨⟨i, toNat_ofNat (by omega), there⟩, rfl⟩
    · rintro ⟨⟨i, same, there⟩, rfl⟩
      refine ⟨⟨i, there⟩, ?_⟩
      rw [place i a there, ← same, ofNat_toNat]
  refine Option.ext fun a => ?_
  rw [Table.find?_insertAll_of_nodup (nodup_keys key place few), stands, storedAt]
  have absent : (id, k) ∉ items.map key ↔ itemAt? items first id.toNat = none ∨ k ≠ height := by
    rw [List.mem_map, ← not_iff_not, not_not]
    simp only [stands]
    cases itemAt? items first id.toNat <;> simp
  rw [absent]
  by_cases at_ : k = height
  · rw [if_pos at_]
    cases itemAt? items first id.toNat <;> simp [at_]
  · simp [at_]

end Storing

end Items

namespace EpochSync

/-- The chain holds some validators, nodes and delegations at a height, and nothing else. -/
structure ChainHolds (chain : ChainAnswers) (c : SyncContracts) (height : Nat) (vs : List Validator)
    (ns : List Node) (ds : List Delegation) : Prop where
  validators : ∀ id, told chain (c.validatorService.validator id height) = heldAt vs 1 id.toNat
  nodes : ∀ id, told chain (c.nodes.node id height) = heldAt ns 1 id.toNat
  records : ∀ id, told chain (c.controller.delegationRecord id height) =
    (heldAt ds 0 id.toNat).map fun d => { d with state := .unknown }
  states : ∀ id, told chain (c.controller.delegationState id height) =
    (heldAt ds 0 id.toNat).map (·.state)
  fewValidators : vs.length < allIds
  fewNodes : ns.length < allIds

/-- A node with the moment of a synchronisation. -/
def dated (time : Instant) (n : Node) : Node := { n with eventTime := time }

section Reading

variable {α : Type} {f : Word → Except Stop α} {items : List α} {first : Nat}
  (held : ∀ id, f id = heldAt items first id.toNat)
include held

theorem held_ofNat {i : Nat} (fits : i < allIds) : f (.ofNat i) = heldAt items first i := by
  rw [held, toNat_ofNat fits]

theorem not_fails {stop : Stop} : ¬ Fails (fun i => f (.ofNat i)) stop := by
  rintro ⟨i, failed, other⟩
  exact other (heldAt_eq_error_iff.1 ((held _).symm.trans failed)).2

omit held in
theorem found_of_held (held : ∀ id, f id = heldAt items 1 id.toNat) (few : items.length < allIds)
    {found : List α} {ended : Bool}
    (walk : Walk (fun i => f (.ofNat i)) (idsFrom 1) 1 found ended) : found = items := by
  have ids : idsFrom 1 = allIds - 1 := rfl
  have all := walk.found_eq fun k below => by
    rw [held_ofNat held (by omega), heldAt, itemAt?_add, ← itemAt?_add items 0 k, Nat.zero_add, ← heldAt]
  rw [all, List.take_of_length_le (by omega)]

end Reading

section Holding

variable {chain : ChainAnswers} {c : SyncContracts} {height : Nat} {vs : List Validator}
  {ns : List Node} {ds : List Delegation} (holds : ChainHolds chain c height vs ns ds)
include holds

theorem ChainHolds.recalled (id : Word) :
    recalled chain c.controller height none id = heldAt ds 0 id.toNat := by
  have record := holds.records id
  rw [StakeIndex.recalled, holds.states, record]
  cases there : heldAt ds 0 id.toNat with
  | error stop => rfl
  | ok d =>
    rw [there] at record
    obtain ⟨-, at_⟩ := (c.controller.delegationRecord_consults height _).told
      (congrArg Except.toOption record)
    obtain rfl : d.height = height := at_
    rfl

theorem ChainHolds.validator_place (k : Nat) (v : Validator) (there : vs[k]? = some v) :
    (v.id, v.height) = (.ofNat (1 + k), height) := by
  have below := (List.getElem?_eq_some_iff.1 there).1
  have few := holds.fewValidators
  have told_ := held_ofNat holds.validators (i := 1 + k) (by omega)
  rw [heldAt, itemAt?_add, there] at told_
  have place := (c.validatorService.validator_consults height _).told (congrArg Except.toOption told_)
  exact Prod.ext place.1 place.2.1

theorem ChainHolds.node_place (time : Instant) (k : Nat) (n : Node)
    (there : (ns.map (dated time))[k]? = some n) : (n.id, n.height) = (.ofNat (1 + k), height) := by
  rw [List.getElem?_map, Option.map_eq_some_iff] at there
  obtain ⟨n, there, rfl⟩ := there
  have below := (List.getElem?_eq_some_iff.1 there).1
  have few := holds.fewNodes
  have told_ := held_ofNat holds.nodes (i := 1 + k) (by omega)
  rw [heldAt, itemAt?_add, there] at told_
  have place := (c.nodes.node_consults height _).told (congrArg Except.toOption told_)
  exact Prod.ext place.1 place.2

theorem ChainHolds.delegation_place (few : ds.length ≤ allIds) (k : Nat) (d : Delegation)
    (there : ds[k]? = some d) : (d.id, d.height) = (.ofNat (0 + k), height) := by
  have below := (List.getElem?_eq_some_iff.1 there).1
  have fits : k < allIds := below.trans_le few
  rw [← itemAt?_add ds 0, Nat.zero_add] at there
  rw [Nat.zero_add]
  have comes : StakeIndex.recalled chain c.controller height (DelegationCache.empty.find? (.ofNat k))
      (.ofNat k) = .ok d := (held_ofNat holds.recalled fits).trans (heldAt_eq_ok_iff.2 there)
  exact Prod.ext (recalled_place comes).1 (recalled_place comes).2

end Holding

section Rows

/-- The one node that a request stores. -/
def savedNode? : StoreRequest → Option Node
  | .saveNodes [n] => some n
  | _ => none

variable {chain : ChainAnswers} {c : SyncContracts} {height size : Nat} {time : Instant} {t : Tables}
  {known : DelegationCache} {vs : List Validator} {ns : List Node} {turns : List Turn} {w : SyncWorld}

theorem rows_of_written {α : Type} (look : Tables → Table (Word × Nat) α)
    (item? : StoreRequest → Option α) (key : α → Word × Nat) {written : List StoreRequest}
    {items : List α}
    (each : ∀ r ∈ written, ∀ t, look (t.perform r).2 =
      ((item? r).map fun a => (look t).insert (key a) a).getD (look t))
    (order : (written.filterMap item?).Perm items) (distinct : (items.map key).Nodup) (t : Tables) :
    look (t.performAll written) = items.foldl (fun rows a => rows.insert (key a) a) (look t) := by
  have rows : look (t.performAll written) =
      (written.filterMap item?).foldl (fun rows a => rows.insert (key a) a) (look t) :=
    look_performAll each t
  rw [rows]
  refine Table.insertAll_perm order (fun a first b second same => ?_) _
  exact List.inj_on_of_nodup_map distinct (order.mem_iff.1 first) (order.mem_iff.1 second) same

/-- What the parts of a synchronisation store. -/
inductive Stores : StoreRequest → Prop where
  | validator (v : Validator) : Stores (.saveValidator v)
  | node (n : Node) : Stores (.saveNodes [n])
  | delegation (d : Delegation) : Stores (.saveDelegation d)

theorem Synchronised.stores (synchronised : Synchronised chain c height time t known size vs ns turns w) :
    ∀ r ∈ w.written, Stores r := by
  intro r member
  have among := synchronised.written.mem_iff.1 member
  simp only [List.mem_append, List.mem_map] at among
  obtain (⟨v, -, rfl⟩ | ⟨n, -, rfl⟩) | ⟨d, -, rfl⟩ := among
  · exact .validator v
  · exact .node _
  · exact .delegation d

section Tables

variable (synchronised : Synchronised chain c height time t known size vs ns turns w)
include synchronised

theorem Synchronised.validator_ids :
    (vs.map (·.id)).map Word.toNat = List.range' 1 vs.length := by
  obtain ⟨_, walk⟩ := synchronised.validators
  rw [List.map_map]
  refine walk.ids fun i v below there => ?_
  have mine := (c.validatorService.validator_consults height _).told (congrArg Except.toOption there)
  exact (congrArg Word.toNat mine.1).trans (toNat_ofNat below)

theorem Synchronised.node_ids : (ns.map (·.id)).map Word.toNat = List.range' 1 ns.length := by
  obtain ⟨_, walk⟩ := synchronised.nodes
  rw [List.map_map]
  refine walk.ids fun i n below there => ?_
  have mine := (c.nodes.node_consults height _).told (congrArg Except.toOption there)
  exact (congrArg Word.toNat mine.1).trans (toNat_ofNat below)

theorem Synchronised.mem_validators {id : Word} :
    id ∈ vs.map (·.id) ↔ 1 ≤ id.toNat ∧ id.toNat ≤ vs.length := by
  rw [← List.mem_map_of_injective fun _ _ => Word.ext, synchronised.validator_ids, List.mem_range'_1,
    Nat.add_comm, Nat.lt_succ_iff]

theorem Synchronised.validators_distinct : (vs.map (·.id)).Nodup :=
  .of_map Word.toNat (synchronised.validator_ids ▸ List.nodup_range')

theorem Synchronised.validatorRows : w.tables.validators =
    vs.foldl (fun rows v => rows.insert (v.id, v.height) v) t.validators := by
  rw [synchronised.tables]
  refine rows_of_written Tables.validators (·.validator?) (fun v => (v.id, v.height))
    (fun r member t => ?_) ?_ (.of_map Prod.fst ?_) t
  · cases synchronised.stores r member <;> rfl
  · refine (synchronised.written.filterMap _).trans (.of_eq ?_)
    simp [List.filterMap_map, Function.comp_def, StoreRequest.validator?, storing]
  · rw [List.map_map]
    exact synchronised.validators_distinct

theorem Synchronised.nodeRows : w.tables.nodes =
    (ns.map (dated time)).foldl (fun rows n => rows.insert (n.id, n.height) n) t.nodes := by
  rw [synchronised.tables]
  refine rows_of_written Tables.nodes savedNode? (fun n => (n.id, n.height))
    (fun r member t => ?_) ?_ (.of_map Prod.fst ?_) t
  · cases synchronised.stores r member <;> rfl
  · refine (synchronised.written.filterMap _).trans (.of_eq ?_)
    simp [List.filterMap_map, Function.comp_def, savedNode?, storing, dated]
  · rw [List.map_map, List.map_map]
    exact .of_map Word.toNat (synchronised.node_ids ▸ List.nodup_range')

theorem Synchronised.delegationRows {ds : List Delegation} (order : (allFound turns).Perm ds) :
    w.tables.delegations = ds.foldl (fun rows d => rows.insert (d.id, d.height) d) t.delegations := by
  rw [synchronised.tables]
  refine rows_of_written Tables.delegations (·.delegation?) (fun d => (d.id, d.height))
    (fun r member t => ?_) ?_ (.of_map (·.1.toNat) ?_) t
  · cases synchronised.stores r member <;> rfl
  · refine (synchronised.written.filterMap _).trans (.trans (.of_eq ?_) order)
    simp [List.filterMap_map, Function.comp_def, StoreRequest.delegation?, storing]
  · have distinct : ((allFound turns).map (·.id.toNat)).Nodup :=
      synchronised.delegations.nodup fun i d => delegationAt_key
    rw [List.map_map]
    exact (order.map _).nodup_iff.1 distinct

theorem Synchronised.statisticRows : w.tables.validatorStatistics = t.validatorStatistics := by
  rw [synchronised.tables]
  refine performAll_invariant (·.validatorStatistics = t.validatorStatistics) rfl fun r member t' same => ?_
  cases synchronised.stores r member <;> exact same

end Tables

end Rows

section Totals

variable {chain : ChainAnswers} {plan : SyncPlan} {context : Context} {version : Version}
  {c : SyncContracts} {height : Nat} {time : Instant} {t : Tables} {vs : List Validator}
  {ns : List Node} {ds : List Delegation} {w : SyncWorld}

theorem figures_perm {ds' : List Delegation} (order : ds.Perm ds') (id : Word) :
    figures ns ds id = figures ns ds' id := by
  rw [figures, figures, ((order.filter _).map _).sum_nat]

/-- What the parts of a synchronisation find where the chain holds some validators, nodes and
delegations. -/
theorem Synchronised.held {size : Nat} {vs' : List Validator} {ns' : List Node} {turns : List Turn}
    (synchronised : Synchronised chain c height time t .empty size vs' ns' turns w) (positive : 0 < size)
    (holds : ChainHolds chain c height vs ns ds) :
    vs' = vs ∧ ns' = ns ∧ ds.length < topHeight ∧ (allFound turns).Perm ds := by
  obtain ⟨_, walk⟩ := synchronised.validators
  obtain ⟨_, walk'⟩ := synchronised.nodes
  refine ⟨found_of_held holds.validators holds.fewValidators walk,
    found_of_held holds.nodes holds.fewNodes walk', ?_⟩
  have comes {i : Nat} (below : i < topHeight) :
      delegationAt chain c.controller height .empty i = heldAt ds 0 i :=
    held_ofNat holds.recalled (below.trans topHeight_lt)
  have first : ∀ i < topHeight, delegationAt chain c.controller height .empty i = .error .empty ↔
      ds.length ≤ i := by
    intro i below
    rw [comes below, heldAt_eq_empty_iff]
  have few := synchronised.delegations.first_lt first
  refine ⟨few, ?_⟩
  have order := synchronised.delegations.perm_of_first positive (fun i d => delegationAt_key) first
  rwa [List.filterMap_congr fun i member => congrArg Except.toOption
    (comes ((List.mem_range.1 member).trans few)), filterMap_heldAt] at order

section Finds

variable {size : Nat} {vs' : List Validator} {ns' : List Node} {turns : List Turn}
  (synchronised : Synchronised chain c height time t .empty size vs' ns' turns w) (positive : 0 < size)
  (holds : ChainHolds chain c height vs ns ds) (id : Word) (k : Nat)
include synchronised positive holds

theorem Synchronised.validator?_held :
    w.tables.validators.find? (id, k) = storedAt vs 1 height t.validators id k := by
  have few := holds.fewValidators
  obtain ⟨rfl, -⟩ := synchronised.held positive holds
  rw [synchronised.validatorRows]
  exact find?_storeAll _ holds.validator_place (by omega) ..

theorem Synchronised.node?_held :
    w.tables.nodes.find? (id, k) = storedAt (ns.map (dated time)) 1 height t.nodes id k := by
  have few := holds.fewNodes
  obtain ⟨-, rfl, -⟩ := synchronised.held positive holds
  rw [synchronised.nodeRows]
  exact find?_storeAll _ (holds.node_place time) (by rw [List.length_map]; omega) ..

theorem Synchronised.delegation?_held :
    w.tables.delegations.find? (id, k) = storedAt ds 0 height t.delegations id k := by
  obtain ⟨-, -, few, order⟩ := synchronised.held positive holds
  have low : ds.length ≤ allIds := (few.trans topHeight_lt).le
  rw [synchronised.delegationRows order]
  exact find?_storeAll _ (holds.delegation_place low) (Nat.zero_add _ ▸ low) ..

end Finds

/-- Where nothing fails, a synchronisation with nothing kept, by however many workers with whatever batches,
returns the numbers of validators, nodes and delegations that the chain holds, and has stored these and no
others. For each of the validators the series show at the height how many nodes are active, how many are
linked and what is staked, its latest snapshot shows the latest amounts, and no other row of the series has
changed. -/
theorem sync_writes_totals {result : Except Stop SyncSummary}
    (found : findContracts context version = .ok c) (holds : ChainHolds chain c height vs ns ds)
    (returned : Returns (Succeeds chain height) plan context version height time t .empty result w)
    (ended : result ≠ .error .crashed) :
    let after := w.tables
    let enumerated := fun id : Word => 1 ≤ id.toNat ∧ id.toNat ≤ vs.length
    result = .ok ⟨height, vs.length, ns.length, ds.length⟩ ∧
      (∀ id k, after.delegations.find? (id, k) = storedAt ds 0 height t.delegations id k) ∧
      (∀ id k, after.nodes.find? (id, k) = storedAt (ns.map (dated time)) 1 height t.nodes id k) ∧
      (∀ id k, after.validators.find? (id, k) = (storedAt vs 1 height t.validators id k).map fun v =>
        if enumerated id ∧ latestKey? after.validators id = some (id, k) then
          counting v (after.latestAmount id)
        else v) ∧
      (∀ id, enumerated id →
        (after.amountAt? id .activeNodes height).map (·.toNat) =
          some (ns.filter fun n => n.validatorId == id && n.status.isActive).length ∧
        (after.amountAt? id .linkedNodes height).map (·.toNat) =
          some (ns.filter fun n => n.validatorId == id && n.status.isLinked).length ∧
        (after.amountAt? id .totalStake height).map (·.toNat) =
          some (min ((ds.filter fun d => d.validatorId == id && d.state.isStaked).map
            (·.amount.toNat)).sum (2 ^ 256 - 1))) ∧
      ∀ id figure k, k ≠ height ∨ ¬ enumerated id →
        after.statistic? id figure k = t.statistic? id figure k := by
  intro after enumerated
  cases result with
  | error stop =>
    obtain failed | failed | failed | ⟨crashed, -⟩ := returned.fails found
    · exact absurd failed (not_fails holds.validators)
    · exact absurd failed (not_fails holds.nodes)
    · exact absurd failed (not_fails holds.recalled)
    · exact absurd (congrArg _ crashed) ended
  | ok summary =>
    obtain ⟨c', vs', ns', turns, before, found', synchronised, rfl, rfl⟩ :=
      returned.weaken.synchronised
    cases found.symm.trans found'
    have positive := batch_pos plan
    obtain ⟨rfl, rfl, -, order⟩ := synchronised.held positive holds
    set snapshots := vs'.map fun v => figures ns' (allFound turns) v.id with written
    have listed (id : Word) : id ∈ snapshots.map (·.validatorId) ↔ enumerated id := by
      rw [written, List.map_map]
      exact synchronised.mem_validators
    -- The closing request leaves delegations and nodes as the parts have left them.
    refine ⟨by rw [order.length_eq], fun id k => ?_, fun id k => ?_, fun id k => ?_, fun id mine => ?_,
      fun id figure k elsewhere => ?_⟩
    · have frame := saveSnapshots_frame Tables.delegations (fun _ _ _ => rfl) snapshots height time
        before.tables
      exact (congrArg (Table.find? · (id, k)) frame).trans (synchronised.delegation?_held positive holds id k)
    · have frame := saveSnapshots_frame Tables.nodes (fun _ _ _ => rfl) snapshots height time before.tables
      exact (congrArg (Table.find? · (id, k)) frame).trans (synchronised.node?_held positive holds id k)
    · have rows := validator?_saveSnapshots snapshots height time before.tables (id, k)
      simp only [listed, synchronised.validator?_held positive holds] at rows
      exact rows
    · obtain ⟨v, member, rfl⟩ := List.mem_map.1 (synchronised.mem_validators.2 mine)
      have among : figures ns' (allFound turns) v.id ∈ snapshots := List.mem_map_of_mem member
      have distinct : (snapshots.map (·.validatorId)).Nodup := by
        rw [written, List.map_map]
        exact synchronised.validators_distinct
      have shown (figure : ValidatorFigure) :=
        (saveSnapshots_shows among distinct height time before.tables figure).1
      have some_nodes (test : Node → Bool) : (Word.ofNat (ns'.filter test).length).toNat =
          (ns'.filter test).length :=
        toNat_ofNat ((List.length_filter_le ..).trans_lt holds.fewNodes)
      refine ⟨?_, ?_, ?_⟩
      · exact (congrArg _ (shown .activeNodes)).trans (congrArg some (some_nodes _))
      · exact (congrArg _ (shown .linkedNodes)).trans (congrArg some (some_nodes _))
      · refine (congrArg _ (shown .totalStake)).trans (congrArg some ?_)
        rw [figures_perm order]
        exact Word.toNat_clamp _
    · refine (statistic?_saveSnapshots ?_ time before.tables figure).trans ?_
      · rwa [listed]
      · rw [statistic?, synchronised.statisticRows, ← statistic?]

end Totals

end EpochSync

section ById

/-- The last word of the data of a call. -/
def lastWord (input : List UInt8) : Word := .ofBytes (input.drop (input.length - 32))

theorem lastWord_append (before : List UInt8) (id : Word) : lastWord (before ++ id.toBytes) = id := by
  rw [lastWord, List.length_append, Word.length_toBytes, Nat.add_sub_cancel, List.drop_left,
    Word.ofBytes_toBytes]

/-- A chain that answers each call by its contract and the id that is asked for. -/
def byId (answer : Address → Word → List UInt8) : ChainAnswers
  | .call _ contract input => .ok (answer contract (lastWord input))
  | r => evenChain r

/-- A chain that answers each call alike. -/
def constantly (bytes : List UInt8) : ChainAnswers
  | .call .. => .ok bytes
  | r => evenChain r

def nodeBinding : Binding where
  name := .nodes
  version := ⟨"1.0.0"⟩
  address := .ofWord 2
  interface := ⟨[
    .function ⟨"nodes", [⟨"nodeIndex", .uint 256, false⟩],
      [⟨"name", .string, false⟩, ⟨"ip", .fixedBytes 4, false⟩, ⟨"publicIP", .fixedBytes 4, false⟩,
        ⟨"port", .uint 16, false⟩, ⟨"startBlock", .uint 256, false⟩,
        ⟨"lastRewardDate", .uint 256, false⟩, ⟨"finishTime", .uint 256, false⟩,
        ⟨"status", .uint 8, false⟩, ⟨"validatorId", .uint 256, false⟩]⟩,
    .function ⟨"getNodeNextRewardDate", [⟨"nodeIndex", .uint 256, false⟩],
      [⟨"", .uint 256, false⟩]⟩]⟩

/-- The contracts of validators, nodes and delegations in one version. -/
def holdingContext : Context where
  mode := .archive
  registry := {
    byAddress := ∅
    byVersion := ((Table.empty.insert (.validatorService, ⟨"1.0.0"⟩) validatorBinding).insert
      (.nodes, ⟨"1.0.0"⟩) nodeBinding).insert (.delegationController, ⟨"1.0.0"⟩) delegationBinding
    events := ∅ }

def holdingContracts : SyncContracts :=
  ⟨⟨holdingContext, validatorBinding⟩, ⟨holdingContext, nodeBinding⟩, ⟨holdingContext, delegationBinding⟩⟩

theorem encode_ofWord (id : Word) : Abi.encode [.ofWord id] = id.toBytes := by
  change (id.toBytes ++ []) ++ [] = _
  rw [List.append_nil, List.append_nil]

section Alike

variable {α β : Type}

/-- Two chains answer a job alike. -/
def Alike (chain chain' : ChainAnswers) (job : Job α) : Prop :=
  ∀ t, job.run.run (answering chain fun _ => false) t = job.run.run (answering chain' fun _ => false) t

variable {chain chain' : ChainAnswers} {job : Job α}

theorem alike_pure (a : α) : Alike chain chain' (pure a) := fun _ => rfl

theorem alike_throw (stop : Stop) : Alike chain chain' (throw stop : Job α) := fun _ => rfl

theorem alike_lift (value : Except Failure α) : Alike chain chain' (lift value) := by
  cases value <;> exact fun _ => rfl

theorem Alike.bind {f : α → Job β} (first : Alike chain chain' job)
    (next : ∀ a, Alike chain chain' (f a)) : Alike chain chain' (job >>= f) := by
  intro t
  have unfold_bind : (job >>= f).run = job.run >>= ExceptT.bindCont fun a => f a := rfl
  rw [unfold_bind, Dialogue.run_bind, Dialogue.run_bind, first t]
  cases (job.run.run (answering chain' fun _ => false) t).1 with
  | ok a => exact next a _
  | error stop => rfl

theorem Alike.told (alike : Alike chain chain' job) : told chain job = told chain' job :=
  congrArg Prod.fst (alike .empty)

variable (answer : Address → Word → List UInt8) (c : ViewContract) (height : Nat) (id : Word)

/-- To a call with one id a contract answers as if it always answered the same. -/
theorem call_alike (method : String) : Alike (byId answer) (constantly (answer c.binding.address id))
    (c.call height method [.ofWord id]) := by
  unfold ViewContract.call
  refine .bind ?_ fun block => (alike_lift _).bind fun f => ?_
  · unfold Context.stateAt
    split <;> exact fun _ => rfl
  unfold Abi.FunctionSchema.callData?
  dsimp only
  split
  next input fits =>
    split at fits
    next =>
      cases fits
      rw [encode_ofWord]
      change Alike _ _ (Job.chain (c.binding.name.text ++ "." ++ method)
        (.call block c.binding.address (f.selector ++ id.toBytes)) >>= _)
      refine .bind (fun t => ?_) fun output => ?_
      · change (answered _ (.ok (answer _ (lastWord (f.selector ++ id.toBytes)))), t) = _
        rw [lastWord_append]
        rfl
      · split
        · exact alike_throw _
        · split
          · exact alike_throw _
          · exact alike_throw _
          · exact alike_pure _
    next => cases fits
  next => exact alike_throw _

theorem validator_alike : Alike (byId answer) (constantly (answer c.binding.address id))
    (c.validator id height) := by
  refine .bind ((call_alike answer c height id _).bind fun _ => alike_lift _) fun v => ?_
  exact ((call_alike answer c height id _).bind fun _ => alike_lift _).bind fun _ => alike_pure _

theorem delegationRecord_alike : Alike (byId answer) (constantly (answer c.binding.address id))
    (c.delegationRecord id height) :=
  (call_alike answer c height id _).bind fun _ => alike_lift _

theorem delegationState_alike : Alike (byId answer) (constantly (answer c.binding.address id))
    (c.delegationState id height) :=
  ((call_alike answer c height id _).bind fun _ => alike_lift _).bind fun _ => alike_pure _

theorem node_alike : Alike (byId answer) (constantly (answer c.binding.address id))
    (c.node id height) := by
  have field {β : Type} (values : List Abi.Value) (index : Nat) (name : String)
      (read : Abi.Value → Except Failure β) :
      Alike (byId answer) (constantly (answer c.binding.address id))
        (do lift (read (← lift (Abi.Value.field values index name)))) :=
    (alike_lift _).bind fun _ => alike_lift _
  have ip (values : List Abi.Value) (index : Nat) (name : String) :
      Alike (byId answer) (constantly (answer c.binding.address id)) (do
        let bs ← lift ((← lift (Abi.Value.field values index name)).asFixedBytes name)
        lift (ViewContract.ipOf bs)) :=
    (alike_lift _).bind fun _ => (alike_lift _).bind fun _ => alike_lift _
  unfold ViewContract.node
  refine (call_alike answer c height id _).bind fun output => ?_
  refine (field _ 3 _ _).bind fun port => (field _ 7 _ _).bind fun status => ?_
  refine (alike_lift _).bind fun text => (alike_lift _).bind fun name => ?_
  refine (ip _ 1 _).bind fun _ => (ip _ 2 _).bind fun _ => ?_
  refine (alike_lift _).bind fun port => (field _ 4 _ _).bind fun startBlock => ?_
  refine ((call_alike answer c height id _).bind fun _ => alike_lift _).bind fun nextReward => ?_
  refine (field _ 5 _ _).bind fun lastReward => (field _ 6 _ _).bind fun finishTime => ?_
  exact (alike_lift _).bind fun status => (field _ 8 _ _).bind fun _ => alike_pure _

end Alike

section Holding

/-- A chain with some numbers of validators, of active nodes of validator 1, and of delegations of 100 to
it. -/
def holding (validators nodes delegations : Nat) : ChainAnswers :=
  byId fun contract id =>
    if contract = .zero then
      if id.toNat < delegations then [4, 1, 100, 0, 0, 0, 0, 256, 0].flatMap Abi.wordOf else []
    else if contract = .ofWord 1 then
      if 1 ≤ id.toNat ∧ id.toNat < 1 + validators then (List.replicate 9 (0 : Nat)).flatMap Abi.wordOf
      else []
    else if 1 ≤ id.toNat ∧ id.toNat < 1 + nodes then [0, 0, 0, 0, 0, 0, 0, 0, 1].flatMap Abi.wordOf
    else []

def heldValidator (id : Word) : Validator := { (default : Validator) with id, height := 20 }

def heldNode (id : Word) : Node :=
  { (default : Node) with id, status := .active, validatorId := 1, height := 20 }

def heldDelegation (id : Word) : Delegation :=
  ⟨id, .ofWord 4, 1, 100, 0, .ofSeconds 0, 0, 0, "", .delegated, 20, .zero⟩

/-- Items of some kind under ids one after another. -/
def inRange {α : Type} (item : Word → α) (first n : Nat) : List α :=
  (List.range' first n).map fun i => item (.ofNat i)

theorem heldAt_inRange {α : Type} (item : Word → α) (first n : Nat) (id : Word) :
    heldAt (inRange item first n) first id.toNat =
      if first ≤ id.toNat ∧ id.toNat < first + n then .ok (item id) else .error .empty := by
  unfold heldAt itemAt? inRange
  by_cases from_ : first ≤ id.toNat
  · rw [if_pos from_, List.getElem?_map]
    by_cases below : id.toNat < first + n
    · rw [if_pos ⟨from_, below⟩, List.getElem?_range' (by omega), Nat.one_mul,
        Nat.add_sub_cancel' from_, Option.map_some, ofNat_toNat]
    · rw [if_neg fun inside => below inside.2, List.getElem?_eq_none (by simp; omega)]
      rfl
  · rw [if_neg from_, if_neg fun inside => from_ inside.1]

set_option maxRecDepth 100000 in
theorem holding_holds (n m d : Nat) (few : n < allIds) (few' : m < allIds) :
    ChainHolds (holding n m d) holdingContracts 20 (inRange heldValidator 1 n) (inRange heldNode 1 m)
      (inRange heldDelegation 0 d) := by
  constructor
  · intro id
    rw [heldAt_inRange, holding, (validator_alike _ _ _ _).told]
    change told (constantly (if 1 ≤ id.toNat ∧ id.toNat < 1 + n then _ else [])) _ = _
    split <;> rfl
  · intro id
    rw [heldAt_inRange, holding, (node_alike _ _ _ _).told]
    change told (constantly (if 1 ≤ id.toNat ∧ id.toNat < 1 + m then _ else [])) _ = _
    split <;> rfl
  · intro id
    rw [heldAt_inRange, holding, (delegationRecord_alike _ _ _ _).told, Nat.zero_add]
    change told (constantly (if id.toNat < d then _ else [])) _ = _
    by_cases below : id.toNat < d
    · rw [if_pos below, if_pos ⟨Nat.zero_le _, below⟩]
      rfl
    · rw [if_neg below, if_neg fun inside => below inside.2]
      rfl
  · intro id
    rw [heldAt_inRange, holding, (delegationState_alike _ _ _ _).told, Nat.zero_add]
    change told (constantly (if id.toNat < d then _ else [])) _ = _
    by_cases below : id.toNat < d
    · rw [if_pos below, if_pos ⟨Nat.zero_le _, below⟩]
      rfl
    · rw [if_neg below, if_neg fun inside => below inside.2]
      rfl
  · rwa [inRange, List.length_map, List.length_range']
  · rwa [inRange, List.length_map, List.length_range']

/-- Two workers with two ids in a batch find 2 validators, 2 active nodes and 3 delegations to the first
validator. -/
theorem sync_writes_totals_held :
    ∃ w, Returns (Succeeds (holding 2 2 3) 20) ⟨2, 2⟩ holdingContext ⟨"1.0.0"⟩ 20 (.ofSeconds 20) .empty
        .empty (.ok ⟨20, 2, 2, 3⟩) w ∧
      (w.tables.amountAt? 1 .activeNodes 20).map (·.toNat) = some 2 ∧
      (w.tables.amountAt? 2 .activeNodes 20).map (·.toNat) = some 0 ∧
      (w.tables.amountAt? 1 .totalStake 20).map (·.toNat) = some 300 := by
  have found : findContracts holdingContext ⟨"1.0.0"⟩ = .ok holdingContracts := rfl
  have holds := holding_holds 2 2 3 (by decide) (by decide)
  have turns : ((runInTurns (holding 2 2 3) ⟨2, 2⟩ holdingContracts 20 (.ofSeconds 20) .empty .empty
      ((List.range 60).map (· % 4))).isSome) := by decide +kernel
  obtain ⟨⟨summary, w⟩, ran⟩ := Option.isSome_iff_exists.1 turns
  have returned := returns_of_turns found ran
  obtain ⟨same, -, -, -, totals, -⟩ := sync_writes_totals found holds returned (fun wrong => (nomatch wrong))
  cases same
  refine ⟨w, returned, ?_, ?_, ?_⟩
  · exact (totals 1 (by decide)).1
  · exact (totals 2 (by decide)).1
  · exact (totals 1 (by decide)).2.2

end Holding

end ById

end StakeIndex
