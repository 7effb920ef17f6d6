import Mathlib.Data.List.Induction
import StakeIndex.Proofs.Saturation
import StakeIndex.Proofs.SyncParts

/-!
Figures as they are summed up. Workers sum up what they found by themselves, and the sums are merged: that
comes to the sum over everything, in whatever order it was found and however it was shared out.
-/
namespace StakeIndex

theorem Word.saturatingAdd_assoc (a b c : Word) :
    (a.saturatingAdd b).saturatingAdd c = a.saturatingAdd (b.saturatingAdd c) := by
  refine Word.ext ?_
  simp only [Word.saturatingAdd, Word.toNat_clamp]
  omega

theorem Word.saturatingAdd_comm (a b : Word) : a.saturatingAdd b = b.saturatingAdd a := by
  rw [Word.saturatingAdd, Nat.add_comm, ← Word.saturatingAdd]

namespace EpochSync

section Stakes

variable (stakes total part : StakeByValidator) (ds : List Delegation) (id : Word)

/-- The stake of a validator, zero if there is none. -/
def stakeIn : Word := (stakes.find? id).getD 0

/-- Whether a delegation counts towards the stake of a validator. -/
def counts (d : Delegation) : Bool := d.validatorId == id && d.state.isStaked

theorem find?_addStake (d : Delegation) : (addStake stakes d).find? id =
    if counts id d then some ((stakeIn stakes id).saturatingAdd d.amount) else stakes.find? id := by
  unfold addStake counts
  by_cases staked : d.state.isStaked
  · rw [if_pos staked, Table.find?_insert, staked, Bool.and_true]
    by_cases mine : id = d.validatorId
    · rw [if_pos mine, if_pos (beq_iff_eq.2 mine.symm), mine]
      rfl
    · rw [if_neg mine, if_neg fun same => mine (beq_iff_eq.1 same).symm]
  · rw [if_neg staked, if_neg fun both => staked (Bool.and_eq_true_iff.1 both).2]

theorem stakeIn_addStake (d : Delegation) : stakeIn (addStake stakes d) id =
    if counts id d then (stakeIn stakes id).saturatingAdd d.amount else stakeIn stakes id := by
  rw [stakeIn, find?_addStake]
  split <;> rfl

theorem stakeIn_foldl : stakeIn (ds.foldl addStake stakes) id =
    (ds.filter (counts id)).foldl (fun total d => total.saturatingAdd d.amount) (stakeIn stakes id) := by
  induction ds generalizing stakes with
  | nil => rfl
  | cons d rest ih =>
    rw [List.foldl_cons, ih, stakeIn_addStake, List.filter_cons]
    split <;> rfl

theorem stakeIn_eq : stakeIn (ds.foldl addStake ∅) id =
    .clamp ((ds.filter (counts id)).map (·.amount.toNat)).sum := by
  rw [stakeIn_foldl, Word.foldl_saturatingAdd]
  exact congrArg _ (Nat.zero_add _)

/-- The stakes with an amount added to that of a validator. -/
def credit (amount : Word) : StakeByValidator :=
  stakes.insert id ((stakeIn stakes id).saturatingAdd amount)

theorem find?_credit (other amount : Word) : (credit stakes other amount).find? id =
    if id = other then some ((stakeIn stakes id).saturatingAdd amount) else stakes.find? id := by
  rw [credit, Table.find?_insert]
  split
  next same => rw [same]
  next => rfl

theorem find?_credits {entries : List (Word × Word)}
    (sorted : entries.Pairwise fun a b => compare a.1 b.1 = .lt) :
    (entries.foldl (fun total e => credit total e.1 e.2) total).find? id =
      match Table.findIn id entries with
      | some amount => some ((stakeIn total id).saturatingAdd amount)
      | none => total.find? id := by
  induction entries generalizing total with
  | nil => rfl
  | cons entry rest ih =>
    obtain ⟨below, tail⟩ := List.pairwise_cons.1 sorted
    rw [List.foldl_cons, ih _ tail, stakeIn, find?_credit, Table.findIn]
    by_cases mine : id = entry.1
    · have absent : Table.findIn id rest = none := by
        rw [← Option.not_isSome_iff_eq_none, Option.isSome_iff_exists]
        rintro ⟨a, found⟩
        have := below _ ((Table.findIn_eq_some_iff tail).1 found)
        simp [mine] at this
      have same : compare id entry.1 = .eq := mine ▸ Std.ReflCmp.compare_self
      rw [absent, if_pos mine, if_pos same]
    · have apart : compare id entry.1 ≠ .eq := fun same => mine (Std.LawfulEqCmp.eq_of_compare same)
      rw [if_neg mine, if_neg apart]
      rfl

theorem find?_mergeStakes : (mergeStakes total part).find? id =
    match part.find? id with
    | some amount => some ((stakeIn total id).saturatingAdd amount)
    | none => total.find? id :=
  find?_credits total id part.sorted

/-- To merge what was summed up apart is to go on summing up. -/
theorem mergeStakes_foldl : mergeStakes total (ds.foldl addStake ∅) = ds.foldl addStake total := by
  refine Table.ext_find? fun id => ?_
  rw [find?_mergeStakes]
  induction ds using List.reverseRecOn with
  | nil => rfl
  | append_singleton ds d ih =>
    rw [List.foldl_append, List.foldl_append, List.foldl_cons, List.foldl_cons, List.foldl_nil,
      List.foldl_nil, find?_addStake, find?_addStake]
    have before : stakeIn (ds.foldl addStake total) id =
        (stakeIn total id).saturatingAdd (stakeIn (ds.foldl addStake ∅) id) := by
      unfold stakeIn at ih ⊢
      rw [← ih]
      cases (ds.foldl addStake ∅).find? id with
      | some amount => rfl
      | none =>
        rw [Option.getD_none, Word.saturatingAdd_comm, Word.zero_saturatingAdd]
    by_cases mine : counts id d
    · rw [if_pos mine, if_pos mine, before, Word.saturatingAdd_assoc]
    · rw [if_neg mine, if_neg mine]
      exact ih

theorem addStake_comm (a b : Delegation) :
    addStake (addStake stakes a) b = addStake (addStake stakes b) a := by
  refine Table.ext_find? fun id => ?_
  simp only [find?_addStake, stakeIn_addStake]
  by_cases first : counts id a <;> by_cases second : counts id b
  · simp only [first, second, if_true, Word.saturatingAdd_assoc,
      Word.saturatingAdd_comm a.amount b.amount]
  all_goals simp [first, second]

theorem foldl_addDelegation (summed : Nat × StakeByValidator) :
    ds.foldl addDelegation summed = (summed.1 + ds.length, ds.foldl addStake summed.2) := by
  induction ds generalizing summed with
  | nil => rfl
  | cons d rest ih =>
    rw [List.foldl_cons, ih, List.length_cons, List.foldl_cons, addDelegation]
    exact Prod.ext (by simp only; omega) rfl

/-- What is counted and summed up. -/
def summedUp (ds : List Delegation) : Nat × StakeByValidator := ds.foldl addDelegation (0, ∅)

theorem summedUp_eq : summedUp ds = (ds.length, ds.foldl addStake ∅) := by
  rw [summedUp, foldl_addDelegation, Nat.zero_add]

variable {ds} in
theorem summedUp_perm {ds' : List Delegation} (order : ds.Perm ds') : summedUp ds = summedUp ds' := by
  rw [summedUp_eq, summedUp_eq, order.length_eq]
  exact congrArg (Prod.mk _) (order.foldl_eq' (fun a _ b _ stakes => addStake_comm stakes a b) ∅)

/-- What workers have summed up apart comes to the sum over everything that they found. -/
theorem mergeAll_eq (shares : List (List Delegation)) :
    mergeAll (shares.map summedUp) = summedUp shares.flatten := by
  unfold mergeAll
  rw [summedUp]
  generalize ((0, ∅) : Nat × StakeByValidator) = total
  induction shares generalizing total with
  | nil => rfl
  | cons share rest ih =>
    rw [List.map_cons, List.foldl_cons, ih, List.flatten_cons, List.foldl_append]
    refine congrArg (fun total => rest.flatten.foldl addDelegation total) ?_
    rw [summedUp_eq, foldl_addDelegation, mergeStakes_foldl]

end Stakes

section Nodes

variable (ns : List Node) (counted : CountsByValidator) (id : Word)

/-- The counts of a validator, zero if there are none. -/
def countsIn : NodeCounts := (counted.find? id).getD ⟨0, 0⟩

/-- How many nodes of a validator pass a test. -/
def nodesOf (test : NodeStatus → Bool) : Nat :=
  (ns.filter fun n => n.validatorId == id && test n.status).length

theorem countsIn_countNode (n : Node) : countsIn (countNode counted n) id =
    if n.validatorId = id then
      ⟨(countsIn counted id).active + if n.status.isActive then 1 else 0,
        (countsIn counted id).linked + if n.status.isLinked then 1 else 0⟩
    else countsIn counted id := by
  unfold countsIn countNode
  rw [Table.find?_insert]
  by_cases mine : id = n.validatorId
  · rw [if_pos mine, if_pos mine.symm, mine]
    rfl
  · rw [if_neg mine, if_neg (Ne.symm mine)]

theorem foldl_addNode (counted : Nat × CountsByValidator) :
    ns.foldl addNode counted = (counted.1 + ns.length, ns.foldl countNode counted.2) := by
  induction ns generalizing counted with
  | nil => rfl
  | cons n rest ih =>
    rw [List.foldl_cons, ih, List.length_cons, List.foldl_cons, addNode]
    exact Prod.ext (by simp only; omega) rfl

theorem countsIn_foldl : countsIn (ns.foldl countNode counted) id =
    ⟨(countsIn counted id).active + nodesOf ns id (·.isActive),
      (countsIn counted id).linked + nodesOf ns id (·.isLinked)⟩ := by
  induction ns generalizing counted with
  | nil => rfl
  | cons n rest ih =>
    have counts (test : NodeStatus → Bool) : nodesOf (n :: rest) id test =
        (if n.validatorId = id ∧ test n.status then 1 else 0) + nodesOf rest id test := by
      unfold nodesOf
      rw [List.filter_cons]
      by_cases passes : n.validatorId = id ∧ test n.status
      · rw [if_pos (by simpa using passes), if_pos passes, List.length_cons, Nat.add_comm]
      · rw [if_neg (by simpa using passes), if_neg passes, Nat.zero_add]
    rw [List.foldl_cons, ih, countsIn_countNode, counts, counts]
    by_cases mine : n.validatorId = id <;> simp [mine, Nat.add_assoc]

end Nodes

end EpochSync
end StakeIndex
