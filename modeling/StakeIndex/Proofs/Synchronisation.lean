import StakeIndex.Index.EpochSync
import StakeIndex.Proofs.Interleaving

/-!
What the readings of a synchronisation ask of the store: the nodes and the delegations are stored at its
height, as they are read, and nothing else is.
-/
namespace StakeIndex

open Job

namespace EpochSync

/-- Requests that store snapshots of nodes or delegations. -/
inductive Beside : StoreRequest → Prop where
  | nodes (nodes : List Node) : Beside (.saveNodes nodes)
  | delegation (d : Delegation) : Beside (.saveDelegation d)

/-- Requests that store snapshots of nodes or delegations at a height. -/
inductive BesideAt (height : Nat) : StoreRequest → Prop where
  | nodes {nodes : List Node} : (∀ n ∈ nodes, n.height = height) → BesideAt height (.saveNodes nodes)
  | delegation {d : Delegation} : d.height = height → BesideAt height (.saveDelegation d)

theorem BesideAt.beside {height : Nat} {r : StoreRequest} (at_ : BesideAt height r) : Beside r := by
  cases at_ with
  | nodes => exact .nodes _
  | delegation => exact .delegation _

/-- The nodes are stored at their height, and no delegations beside them. -/
theorem nodes_saves (c : ViewContract) (height : Nat) (time : Instant) (fuel : Nat) (id : Word)
    (counted : Nat × CountsByValidator) :
    Within (fun r => BesideAt height r ∧ ∀ d, r ≠ .saveDelegation d) (nodes c height time fuel id counted)
      fun _ => True := by
  induction fuel generalizing id counted with
  | zero => exact within_pure trivial
  | succ fuel ih =>
    rw [nodes]
    apply (c.node_consults height id).ifAny.within.bind
    intro found place
    cases found with
    | none => exact within_pure trivial
    | some n =>
      apply (within_store ⟨.nodes (List.forall_mem_singleton.2 (place n rfl).2), fun _ => nofun⟩).bind
      intro _ _
      cases id.next? with
      | none => exact within_pure trivial
      | some next => exact ih next _

theorem nodes_within (c : ViewContract) (height : Nat) (time : Instant) (fuel : Nat) (id : Word)
    (counted : Nat × CountsByValidator) :
    Within Beside (nodes c height time fuel id counted) fun _ => True :=
  (nodes_saves c height time fuel id counted).weaken fun _ saves => saves.1.beside

theorem delegation_consults (c : ViewContract) (id : Word) (height : Nat) :
    Consults (delegation c id height) fun d => d.height = height := by
  unfold delegation
  apply (consults_shared (.knownDelegation id)).bind
  intro known _
  apply (c.delegationState_consults height id).bind
  intro state _
  split
  · exact within_pure rfl
  · apply (c.delegationRecord_consults height id).bind
    intro read _
    apply (consults_shared (.rememberDelegation { read with state })).bind
    intro _ _
    exact within_pure rfl

theorem delegations_within (c : ViewContract) (height : Nat) (fuel : Nat) (id : Word)
    (summed : Nat × StakeByValidator) :
    Within Beside (delegations c height fuel id summed) fun _ => True := by
  induction fuel generalizing id summed with
  | zero => exact within_pure trivial
  | succ fuel ih =>
    rw [delegations]
    apply (delegation_consults c id height).ifAny.within.bind
    intro found _
    cases found with
    | none => exact within_pure trivial
    | some d =>
      apply (within_store (.delegation d)).bind
      intro _ _
      cases id.next? with
      | none => exact within_pure trivial
      | some next => exact ih next _

theorem toNat_next {id following : Word} (next : id.next? = some following) :
    following.toNat = id.toNat + 1 := by
  unfold Word.next? Word.ofNat? at next
  split at next
  · cases next
    rfl
  · cases next

end EpochSync

end StakeIndex
