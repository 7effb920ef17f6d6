import StakeIndex.Proofs.Attempt
import StakeIndex.View.Delegation
import StakeIndex.View.Node
import StakeIndex.View.Validator

/-!
View calls ask the chain only, wherever its head is: on a chain whose answers are fixed they are done with
one result or never. Whatever the answers, what is read stands under the id and the height that were asked
for, and a validator that is read has no counters yet.
-/
namespace StakeIndex

open Job

variable (chain : ChainAnswers)

/-- Wherever the head is, the state to read is refused or it is the same one. -/
theorem Context.stateAt_reads (context : Context) (height : Nat) :
    Reads chain (context.stateAt height) := by
  unfold stateAt
  split
  · exact reads_pure _
  · exact reads_pure _
  · exact reads_pure _
  next height _ =>
    refine .inr ⟨.latest, fun t => ⟨?_, fun result t' attempt => ?_⟩⟩
    · rfl
    · have unchanged {result : Except Stop Nat} {s : Tables}
          (attempt : AttemptAt chain Job.head t result s) : s = t := by
        cases attempt with
        | ask allowed rest =>
          cases rest
          exact allowed
      obtain ⟨stop, cut, rfl⟩ | ⟨n, s, attempt, rest⟩ := attempt_bind_iff.1 attempt
      · exact .inr ⟨stop, 0, rfl, unchanged cut⟩
      · obtain rfl := unchanged attempt
        split at rest
        · obtain ⟨same, after⟩ := attempt_throw_iff.1 rest
          exact .inr ⟨_, 0, same, after⟩
        · exact .inl (attempt_pure_iff.1 rest)

namespace ViewContract

variable (c : ViewContract) (chain : ChainAnswers) (height : Nat)

theorem call_reads (method : String) (arguments : List Abi.Value) :
    Reads chain (c.call height method arguments) := by
  unfold call
  refine (c.context.stateAt_reads chain height).bind fun block => (reads_lift _).bind fun f => ?_
  dsimp only
  split
  · refine (reads_pure _).bind fun input => (reads_chain _ (by simp)).bind fun output => ?_
    split
    · exact reads_throw _
    · split
      · exact reads_throw _
      · exact reads_throw _
      · exact reads_pure _
  · exact .inl (never_throw _).bind

theorem callUint_reads (method name : String) (arguments : List Abi.Value) :
    Reads chain (c.callUint height method name arguments) :=
  (c.call_reads chain height method arguments).bind fun _ => reads_lift _

theorem holderDelegationCount_reads (holder : Address) :
    Reads chain (c.holderDelegationCount holder height) :=
  c.callUint_reads chain height ..

theorem delegation_reads (id : Word) : Reads chain (c.delegation id height) := by
  refine .bind ((c.call_reads chain height _ _).bind fun _ => reads_lift _) fun d => ?_
  exact ((c.callUint_reads chain height ..).bind fun _ => reads_pure _).bind fun _ => reads_pure _

theorem validator_reads (id : Word) : Reads chain (c.validator id height) := by
  refine .bind ((c.call_reads chain height _ _).bind fun _ => reads_lift _) fun v => ?_
  exact ((c.call_reads chain height ..).bind fun _ => reads_lift _).bind fun _ => reads_pure _

theorem field_reads {α : Type} (values : List Abi.Value) (index : Nat) (name : String)
    (read : Abi.Value → Except Failure α) :
    Reads chain (do lift (read (← lift (Abi.Value.field values index name)))) :=
  (reads_lift _).bind fun _ => reads_lift _

theorem ip_reads (values : List Abi.Value) (index : Nat) (name : String) :
    Reads chain (do
      let bs ← lift ((← lift (Abi.Value.field values index name)).asFixedBytes name)
      lift (ipOf bs)) :=
  (reads_lift _).bind fun _ => (reads_lift _).bind fun _ => reads_lift _

theorem node_reads (id : Word) : Reads chain (c.node id height) := by
  unfold node
  refine (c.call_reads chain height ..).bind fun output => ?_
  refine (field_reads _ _ 3 _ _).bind fun port => (field_reads _ _ 7 _ _).bind fun status => ?_
  refine (reads_lift _).bind fun text => (reads_lift _).bind fun name => ?_
  refine (ip_reads _ _ 1 _).bind fun ip => (ip_reads _ _ 2 _).bind fun publicIp => ?_
  refine (reads_lift _).bind fun port => (field_reads _ _ 4 _ _).bind fun startBlock => ?_
  refine ((c.call_reads chain height ..).bind fun _ => reads_lift _).bind fun nextReward => ?_
  refine (field_reads _ _ 5 _ _).bind fun lastReward => (field_reads _ _ 6 _ _).bind fun finishTime => ?_
  exact (reads_lift _).bind fun status => (field_reads _ _ 8 _ _).bind fun id => reads_pure _

theorem nodesOf_reads (ids : List Word) : Reads chain (c.nodesOf height ids) := by
  induction ids with
  | nil => exact reads_pure _
  | cons id rest ih => exact (c.node_reads chain height id).bind fun n => ih.bind fun _ => reads_pure _

theorem validatorNodes_reads (validatorId : Word) :
    Reads chain (c.validatorNodes validatorId height) :=
  (c.call_reads chain height ..).bind fun _ => (reads_lift _).bind fun _ => c.nodesOf_reads chain height _

theorem sibling_reads (name : ContractName) : Reads chain (c.sibling name) :=
  (reads_lift _).bind fun _ => reads_pure _

/-- Each node in a list that was read is what the chain tells of it. -/
theorem nodesOf_told {ids : List Word} {nodes : List Node} {t t' : Tables}
    (attempt : AttemptAt chain (c.nodesOf height ids) t (.ok nodes) t') :
    ∀ n ∈ nodes, ∃ id ∈ ids, told? chain (c.node id height) = some n := by
  induction ids generalizing nodes t t' with
  | nil =>
    obtain ⟨same, -⟩ := attempt_pure_iff.1 attempt
    cases same
    intro n member
    cases member
  | cons id rest ih =>
    obtain ⟨first, s, one, others⟩ := completed_bind attempt
    obtain ⟨tail, s', more, done⟩ := completed_bind others
    obtain ⟨same, -⟩ := attempt_pure_iff.1 done
    cases same
    rw [List.forall_mem_cons]
    constructor
    · exact ⟨id, List.mem_cons_self, (c.node_reads chain height id).told one⟩
    · intro n member
      obtain ⟨id', among, told⟩ := ih more n member
      exact ⟨id', List.mem_cons_of_mem _ among, told⟩

end ViewContract

theorem Context.stateAt_consults (context : Context) (height : Nat) :
    Consults (context.stateAt height) fun _ => True := by
  unfold stateAt
  split
  · exact within_pure trivial
  · exact within_pure trivial
  · exact within_pure trivial
  · refine (consults_chain _ .head).bind fun head _ => ?_
    split
    · exact within_throw _
    · exact within_pure trivial

namespace ViewContract

variable (c : ViewContract) (height : Nat)

theorem call_consults (method : String) (arguments : List Abi.Value) :
    Consults (c.call height method arguments) fun _ => True := by
  unfold call
  refine (c.context.stateAt_consults height).bind fun block _ => ?_
  refine (consults_lift fun _ _ => trivial).bind fun f (_ : True) => ?_
  dsimp only
  split
  · refine (within_pure trivial).bind fun input (_ : True) => ?_
    refine (consults_chain _ _).bind fun output _ => ?_
    split
    · exact within_throw _
    · split
      · exact within_throw _
      · exact within_throw _
      · exact within_pure trivial
  · exact (within_throw _).bind fun _ (wrong : False) => wrong.elim

/-- A job whose result is read from an answer. -/
theorem read_consults {α : Type} {holds : α → Prop} (method : String) (arguments : List Abi.Value)
    (read : List Abi.Value → Except Failure α) (h : ∀ values a, read values = .ok a → holds a) :
    Consults (do lift (read (← c.call height method arguments))) holds :=
  (c.call_consults height method arguments).bind fun values _ => consults_lift (h values)

theorem callUint_consults (method name : String) (arguments : List Abi.Value) :
    Consults (c.callUint height method name arguments) fun _ => True :=
  c.read_consults height method arguments _ fun _ _ _ => trivial

/-- The results of a computation that does not fail have a property. -/
theorem ok_bind {α β : Type} {x : Except Failure α} {f : α → Except Failure β} {holds : β → Prop}
    (next : ∀ a b, f a = .ok b → holds b) : ∀ b, (x >>= f) = .ok b → holds b := by
  intro b done
  cases x with
  | ok a => exact next a b done
  | error failure => cases done

theorem delegationOf_place {id : Word} {height : Nat} {values : List Abi.Value} :
    ∀ d, delegationOf id height values = .ok d → d.id = id ∧ d.height = height := by
  unfold delegationOf
  dsimp only
  repeat refine ok_bind fun _ => ?_
  rintro d ⟨⟩
  exact ⟨rfl, rfl⟩

theorem delegationRecord_consults (id : Word) :
    Consults (c.delegationRecord id height) fun d => d.id = id ∧ d.height = height :=
  c.read_consults height _ _ _ fun _ => delegationOf_place

theorem delegationState_consults (id : Word) :
    Consults (c.delegationState id height) fun _ => True :=
  (c.callUint_consults height ..).bind fun _ _ => within_pure trivial

theorem delegation_consults (id : Word) :
    Consults (c.delegation id height) fun d => d.id = id ∧ d.height = height :=
  (c.delegationRecord_consults height id).bind fun _ place =>
    (c.delegationState_consults height id).bind fun _ _ => within_pure place

theorem validatorOf_place {id : Word} {height : Nat} {values : List Abi.Value} :
    ∀ v, validatorOf id height values = .ok v →
      v.id = id ∧ v.height = height ∧ ∀ figure, v.counter figure = 0 := by
  unfold validatorOf
  dsimp only
  repeat refine ok_bind fun _ => ?_
  rintro v ⟨⟩
  refine ⟨rfl, rfl, fun figure => ?_⟩
  cases figure <;> rfl

theorem validator_consults (id : Word) : Consults (c.validator id height) fun v =>
    v.id = id ∧ v.height = height ∧ ∀ figure, v.counter figure = 0 := by
  refine (c.read_consults height _ _ _ fun _ => validatorOf_place).bind fun v place => ?_
  refine (c.read_consults height _ _ _ fun _ _ _ => trivial).bind fun authorized (_ : True) => ?_
  obtain ⟨mine, at_, zero⟩ := place
  refine within_pure ⟨mine, at_, fun figure => ?_⟩
  rw [← zero figure]
  cases figure <;> rfl

theorem field_consults {α : Type} (values : List Abi.Value) (index : Nat) (name : String)
    (read : Abi.Value → Except Failure α) :
    Consults (do lift (read (← lift (Abi.Value.field values index name)))) fun _ => True :=
  (consults_lift fun _ _ => trivial).bind fun _ (_ : True) => consults_lift fun _ _ => trivial

theorem ip_consults (values : List Abi.Value) (index : Nat) (name : String) :
    Consults (do
      let bs ← lift ((← lift (Abi.Value.field values index name)).asFixedBytes name)
      lift (ipOf bs)) fun _ => True :=
  (consults_lift fun _ _ => trivial).bind fun _ (_ : True) =>
    (consults_lift fun _ _ => trivial).bind fun _ (_ : True) => consults_lift fun _ _ => trivial

theorem node_consults (id : Word) :
    Consults (c.node id height) fun n => n.id = id ∧ n.height = height := by
  unfold node
  refine (c.call_consults height ..).bind fun output _ => ?_
  refine (field_consults _ 3 _ _).bind fun port _ => (field_consults _ 7 _ _).bind fun status _ => ?_
  refine (consults_lift fun _ _ => trivial).bind fun text (_ : True) => ?_
  refine (consults_lift fun _ _ => trivial).bind fun name (_ : True) => ?_
  refine (ip_consults _ 1 _).bind fun ip _ => (ip_consults _ 2 _).bind fun publicIp _ => ?_
  refine (consults_lift fun _ _ => trivial).bind fun port (_ : True) => ?_
  refine (field_consults _ 4 _ _).bind fun startBlock _ => ?_
  refine (c.read_consults height _ _ _ fun _ _ _ => trivial).bind fun nextReward (_ : True) => ?_
  refine (field_consults _ 5 _ _).bind fun lastReward _ => ?_
  refine (field_consults _ 6 _ _).bind fun finishTime _ => ?_
  refine (consults_lift fun _ _ => trivial).bind fun status (_ : True) => ?_
  exact (field_consults _ 8 _ _).bind fun validatorId _ => within_pure ⟨rfl, rfl⟩

theorem nodesOf_consults (ids : List Word) :
    Consults (c.nodesOf height ids) fun nodes => ∀ n ∈ nodes, n.height = height := by
  induction ids with
  | nil => exact within_pure fun _ member => (nomatch member)
  | cons id rest ih =>
    exact (c.node_consults height id).bind fun n place => ih.bind fun nodes places =>
      within_pure (List.forall_mem_cons.2 ⟨place.2, places⟩)

theorem validatorNodes_consults (validatorId : Word) :
    Consults (c.validatorNodes validatorId height) fun nodes => ∀ n ∈ nodes, n.height = height := by
  refine (c.call_consults height ..).bind fun _ _ => ?_
  exact (consults_lift fun _ _ => trivial).bind fun ids (_ : True) => c.nodesOf_consults height ids

/-- The nodes of a validator are as the chain tells of each. -/
theorem validatorNodes_told {c : ViewContract} {chain : ChainAnswers} {height : Nat} {validatorId : Word}
    {nodes : List Node} (told : told? chain (c.validatorNodes validatorId height) = some nodes) :
    ∀ n ∈ nodes, n.height = height ∧ told? chain (c.node n.id height) = some n := by
  intro n member
  refine ⟨(c.validatorNodes_consults height validatorId).told told n member, ?_⟩
  obtain ⟨t', attempt⟩ := attempt_of_told? told
  obtain ⟨_, _, -, attempt⟩ := completed_bind attempt
  obtain ⟨_, _, -, attempt⟩ := completed_bind attempt
  obtain ⟨id, -, alone⟩ := c.nodesOf_told chain height attempt n member
  obtain ⟨rfl, -⟩ := (c.node_consults height id).told alone
  exact alone

theorem find_consults (context : Context) (name : ContractName) (version : Version) :
    Consults (find context name version) fun _ => True :=
  (consults_lift fun _ _ => trivial).bind fun _ (_ : True) => within_pure trivial

end ViewContract
end StakeIndex
