import StakeIndex.Proofs.Pools
import StakeIndex.Proofs.Views

/-!
What the chain tells. On a chain whose answers are fixed a view call comes to one result, be it a value, an
empty response or a failure; while it is under way the chain may also fail for other reasons, and then it
comes to a failure too, but never to an empty response that was not told.
-/
namespace StakeIndex

open Dialogue

/-- What a fault of the chain is never taken for. -/
abbrev Stop.empty : Stop := .failed .emptyResponse

namespace Job

variable {α β : Type} {chain : ChainAnswers} {height : Nat} {job : Job α}

/-- What a job comes to when all its questions are answered. -/
def told (chain : ChainAnswers) (job : Job α) : Except Stop α :=
  (job.run.run (answering chain fun _ => false) Tables.empty).1

/-- The chain answers as it does, or fails for another reason than that there is nothing. Its head may be
anywhere. -/
def Replies (chain : ChainAnswers) : (r : ChainRequest) → Except ChainFault r.Result → Prop
  | .head, reply => reply ≠ .error (.failed .emptyResponse)
  | r, reply => reply = chain r ∨ ∃ fault, reply = .error fault ∧ fault ≠ .failed .emptyResponse

/-- The chain answers as it does, and its head has not passed a height. -/
def Undisturbed (chain : ChainAnswers) (height : Nat) :
    (r : ChainRequest) → Except ChainFault r.Result → Prop
  | .head, reply => ∃ n ≤ height, reply = .ok n
  | r, reply => reply = chain r

/-- Only the chain is asked. -/
def viewProtocol (chain : ChainAnswers) : Protocol Request.Answer where
  asks
    | .chain _ => True
    | _ => False
  replies
    | .chain r, reply => Replies chain r reply
    | _, _ => True

/-- A reply of the chain that is not what it answers. -/
def Disturbed (chain : ChainAnswers) (height : Nat) (e : Exchange Request.Answer) : Prop :=
  ∃ r reply, e = ⟨.chain r, reply⟩ ∧ ¬ Undisturbed chain height r reply

/-- A job comes to what it is told, or something disturbed it and it fails. -/
def Tells (chain : ChainAnswers) (height : Nat) (value : Except Stop α) :
    Promise Request.Answer (Except Stop α) :=
  fun past result => result = value ∨
    ∃ stop, result = .error stop ∧ stop ≠ .empty ∧ ∃ e ∈ past, Disturbed chain height e

/-- A job that asks only the chain, and only for state at a height. -/
structure Steady (chain : ChainAnswers) (height : Nat) (job : Job α) : Prop where
  completes : ∀ t, job.run.run (answering chain fun _ => false) t = (told chain job, t)
  obeys : job.run.Obeys (viewProtocol chain) (Tells chain height (told chain job))

theorem steady_pure (a : α) : Steady chain height (pure a) := ⟨fun _ => rfl, .inl rfl⟩

theorem steady_throw (stop : Stop) : Steady chain height (throw stop : Job α) :=
  ⟨fun _ => rfl, .inl rfl⟩

theorem steady_lift (value : Except Failure α) : Steady chain height (lift value) := by
  cases value with
  | ok a => exact steady_pure a
  | error failure => exact steady_throw _

theorem Steady.told_bind (steady : Steady chain height job) (f : α → Job β) :
    told chain (job >>= f) = told chain job >>= fun a => told chain (f a) := by
  have unfold_bind : (job >>= f).run = job.run >>= ExceptT.bindCont fun a => f a := rfl
  rw [told, unfold_bind, Dialogue.run_bind, steady.completes]
  cases told chain job <;> rfl

theorem Steady.bind {f : α → Job β} (steady : Steady chain height job)
    (next : ∀ a, Steady chain height (f a)) : Steady chain height (job >>= f) := by
  have told_eq := steady.told_bind f
  constructor
  · intro t
    have unfold_bind : (job >>= f).run = job.run >>= ExceptT.bindCont fun a => f a := rfl
    rw [unfold_bind, Dialogue.run_bind, steady.completes, told_eq]
    cases told chain job with
    | ok a => exact (next a).completes t
    | error stop => rfl
  · rw [told_eq]
    refine Obeys.bind_except steady.obeys (fun past a tells => ?_) (fun past stop tells => ?_)
    · obtain same | ⟨_, wrong, -⟩ := tells
      · refine (next a).obeys.mono fun later b tells => ?_
        rw [← same]
        obtain same | ⟨stop, failed, other, e, member, disturbed⟩ := tells
        · exact .inl same
        · exact .inr ⟨stop, failed, other, e, List.mem_append_right _ member, disturbed⟩
      · cases wrong
    · obtain same | ⟨stop', same, other, disturbed⟩ := tells
      · rw [← same]
        exact .inl rfl
      · cases same
        exact .inr ⟨stop, rfl, other, disturbed⟩

theorem failure_of_fault {what : String} {fault : ChainFault} (other : fault ≠ .failed .emptyResponse) :
    Stop.failed (fault.toFailure what) ≠ .empty := by
  cases fault with
  | failed failure =>
    rintro same
    cases same
    exact other rfl
  | silent => exact fun wrong => (nomatch wrong)

theorem steady_chain (what : String) {r : ChainRequest} (asked : r ≠ .head) :
    Steady chain height (Job.chain what r) := by
  have told_eq : told chain (Job.chain what r) = answered what (chain r) := by
    cases r with
    | head => exact absurd rfl asked
    | _ => rfl
  constructor
  · intro t
    rw [told_eq]
    cases r with
    | head => exact absurd rfl asked
    | _ => rfl
  · rw [told_eq]
    refine ⟨trivial, fun reply replied => ?_⟩
    have cases_ : reply = chain r ∨ ∃ fault, reply = .error fault ∧ fault ≠ .failed .emptyResponse := by
      cases r with
      | head => exact absurd rfl asked
      | _ => exact replied
    have undisturbed : Undisturbed chain height r reply → reply = chain r := by
      cases r with
      | head => exact absurd rfl asked
      | _ => exact id
    by_cases same : reply = chain r
    · exact .inl (same ▸ rfl)
    · obtain wrong | ⟨fault, rfl, other⟩ := cases_
      · exact absurd wrong same
      · exact .inr ⟨_, rfl, failure_of_fault other, _, List.mem_singleton_self _, _, _, rfl,
          fun fine => same (undisturbed fine)⟩

/-- An empty response is nothing, and nothing else is. -/
def absent : Except Stop α → Except Stop (Option α)
  | .ok a => .ok (some a)
  | .error (.failed .emptyResponse) => .ok none
  | .error stop => .error stop

theorem absent_error {stop : Stop} (other : stop ≠ .empty) :
    absent (.error stop : Except Stop α) = .error stop := by
  unfold absent
  split
  next wrong => cases wrong
  next same =>
    cases same
    exact absurd rfl other
  next same =>
    cases same
    rfl

theorem ifAny_eq (job : Job α) : job.ifAny.run = job.run >>= fun result => .done (absent result) := by
  change job.run >>= _ = _
  refine congrArg (job.run >>= ·) (funext fun result => ?_)
  cases result with
  | ok a => rfl
  | error stop =>
    by_cases empty : stop = .empty
    · subst empty
      rfl
    · rw [absent_error empty]
      split
      next wrong => cases wrong
      next same =>
        cases same
        exact absurd rfl empty
      next same =>
        cases same
        rfl

/-- A job that goes on in one way as long as the head has not passed the height, and else fails. -/
theorem steady_head {f : Nat → Job α} {a : α} (low : ∀ n ≤ height, f n = pure a)
    (high : ∀ n, height < n → ∃ stop : Stop, stop ≠ .empty ∧ f n = throw stop) :
    Steady chain height (Job.head >>= f) := by
  have started (t : Tables) : (Job.head >>= f).run.run (answering chain fun _ => false) t =
      (f 0).run.run (answering chain fun _ => false) t := rfl
  have told_eq : told chain (Job.head >>= f) = .ok a := by
    rw [told, started, low 0 (Nat.zero_le _)]
    rfl
  constructor
  · intro t
    rw [told_eq, started, low 0 (Nat.zero_le _)]
    rfl
  · rw [told_eq]
    refine ⟨trivial, fun reply replied => ?_⟩
    have refused {stop : Stop} (other : stop ≠ .empty) (beyond : ∀ n ≤ height, reply ≠ .ok n) :
        Tells chain height (.ok a) [⟨.chain .head, reply⟩] (.error stop) := by
      refine .inr ⟨stop, rfl, other, _, List.mem_singleton_self _, .head, reply, rfl, ?_⟩
      rintro ⟨n, below, same⟩
      exact beyond n below same
    cases reply with
    | error fault =>
      refine refused (failure_of_fault ?_) fun _ _ wrong => (nomatch wrong)
      rintro rfl
      exact replied rfl
    | ok n =>
      by_cases below : n ≤ height
      · have same : (f n).run = .done (.ok a) := congrArg ExceptT.run (low n below)
        change (f n).run.Obeys _ _
        rw [same]
        exact .inl rfl
      · obtain ⟨stop, other, failed⟩ := high n (Nat.lt_of_not_le below)
        have same : (f n).run = .done (.error stop) := congrArg ExceptT.run failed
        change (f n).run.Obeys _ _
        rw [same]
        refine refused other fun m low same => ?_
        cases same
        exact below low

end Job

open Job

variable (chain : ChainAnswers) (height : Nat)

/-- A node that keeps recent state only refuses a height once its head has passed it. -/
theorem Context.stateAt_steady (context : Context) : Steady chain height (context.stateAt height) := by
  unfold stateAt
  split
  · exact steady_pure _
  · exact steady_pure _
  · exact steady_pure _
  · refine steady_head (a := .latest) (fun n below => if_neg (Nat.not_lt.2 below)) fun n above => ?_
    refine ⟨_, ?_, if_pos above⟩
    exact fun wrong => (nomatch wrong)

namespace ViewContract

variable (c : ViewContract)

theorem call_steady (method : String) (arguments : List Abi.Value) :
    Steady chain height (c.call height method arguments) := by
  unfold call
  refine (c.context.stateAt_steady chain height).bind fun block => (steady_lift _).bind fun f => ?_
  dsimp only
  split
  · refine (steady_pure _).bind fun input => (steady_chain _ (by simp)).bind fun output => ?_
    split
    · exact steady_throw _
    · split
      · exact steady_throw _
      · exact steady_throw _
      · exact steady_pure _
  · exact steady_throw (.failed (.invalidParameter
      (method ++ ": the arguments do not fit the function")))

theorem callUint_steady (method name : String) (arguments : List Abi.Value) :
    Steady chain height (c.callUint height method name arguments) :=
  (c.call_steady chain height method arguments).bind fun _ => steady_lift _

theorem delegationRecord_steady (id : Word) : Steady chain height (c.delegationRecord id height) :=
  (c.call_steady chain height _ _).bind fun _ => steady_lift _

theorem delegationState_steady (id : Word) : Steady chain height (c.delegationState id height) :=
  (c.callUint_steady chain height ..).bind fun _ => steady_pure _

theorem validator_steady (id : Word) : Steady chain height (c.validator id height) := by
  refine .bind ((c.call_steady chain height _ _).bind fun _ => steady_lift _) fun v => ?_
  exact ((c.call_steady chain height ..).bind fun _ => steady_lift _).bind fun _ => steady_pure _

theorem field_steady {α : Type} (values : List Abi.Value) (index : Nat) (name : String)
    (read : Abi.Value → Except Failure α) :
    Steady chain height (do lift (read (← lift (Abi.Value.field values index name)))) :=
  (steady_lift _).bind fun _ => steady_lift _

theorem ip_steady (values : List Abi.Value) (index : Nat) (name : String) :
    Steady chain height (do
      let bs ← lift ((← lift (Abi.Value.field values index name)).asFixedBytes name)
      lift (ipOf bs)) :=
  (steady_lift _).bind fun _ => (steady_lift _).bind fun _ => steady_lift _

theorem node_steady (id : Word) : Steady chain height (c.node id height) := by
  unfold node
  refine (c.call_steady chain height ..).bind fun output => ?_
  refine (field_steady _ _ _ 3 _ _).bind fun port => (field_steady _ _ _ 7 _ _).bind fun status => ?_
  refine (steady_lift _).bind fun text => (steady_lift _).bind fun name => ?_
  refine (ip_steady _ _ _ 1 _).bind fun ip => (ip_steady _ _ _ 2 _).bind fun publicIp => ?_
  refine (steady_lift _).bind fun port => (field_steady _ _ _ 4 _ _).bind fun startBlock => ?_
  refine ((c.call_steady chain height ..).bind fun _ => steady_lift _).bind fun nextReward => ?_
  refine (field_steady _ _ _ 5 _ _).bind fun last => (field_steady _ _ _ 6 _ _).bind fun finish => ?_
  exact (steady_lift _).bind fun status => (field_steady _ _ _ 8 _ _).bind fun id => steady_pure _

end ViewContract

end StakeIndex
