import StakeIndex.Proofs.SyncWorld
import StakeIndex.Proofs.Synchronisation

/-!
What each part of a synchronisation does by itself, whatever the others do. The part for the validators and
the one for the nodes walk through the ids in their order; a worker walks through the batches that it
claims. A part that stops early met a fault, or a failure that the chain tells.
-/
namespace StakeIndex

open Dialogue Job

section Plain

variable {α β : Type}

theorem Part.plain_bind (job : Job α) (f : α → Job β) :
    Part.plain (job >>= f) = Part.plain job >>= fun a => Part.plain (f a) := by
  have unfold_bind : (job >>= f).run = job.run >>= ExceptT.bindCont fun a => f a := rfl
  unfold Part.plain
  rw [unfold_bind, Dialogue.mapRequests_bind]
  refine congrArg (job.run.mapRequests _ >>= ·) (funext fun result => ?_)
  cases result <;> rfl

theorem Part.plain_ifAny (job : Job α) :
    (Part.plain job.ifAny).run = (Part.plain job).run >>= fun result => .done (absent result) := by
  unfold Part.plain
  rw [ExceptT.run_mk, ifAny_eq, Dialogue.mapRequests_bind]
  rfl

end Plain

section Promises

variable {α β : Type} (chain : ChainAnswers) (height : Nat)

/-- A part that leaves nothing behind and comes to a value, or to a failure if there was a fault. -/
def Comes (value : Except Stop α) : Promise PartRequest.Answer (Except Stop α) :=
  fun past result => marks past = [] ∧ (result = value ∨
    ∃ stop, result = .error stop ∧ stop ≠ .empty ∧ ∃ e ∈ past, Faulty chain height e)

/-- A part that ends well with what it leaves behind and comes to, or stops early for a reason of its own
if there was no fault. -/
def Ends (good : List Mark → α → Prop) (bad : List Mark → Stop → Prop) :
    Promise PartRequest.Answer (Except Stop α)
  | past, .ok a => good (marks past) a
  | past, .error stop => (∃ e ∈ past, Faulty chain height e) ∨ bad (marks past) stop

variable {chain height} {p : Protocol PartRequest.Answer}

theorem comes_bind {part : Part α} {f : α → Part β} {value : Except Stop α} {g : α → Except Stop β}
    (first : part.run.Obeys p (Comes chain height value))
    (next : ∀ a, value = .ok a → (f a).run.Obeys p (Comes chain height (g a))) :
    (part >>= f).run.Obeys p (Comes chain height (value >>= g)) := by
  refine Obeys.bind_except first (fun past a comes => ?_) (fun past stop comes => ?_)
  · obtain ⟨nothing, same | ⟨_, wrong, -⟩⟩ := comes
    · refine (next a same.symm).mono fun later b comes => ?_
      obtain ⟨nothing', comes⟩ := comes
      rw [← same]
      refine ⟨by rw [marks_append, nothing, nothing', List.append_nil], ?_⟩
      exact comes.imp_right fun ⟨stop, failed, other, e, member, faulty⟩ =>
        ⟨stop, failed, other, e, List.mem_append_right _ member, faulty⟩
    · cases wrong
  · obtain ⟨nothing, same | ⟨stop', same, other, faulty⟩⟩ := comes
    · rw [← same]
      exact ⟨nothing, .inl rfl⟩
    · cases same
      exact ⟨nothing, .inr ⟨stop, rfl, other, faulty⟩⟩

theorem ends_mono {part : Part α} {good good' : List Mark → α → Prop} {bad bad' : List Mark → Stop → Prop}
    (ends : part.run.Obeys p (Ends chain height good bad)) (goods : ∀ left a, good left a → good' left a)
    (bads : ∀ left stop, bad left stop → bad' left stop) :
    part.run.Obeys p (Ends chain height good' bad') := by
  refine ends.mono fun past result ended => ?_
  cases result with
  | ok a => exact goods _ a ended
  | error stop => exact ended.imp_right (bads _ stop)

theorem ends_bind {part : Part α} {f : α → Part β} {good : List Mark → α → Prop}
    {good' : List Mark → β → Prop} {bad bad' : List Mark → Stop → Prop}
    (first : part.run.Obeys p (Ends chain height good bad))
    (next : ∀ left a, good left a → (f a).run.Obeys p (Ends chain height
      (fun later b => good' (left ++ later) b) fun later stop => bad' (left ++ later) stop))
    (stops : ∀ left stop, bad left stop → bad' left stop) :
    (part >>= f).run.Obeys p (Ends chain height good' bad') := by
  refine Obeys.bind_except first (fun past a ended => ?_) fun past stop ended => ?_
  · refine (next _ a ended).mono fun later result ended => ?_
    cases result with
    | ok b =>
      change good' (marks (past ++ later)) b
      rw [marks_append]
      exact ended
    | error stop =>
      change _ ∨ bad' (marks (past ++ later)) stop
      rw [marks_append]
      refine ended.imp_left fun ⟨e, member, faulty⟩ => ⟨e, List.mem_append_right _ member, faulty⟩
  · exact ended.imp_right (stops _ stop)

theorem ends_pure {good : List Mark → α → Prop} {bad : List Mark → Stop → Prop} {a : α} (h : good [] a) :
    (pure a : Part α).run.Obeys p (Ends chain height good bad) := h

theorem ends_throw {good : List Mark → α → Prop} {bad : List Mark → Stop → Prop} {stop : Stop}
    (h : bad [] stop) : (throw stop : Part α).run.Obeys p (Ends chain height good bad) := .inr h

/-- What is found out about an id: there is something, or nothing. -/
def Found (value : Except Stop α) : Option α → Prop
  | some a => value = .ok a
  | none => value = .error .empty

theorem found_absent {value : Except Stop α} {found : Option α} (h : absent value = .ok found) :
    Found value found := by
  cases value with
  | ok a =>
    cases h
    rfl
  | error stop =>
    by_cases empty : stop = .empty
    · subst empty
      cases h
      rfl
    · rw [absent_error empty] at h
      cases h

theorem failed_absent {value : Except Stop α} {stop : Stop} (h : absent value = .error stop) :
    value = .error stop ∧ stop ≠ .empty := by
  cases value with
  | ok a => cases h
  | error stop' =>
    by_cases empty : stop' = .empty
    · subst empty
      cases h
    · rw [absent_error empty] at h
      cases h
      exact ⟨rfl, empty⟩

theorem ends_ifAny {job : Job α} {value : Except Stop α}
    (comes : (Part.plain job).run.Obeys p (Comes chain height value)) :
    (Part.plain job.ifAny).run.Obeys p (Ends chain height
      (fun left found => left = [] ∧ Found value found)
      fun _ stop => value = .error stop ∧ stop ≠ .empty) := by
  rw [Part.plain_ifAny]
  refine Obeys.bind comes fun past result comes => obeys_done ?_
  obtain ⟨nothing, rfl | ⟨stop, rfl, other, faulty⟩⟩ := comes
  · cases h : absent result with
    | ok found => exact ⟨nothing, found_absent h⟩
    | error stop => exact .inr (failed_absent h)
  · rw [absent_error other]
    exact .inl faulty

end Promises

section Requests

variable {chain : ChainAnswers} {c : ViewContract} {height : Nat} {known : DelegationCache}

theorem comes_shared {β : Type} {p : Protocol PartRequest.Answer} {r : SharedRequest}
    {f : r.Result → Part β} {value : Except Stop β} (may : p.asks (.plain (.shared r)))
    (next : ∀ reply : r.Result, p.replies (.plain (.shared r)) reply →
      (f reply).run.Obeys p (Comes chain height value)) :
    (Part.plain (shared r) >>= f).run.Obeys p (Comes chain height value) := by
  refine ⟨may, fun reply replied => (next reply replied).mono fun later result comes => ?_⟩
  obtain ⟨nothing, comes⟩ := comes
  exact ⟨nothing, comes.imp_right fun ⟨stop, failed, other, e, member, faulty⟩ =>
    ⟨stop, failed, other, e, List.mem_cons_of_mem _ member, faulty⟩⟩

/-- Nothing but the chain was asked. -/
def Looks (past : List PartExchange) : Prop := ∀ e ∈ past, ∃ r reply, e = ⟨.plain (.chain r), reply⟩

theorem Looks.marks {past : List PartExchange} (looks : Looks past) : marks past = [] := by
  refine List.filterMap_eq_nil_iff.2 fun e member => ?_
  obtain ⟨r, reply, rfl⟩ := looks e member
  rfl

/-- What a program does among other parts when it asks nothing but the chain. -/
theorem obeys_plain {ρ : Type} {d : Steps ρ} {promise : Promise Request.Answer ρ}
    (obeys : d.Obeys (viewProtocol chain) promise) :
    (d.mapRequests fun r => .request (.plain r)).Obeys (partProtocol chain c height known)
      fun past result => Looks past ∧ ∃ seen, promise seen result ∧
        ((∃ e ∈ seen, Disturbed chain height e) → ∃ e ∈ past, Faulty chain height e) := by
  induction d generalizing promise with
  | done a =>
    exact ⟨fun _ member => (nomatch member), [], obeys, fun ⟨_, member, _⟩ => (nomatch member)⟩
  | ask r next ih =>
    cases r with
    | store r => exact obeys.1.elim
    | shared r => exact obeys.1.elim
    | chain r =>
      refine ⟨trivial, fun reply replied => (ih reply (obeys.2 reply replied)).mono ?_⟩
      rintro later result ⟨looks, seen, promised, faults⟩
      refine ⟨List.forall_mem_cons.2 ⟨⟨r, reply, rfl⟩, looks⟩, _, promised, ?_⟩
      rintro ⟨e, member, disturbed⟩
      obtain rfl | member := List.mem_cons.1 member
      · obtain ⟨r', reply', same, moved⟩ := disturbed
        cases same
        exact ⟨⟨.plain (.chain r), reply⟩, List.mem_cons_self, moved⟩
      · obtain ⟨e', member, faulty⟩ := faults ⟨e, member, disturbed⟩
        exact ⟨e', List.mem_cons_of_mem _ member, faulty⟩

theorem comes_steady {α : Type} {job : Job α} (steady : Steady chain height job) :
    (Part.plain job).run.Obeys (partProtocol chain c height known)
      (Comes chain height (told chain job)) := by
  refine (obeys_plain steady.obeys).mono ?_
  rintro past result ⟨looks, seen, tells, faults⟩
  refine ⟨looks.marks, tells.imp_right ?_⟩
  rintro ⟨stop, failed, other, disturbed⟩
  exact ⟨stop, failed, other, faults disturbed⟩

/-- A delegation of which nothing usable was kept may be kept as the chain tells of it. -/
theorem may_remember {kept : Option Delegation} {id : Word} {state : DelegationState} {read : Delegation}
    (comes : recalled chain c height kept id = recalled chain c height (known.find? id) id)
    (told_state : told chain (c.delegationState id height) = .ok state)
    (usable : kept.filter (·.state == state) = none)
    (told_ : told chain (c.delegationRecord id height) = .ok read) :
    recalled chain c height kept id = .ok { read with state } ∧ read.height = height ∧
      (partProtocol chain c height known).asks
        (.plain (.shared (.rememberDelegation { read with state }))) := by
  have fetched : told chain (c.delegation id height) = .ok { read with state } := by
    rw [told_delegation, told_, told_state]
    rfl
  have result : recalled chain c height kept id = .ok { read with state } := by
    rw [recalled_of_state told_state, usable]
    exact fetched
  obtain ⟨rfl, at_⟩ := told_place fetched
  exact ⟨result, at_, fetched, comes.symm.trans result⟩

/-- A delegation comes to what it came to at the start, whatever other workers have kept since. -/
theorem comes_delegation (id : Word) :
    (Part.plain (EpochSync.delegation c id height)).run.Obeys (partProtocol chain c height known)
      (Comes chain height (recalled chain c height (known.find? id) id)) := by
  unfold EpochSync.delegation
  rw [Part.plain_bind]
  refine comes_shared trivial fun kept comes => ?_
  change recalled chain c height kept id = _ at comes
  rw [← comes, Part.plain_bind]
  refine comes_bind (comes_steady (c.delegationState_steady chain height id)) fun state told_state => ?_
  cases usable : kept.filter (·.state == state) with
  | some d => exact ⟨rfl, .inl rfl⟩
  | none =>
    dsimp only
    rw [Part.plain_bind]
    refine comes_bind (comes_steady (c.delegationRecord_steady chain height id)) fun read told_ => ?_
    obtain ⟨-, rfl, may⟩ := may_remember comes told_state usable told_
    rw [Part.plain_bind]
    exact comes_shared may fun _ _ => ⟨rfl, .inl rfl⟩

theorem ends_store (r : StoreRequest) :
    (Part.plain (.store r)).run.Obeys (partProtocol chain c height known)
      (Ends chain height (fun left _ => left = [.wrote r]) fun _ _ => False) := by
  refine ⟨trivial, fun reply _ => ?_⟩
  cases reply with
  | ok a => rfl
  | error stop => exact .inl ⟨_, List.mem_singleton_self _, stop, rfl⟩

theorem ends_ask {β : Type} {p : Protocol PartRequest.Answer} {r : PartRequest} {f : r.Answer → Part β}
    {good : List Mark → β → Prop} {bad : List Mark → Stop → Prop} (may : p.asks r)
    (next : ∀ reply, (f reply).run.Obeys p (Ends chain height
      (fun later b => good (marks [⟨r, reply⟩] ++ later) b)
      fun later stop => bad (marks [⟨r, reply⟩] ++ later) stop)) :
    (Part.ask r >>= f).run.Obeys p (Ends chain height good bad) := by
  refine ⟨may, fun reply _ => (next reply).mono fun later result ended => ?_⟩
  cases result with
  | ok b =>
    change good (marks ([_] ++ later)) b
    rw [marks_append]
    exact ended
  | error stop =>
    change _ ∨ bad (marks ([_] ++ later)) stop
    rw [marks_append]
    exact ended.imp_left fun ⟨e, member, faulty⟩ => ⟨e, List.mem_cons_of_mem _ member, faulty⟩

end Requests

/-- What is found from an id on, up to the first id under which there is nothing or to the end of some ids;
and whether there was such an id. -/
inductive Walk {α : Type} (read : Nat → Except Stop α) : Nat → Nat → List α → Bool → Prop where
  | full (id : Nat) : Walk read 0 id [] false
  | ended {id : Nat} (left : Nat) : read id = .error .empty → Walk read (left + 1) id [] true
  | next {id left : Nat} {a : α} {found : List α} {ended : Bool} : read id = .ok a →
    Walk read left (id + 1) found ended → Walk read (left + 1) id (a :: found) ended

/-- A part can fail by itself where the chain tells a failure. -/
def Fails {α : Type} (read : Nat → Except Stop α) (stop : Stop) : Prop :=
  ∃ id, read id = .error stop ∧ stop ≠ .empty

/-- A walk from an id on that comes upon a failure before it comes to an end. -/
inductive Breaks {α : Type} (read : Nat → Except Stop α) : Nat → Nat → Stop → Prop where
  | here {id : Nat} {stop : Stop} (left : Nat) : read id = .error stop → stop ≠ .empty →
    Breaks read (left + 1) id stop
  | next {id left : Nat} {stop : Stop} {a : α} : read id = .ok a → Breaks read left (id + 1) stop →
    Breaks read (left + 1) id stop

theorem Breaks.fails {α : Type} {read : Nat → Except Stop α} {left id : Nat} {stop : Stop}
    (breaks : Breaks read left id stop) : Fails read stop := by
  induction breaks with
  | here _ failed other => exact ⟨_, failed, other⟩
  | next _ _ ih => exact ih

namespace EpochSync

section Workers

variable (chain : ChainAnswers) (c : ViewContract) (height : Nat) (known : DelegationCache)

/-- What the delegation with an id comes to. -/
def delegationAt (id : Nat) : Except Stop Delegation :=
  recalled chain c height (known.find? (.ofNat id)) (.ofNat id)

/-- The counts and stakes with one more delegation. -/
def addDelegation (summed : Nat × StakeByValidator) (d : Delegation) : Nat × StakeByValidator :=
  (summed.1 + 1, addStake summed.2 d)

/-- A batch that a worker has claimed, and how far it came. -/
structure Turn where
  batch : Nat
  found : List Delegation
  ended : Bool

namespace Turn

def Walks (read : Nat → Except Stop Delegation) (size : Nat) (turn : Turn) : Prop :=
  Walk read (batchLength size turn.batch) (batchStart size turn.batch) turn.found turn.ended

/-- What a worker leaves behind of what it found. -/
def stored (found : List Delegation) (ended : Bool) : List Mark :=
  found.map (fun d => .wrote (.saveDelegation d)) ++ if ended then [.ended] else []

def left (turn : Turn) : List Mark := .claimed turn.batch :: stored turn.found turn.ended

end Turn

variable {chain c height known}

theorem ends_batch (left id : Nat) (summed : Nat × StakeByValidator) :
    (batch c height left id summed).run.Obeys (partProtocol chain c height known)
      (Ends chain height
        (fun marks summed' => ∃ found ended,
          Walk (delegationAt chain c height known) left id found ended ∧
            marks = Turn.stored found ended ∧ summed' = found.foldl addDelegation summed)
        fun _ stop => Fails (delegationAt chain c height known) stop) := by
  induction left generalizing id summed with
  | zero => exact ends_pure ⟨[], false, .full id, rfl, rfl⟩
  | succ left ih =>
    rw [batch]
    refine ends_bind (ends_ifAny (comes_delegation _)) ?_ fun _ stop failed => ⟨id, failed⟩
    rintro _ found ⟨rfl, there⟩
    cases found with
    | none =>
      refine ends_ask trivial fun _ => ends_pure ⟨[], true, .ended left there, rfl, rfl⟩
    | some d =>
      refine ends_bind (ends_store _) ?_ fun _ _ => False.elim
      rintro _ _ rfl
      refine ends_mono (ih (id + 1) (addDelegation summed d)) ?_ fun _ _ failed => failed
      rintro marks _ ⟨found, ended, walk, rfl, rfl⟩
      exact ⟨d :: found, ended, .next there walk, rfl, rfl⟩

theorem ends_worker (size fuel : Nat) (summed : Nat × StakeByValidator) :
    (worker c height size fuel summed).run.Obeys (partProtocol chain c height known)
      (Ends chain height
        (fun marks summed' => ∃ turns : List Turn,
          (∀ turn ∈ turns, turn.Walks (delegationAt chain c height known) size) ∧
            marks = turns.flatMap Turn.left ++ [.sawEnd] ∧
            summed' = (turns.flatMap Turn.found).foldl addDelegation summed)
        fun marks stop => Fails (delegationAt chain c height known) stop ∨
          stop = .crashed ∧ fuel ≤ (marks.filterMap Mark.claimed?).length) := by
  induction fuel generalizing summed with
  | zero => exact ends_throw (.inr ⟨rfl, Nat.zero_le _⟩)
  | succ fuel ih =>
    rw [worker]
    refine ends_ask trivial fun exhausted => ?_
    cases exhausted with
    | true => exact ends_pure ⟨[], fun _ member => (nomatch member), rfl, rfl⟩
    | false =>
      refine ends_ask trivial fun n => ?_
      refine ends_bind (ends_batch _ _ _) ?_ fun _ _ => .inl
      rintro _ _ ⟨found, ended, walk, rfl, rfl⟩
      refine ends_mono (ih _) ?_ ?_
      · rintro marks _ ⟨turns, walks, rfl, rfl⟩
        refine ⟨⟨n, found, ended⟩ :: turns, List.forall_mem_cons.2 ⟨walk, walks⟩, ?_, ?_⟩
        · rw [List.flatMap_cons, List.append_assoc]
          rfl
        · rw [List.flatMap_cons, List.foldl_append]
      -- Each round leaves its claim, so a worker that has gone through all rounds has left as many claims.
      · rintro marks stop (failed | ⟨rfl, claims⟩)
        · exact .inl failed
        · refine .inr ⟨rfl, ?_⟩
          change fuel + 1 ≤ (n :: (Turn.stored found ended ++ marks).filterMap Mark.claimed?).length
          rw [List.filterMap_append, List.length_cons, List.length_append]
          omega

end Workers

section Enumerations

variable (chain : ChainAnswers) (c : ViewContract) (height : Nat)

/-- What the validator with an id comes to. -/
def validatorAt (id : Nat) : Except Stop Validator := told chain (c.validator (.ofNat id) height)

/-- What the node with an id comes to. -/
def nodeAt (id : Nat) : Except Stop Node := told chain (c.node (.ofNat id) height)

/-- The counts with one more node. -/
def addNode (counted : Nat × CountsByValidator) (n : Node) : Nat × CountsByValidator :=
  (counted.1 + 1, countNode counted.2 n)

theorem ofNat_toNat (id : Word) : Word.ofNat id.toNat = id :=
  Word.ext (Nat.mod_eq_of_lt id.toNat_lt)

/-- The ids that are left from some id on. -/
def idsFrom (id : Word) : Nat := allIds - id.toNat

theorem idsFrom_pos (id : Word) : 0 < idsFrom id := by
  have := id.toNat_lt
  unfold idsFrom allIds
  omega

theorem idsFrom_of_none {id : Word} (last : id.next? = none) : idsFrom id = 1 := by
  have := id.toNat_lt
  unfold Word.next? Word.ofNat? at last
  unfold idsFrom allIds
  split at last
  · cases last
  · omega

theorem idsFrom_of_some {id following : Word} (next : id.next? = some following) :
    following.toNat = id.toNat + 1 ∧ idsFrom id = idsFrom following + 1 := by
  have := following.toNat_lt
  have := toNat_next next
  unfold idsFrom allIds
  omega

variable {chain c height} {known : DelegationCache} {controller : ViewContract}

theorem ends_validators {fuel : Nat} {id : Word} (enough : idsFrom id ≤ fuel) :
    (Part.plain (validators c height fuel id)).run.Obeys (partProtocol chain controller height known)
      (Ends chain height
        (fun marks ids => ∃ found ended,
          Walk (validatorAt chain c height) (idsFrom id) id.toNat found ended ∧
            marks = found.map (fun v => .wrote (.saveValidator v)) ∧ ids = found.map (·.id))
        fun _ stop => Breaks (validatorAt chain c height) (idsFrom id) id.toNat stop) := by
  induction fuel generalizing id with
  | zero => exact absurd enough (Nat.not_le.2 (idsFrom_pos id))
  | succ fuel ih =>
    obtain ⟨left, some⟩ := Nat.exists_eq_add_one.2 (idsFrom_pos id)
    have at_ : told chain (c.validator id height) = validatorAt chain c height id.toNat := by
      rw [validatorAt, ofNat_toNat]
    rw [validators, Part.plain_bind]
    refine ends_bind (ends_ifAny (comes_steady (c.validator_steady chain height id))) ?_
      fun _ stop failed => some ▸ .here left (at_ ▸ failed.1) failed.2
    rintro _ found ⟨rfl, there⟩
    rw [at_] at there
    cases found with
    | none =>
      rw [some]
      exact ends_pure ⟨[], true, .ended _ there, rfl, rfl⟩
    | some v =>
      obtain ⟨mine, -⟩ := (c.validator_consults height id).told
        (congrArg Except.toOption (at_.trans there))
      dsimp only
      rw [Part.plain_bind]
      refine ends_bind (ends_store _) ?_ fun _ _ => False.elim
      rintro _ _ rfl
      -- After the greatest word there is no id to go on with.
      cases next : id.next? with
      | none =>
        rw [idsFrom_of_none next]
        exact ends_pure ⟨[v], false, .next there (.full _), rfl, by rw [← mine]; rfl⟩
      | some following =>
        obtain ⟨place, count⟩ := idsFrom_of_some next
        dsimp only
        rw [Part.plain_bind, count]
        refine ends_bind (ih (by omega)) ?_ fun _ _ breaks => .next there (place ▸ breaks)
        rintro _ _ ⟨found, ended, walk, rfl, rfl⟩
        rw [place] at walk
        refine ends_pure ⟨v :: found, ended, .next there walk, ?_, ?_⟩
        · rw [List.append_nil]
          rfl
        · rw [← mine]
          rfl

/-- The request that stores a node, with the moment of the synchronisation. -/
def storing (time : Instant) (n : Node) : StoreRequest := .saveNodes [{ n with eventTime := time }]

theorem ends_nodes {time : Instant} {fuel : Nat} {id : Word} (enough : idsFrom id ≤ fuel)
    (counted : Nat × CountsByValidator) :
    (Part.plain (nodes c height time fuel id counted)).run.Obeys
      (partProtocol chain controller height known) (Ends chain height
        (fun marks counted' => ∃ found ended,
          Walk (nodeAt chain c height) (idsFrom id) id.toNat found ended ∧
            marks = found.map (fun n => .wrote (storing time n)) ∧
            counted' = found.foldl addNode counted)
        fun _ stop => Breaks (nodeAt chain c height) (idsFrom id) id.toNat stop) := by
  induction fuel generalizing id counted with
  | zero => exact absurd enough (Nat.not_le.2 (idsFrom_pos id))
  | succ fuel ih =>
    obtain ⟨left, some⟩ := Nat.exists_eq_add_one.2 (idsFrom_pos id)
    have at_ : told chain (c.node id height) = nodeAt chain c height id.toNat := by
      rw [nodeAt, ofNat_toNat]
    rw [nodes, Part.plain_bind]
    refine ends_bind (ends_ifAny (comes_steady (c.node_steady chain height id))) ?_
      fun _ stop failed => some ▸ .here left (at_ ▸ failed.1) failed.2
    rintro _ found ⟨rfl, there⟩
    rw [at_] at there
    cases found with
    | none =>
      rw [some]
      exact ends_pure ⟨[], true, .ended _ there, rfl, rfl⟩
    | some n =>
      dsimp only
      rw [Part.plain_bind]
      refine ends_bind (ends_store _) ?_ fun _ _ => False.elim
      rintro _ _ rfl
      cases next : id.next? with
      | none =>
        rw [idsFrom_of_none next]
        exact ends_pure ⟨[n], false, .next there (.full _), rfl, rfl⟩
      | some following =>
        obtain ⟨place, count⟩ := idsFrom_of_some next
        rw [count]
        refine ends_mono (ih (by omega) (addNode counted n)) ?_ fun _ _ breaks =>
          .next there (place ▸ breaks)
        rintro _ _ ⟨found, ended, walk, rfl, rfl⟩
        rw [place] at walk
        exact ⟨n :: found, ended, .next there walk, rfl, rfl⟩

end Enumerations

end EpochSync

end StakeIndex
