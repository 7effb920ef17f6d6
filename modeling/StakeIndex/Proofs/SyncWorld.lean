import StakeIndex.Index.EpochWorkers
import StakeIndex.Proofs.Told

/-!
The world in which a synchronisation runs: the store, the delegations that are kept from one synchronisation
to the next, and the memory of its workers. As long as each delegation is kept as the chain tells of it,
reading one comes to the same whether or not it has been kept since.
-/
namespace StakeIndex

open Dialogue Job

/-- Delegations as they were read last, each under its id. -/
structure DelegationCache where
  rows : Table Word Delegation
  keyed : ∀ id d, rows.find? id = some d → d.id = id

namespace DelegationCache

/-- Nothing has been read. -/
def empty : DelegationCache := ⟨∅, fun _ _ none => (nomatch none)⟩

def find? (known : DelegationCache) (id : Word) : Option Delegation := known.rows.find? id

/-- The delegations with one that was read anew. -/
def remember (known : DelegationCache) (d : Delegation) : DelegationCache where
  rows := known.rows.insert d.id d
  keyed id e found := by
    rw [Table.find?_insert] at found
    split at found
    next same =>
      cases found
      exact same.symm
    next => exact known.keyed id e found

theorem find?_remember (known : DelegationCache) (d : Delegation) (id : Word) :
    (known.remember d).find? id = if id = d.id then some d else known.find? id :=
  Table.find?_insert ..

end DelegationCache

/-- The store with what was written so far, the delegations that are kept, and the memory of the workers. -/
structure SyncWorld where
  tables : Tables
  written : List StoreRequest
  known : DelegationCache
  claimed : Nat
  exhausted : Bool

namespace SyncWorld

/-- Before the parts of a synchronisation begin. -/
def start (t : Tables) (known : DelegationCache) : SyncWorld := ⟨t, [], known, 0, false⟩

def perform (w : SyncWorld) (r : StoreRequest) : SyncWorld :=
  { w with tables := (w.tables.perform r).2, written := w.written ++ [r] }

end SyncWorld

/-- The replies to parts of a synchronisation. The chain and the store may fail; the memory is as it was
left. -/
def Answers (chain : ChainAnswers) : (r : PartRequest) → SyncWorld → r.Answer → SyncWorld → Prop
  | .plain (.chain r), w, reply, w' => Replies chain r reply ∧ w' = w
  | .plain (.store r), w, reply, w' =>
    reply = .ok (w.tables.perform r).1 ∧ w' = w.perform r ∨ ∃ stop, reply = .error stop ∧ w' = w
  | .plain (.shared (.knownDelegation id)), w, reply, w' => reply = w.known.find? id ∧ w' = w
  | .plain (.shared (.rememberDelegation d)), w, _, w' => w' = { w with known := w.known.remember d }
  | .plain (.shared _), w, _, w' => w' = w
  | .claimBatch, w, reply, w' => reply = w.claimed ∧ w' = { w with claimed := w.claimed + 1 }
  | .isExhausted, w, reply, w' => reply = w.exhausted ∧ w' = w
  | .exhaust, w, _, w' => w' = { w with exhausted := true }

abbrev PartExchange := Exchange PartRequest.Answer

/-- The chain did not answer as it does, its head had passed the height, or the store refused a request. -/
def Faulty (chain : ChainAnswers) (height : Nat) : PartExchange → Prop
  | ⟨.plain (.chain r), reply⟩ => ¬ Undisturbed chain height r reply
  | ⟨.plain (.store _), reply⟩ => ∃ stop, reply = .error stop
  | _ => False

/-- The replies as long as nothing fails. -/
def Succeeds (chain : ChainAnswers) (height : Nat) (r : PartRequest) (w : SyncWorld) (reply : r.Answer)
    (w' : SyncWorld) : Prop :=
  Answers chain r w reply w' ∧ ¬ Faulty chain height ⟨r, reply⟩

/-- The world in which nothing fails. -/
def replying (chain : ChainAnswers) : (r : PartRequest) → SyncWorld → r.Answer × SyncWorld
  | .plain (.chain .head), w => (.ok 0, w)
  | .plain (.chain (.header height)), w => (chain (.header height), w)
  | .plain (.chain (.logs first last addresses)), w => (chain (.logs first last addresses), w)
  | .plain (.chain (.call block contract input)), w => (chain (.call block contract input), w)
  | .plain (.store r), w => (.ok (w.tables.perform r).1, w.perform r)
  | .plain (.shared .isCancelled), w => (false, w)
  | .plain (.shared .beginCatchUp), w => (none, w)
  | .plain (.shared (.reachedHeight _)), w => ((), w)
  | .plain (.shared .endCatchUp), w => ((), w)
  | .plain (.shared (.knownDelegation id)), w => (w.known.find? id, w)
  | .plain (.shared (.rememberDelegation d)), w => ((), { w with known := w.known.remember d })
  | .claimBatch, w => (w.claimed, { w with claimed := w.claimed + 1 })
  | .isExhausted, w => (w.exhausted, w)
  | .exhaust, w => ((), { w with exhausted := true })

theorem replying_succeeds (chain : ChainAnswers) (height : Nat) (r : PartRequest) (w : SyncWorld) :
    Succeeds chain height r w (replying chain r w).1 (replying chain r w).2 := by
  cases r with
  | plain r =>
    cases r with
    | chain r =>
      cases r with
      | head => exact ⟨⟨nofun, rfl⟩, fun moved => moved ⟨0, Nat.zero_le _, rfl⟩⟩
      | _ => exact ⟨⟨.inl rfl, rfl⟩, fun moved => moved rfl⟩
    | store r => exact ⟨.inl ⟨rfl, rfl⟩, fun ⟨_, wrong⟩ => (nomatch wrong)⟩
    | shared r => cases r <;> exact ⟨by first | rfl | exact ⟨rfl, rfl⟩, fun wrong => wrong⟩
  | claimBatch => exact ⟨⟨rfl, rfl⟩, fun wrong => wrong⟩
  | isExhausted => exact ⟨⟨rfl, rfl⟩, fun wrong => wrong⟩
  | exhaust => exact ⟨rfl, fun wrong => wrong⟩

section Reading

variable (chain : ChainAnswers) (c : ViewContract) (height : Nat)

/-- What a delegation comes to when it is kept as some delegation, or not at all. -/
def recalled (known : Option Delegation) (id : Word) : Except Stop Delegation := do
  let state ← told chain (c.delegationState id height)
  match known.filter (·.state == state) with
  | some d => return { d with height }
  | none =>
    let read ← told chain (c.delegationRecord id height)
    return { read with state, height }

theorem told_delegation (id : Word) : told chain (c.delegation id height) = do
    let read ← told chain (c.delegationRecord id height)
    let state ← told chain (c.delegationState id height)
    return { read with state } := by
  unfold ViewContract.delegation
  rw [(c.delegationRecord_steady chain height id).told_bind]
  refine congrArg _ (funext fun read => ?_)
  rw [(c.delegationState_steady chain height id).told_bind]
  rfl

variable {chain c height} {id : Word} {d : Delegation}

theorem told_place (told_ : told chain (c.delegation id height) = .ok d) : d.id = id ∧ d.height = height :=
  (c.delegation_consults height id).told (congrArg Except.toOption told_)

theorem recalled_of_state {state : DelegationState}
    (told_ : told chain (c.delegationState id height) = .ok state) (known : Option Delegation) :
    recalled chain c height known id = match known.filter (·.state == state) with
      | some d => .ok { d with height }
      | none => told chain (c.delegation id height) := by
  rw [recalled, told_delegation, told_]
  change (match known.filter (·.state == state) with
    | some d => _
    | none => _ : Except Stop Delegation) = _
  cases known.filter (·.state == state) with
  | some d => rfl
  | none =>
    cases record : told chain (c.delegationRecord id height) with
    | error stop => rfl
    | ok read =>
      obtain ⟨-, rfl⟩ := (c.delegationRecord_consults height id).told (congrArg Except.toOption record)
      rfl

theorem recalled_of_fault {stop : Stop}
    (told_ : told chain (c.delegationState id height) = .error stop) (known : Option Delegation) :
    recalled chain c height known id = .error stop := by
  rw [recalled, told_]
  rfl

theorem told_state (told_ : told chain (c.delegation id height) = .ok d) :
    told chain (c.delegationState id height) = .ok d.state := by
  rw [told_delegation] at told_
  cases record : told chain (c.delegationRecord id height) with
  | error stop =>
    rw [record] at told_
    cases told_
  | ok read =>
    cases state : told chain (c.delegationState id height) with
    | error stop =>
      rw [record, state] at told_
      cases told_
    | ok s =>
      rw [record, state] at told_
      cases told_
      rfl

/-- What comes out is what is kept, if the chain tells the same stage of it, and else what the chain
tells. -/
theorem recalled_ok {known : Option Delegation} (comes : recalled chain c height known id = .ok d) :
    told chain (c.delegationState id height) = .ok d.state ∧
      ((∃ k, known = some k ∧ d = { k with height }) ∨ told chain (c.delegation id height) = .ok d) := by
  cases state : told chain (c.delegationState id height) with
  | error stop =>
    rw [recalled_of_fault state] at comes
    cases comes
  | ok s =>
    rw [recalled_of_state state] at comes
    split at comes
    next k kept =>
      obtain ⟨kept, same⟩ := Option.filter_eq_some_iff.1 kept
      cases comes
      exact ⟨congrArg _ (eq_of_beq same).symm, .inl ⟨k, kept, rfl⟩⟩
    next =>
      exact ⟨state.symm.trans (told_state comes), .inr comes⟩

theorem recalled_place {known : DelegationCache}
    (comes : recalled chain c height (known.find? id) id = .ok d) : d.id = id ∧ d.height = height := by
  obtain ⟨-, ⟨k, kept, rfl⟩ | told_⟩ := recalled_ok comes
  · exact ⟨known.keyed id k kept, rfl⟩
  · exact told_place told_

/-- What the chain tells comes out whether or not it is kept. -/
theorem recalled_self (told_ : told chain (c.delegation id height) = .ok d) :
    recalled chain c height (some d) id = .ok d ∧ recalled chain c height none id = .ok d := by
  obtain ⟨-, rfl⟩ := told_place told_
  have state := told_state told_
  constructor
  · rw [recalled_of_state state, Option.filter_some, if_pos (beq_self_eq_true _)]
  · rw [recalled_of_state state]
    exact told_

end Reading

section Rules

variable (chain : ChainAnswers) (c : ViewContract) (height : Nat) (known : DelegationCache)

/-- The parts of a synchronisation keep a delegation only as the chain tells of it, and may rely on it that
delegations come to what they came to at the start. -/
def partProtocol : Protocol PartRequest.Answer where
  asks
    | .plain (.shared (.rememberDelegation d)) =>
      told chain (c.delegation d.id height) = .ok d ∧
        recalled chain c height (known.find? d.id) d.id = .ok d
    | _ => True
  replies
    | .plain (.chain r), reply => Replies chain r reply
    | .plain (.shared (.knownDelegation id)), kept =>
      recalled chain c height kept id = recalled chain c height (known.find? id) id
    | _, _ => True

/-- Each delegation comes to what it came to at the start, and is kept as it was then or as the chain tells
of it. -/
structure Faithful (w : SyncWorld) : Prop where
  comes : ∀ id, recalled chain c height (w.known.find? id) id =
    recalled chain c height (known.find? id) id
  kept : ∀ id d, w.known.find? id = some d →
    known.find? id = some d ∨ told chain (c.delegation id height) = .ok d

theorem faithful_start (t : Tables) : Faithful chain c height known (.start t known) :=
  ⟨fun _ => rfl, fun _ _ => .inl⟩

variable {chain c height known}

theorem Faithful.remember {w : SyncWorld} {d : Delegation} (faithful : Faithful chain c height known w)
    (told_ : told chain (c.delegation d.id height) = .ok d)
    (comes : recalled chain c height (known.find? d.id) d.id = .ok d) :
    Faithful chain c height known { w with known := w.known.remember d } := by
  constructor
  · intro id
    rw [DelegationCache.find?_remember]
    split
    next same =>
      rw [same, comes]
      exact (recalled_self told_).1
    next => exact faithful.comes id
  · intro id e found
    rw [DelegationCache.find?_remember] at found
    split at found
    next same =>
      cases found
      exact .inr (same ▸ told_)
    next => exact faithful.kept id e found

theorem answers_serves : Serves (Answers chain) (Faithful chain c height known)
    (partProtocol chain c height known) := by
  intro r w reply w' faithful may answered
  cases r with
  | plain r =>
    cases r with
    | chain r =>
      obtain ⟨replied, rfl⟩ := answered
      exact ⟨replied, faithful⟩
    | store r =>
      refine ⟨trivial, ?_⟩
      obtain ⟨-, rfl⟩ | ⟨stop, -, rfl⟩ := answered
      · exact ⟨faithful.comes, faithful.kept⟩
      · exact faithful
    | shared r =>
      cases r with
      | knownDelegation id =>
        obtain ⟨rfl, rfl⟩ := answered
        exact ⟨faithful.comes id, faithful⟩
      | rememberDelegation d =>
        cases answered
        exact ⟨trivial, faithful.remember may.1 may.2⟩
      | _ =>
        cases answered
        exact ⟨trivial, faithful⟩
  | claimBatch =>
    obtain ⟨-, rfl⟩ := answered
    exact ⟨trivial, faithful.comes, faithful.kept⟩
  | isExhausted =>
    obtain ⟨-, rfl⟩ := answered
    exact ⟨trivial, faithful⟩
  | exhaust =>
    cases answered
    exact ⟨trivial, faithful.comes, faithful.kept⟩

end Rules

section Marks

/-- What an exchange leaves behind, other than delegations that are kept, or shows of it. -/
inductive Mark where
  | claimed (n : Nat)
  | wrote (r : StoreRequest)
  | ended
  | sawEnd

def mark? : PartExchange → Option Mark
  | ⟨.claimBatch, n⟩ => some (.claimed n)
  | ⟨.plain (.store r), .ok _⟩ => some (.wrote r)
  | ⟨.exhaust, _⟩ => some .ended
  | ⟨.isExhausted, true⟩ => some .sawEnd
  | _ => none

/-- What exchanges leave behind, one after another. -/
def marks (past : List PartExchange) : List Mark := past.filterMap mark?

@[simp] theorem marks_append (past later : List PartExchange) :
    marks (past ++ later) = marks past ++ marks later := List.filterMap_append

namespace Mark

def claimed? : Mark → Option Nat
  | claimed n => some n
  | _ => none

def wrote? : Mark → Option StoreRequest
  | wrote r => some r
  | _ => none

end Mark

/-- How the memory and the store change with what is left behind. -/
structure Leaves (w : SyncWorld) (left : List Mark) (w' : SyncWorld) : Prop where
  grows : w.claimed ≤ w'.claimed
  claimed : left.filterMap Mark.claimed? = List.range' w.claimed (w'.claimed - w.claimed)
  written : w'.written = w.written ++ left.filterMap Mark.wrote?
  tables : w'.tables = w.tables.performAll (left.filterMap Mark.wrote?)
  exhausted : w'.exhausted = true ↔ w.exhausted = true ∨ .ended ∈ left
  saw : .sawEnd ∈ left → w.exhausted = true ∨ .ended ∈ left

theorem unclaimed (w : SyncWorld) : [] = List.range' w.claimed (w.claimed - w.claimed) := by
  rw [Nat.sub_self]
  rfl

theorem leaves_nothing {w w' : SyncWorld} (tables : w'.tables = w.tables)
    (written : w'.written = w.written) (claimed : w'.claimed = w.claimed)
    (exhausted : w'.exhausted = w.exhausted) : Leaves w [] w' where
  grows := claimed.ge
  claimed := claimed ▸ unclaimed w
  written := by rw [written]; simp
  tables := tables
  exhausted := by simp [exhausted]
  saw wrong := nomatch wrong

theorem Leaves.append {w w' w'' : SyncWorld} {left left' : List Mark} (first : Leaves w left w')
    (second : Leaves w' left' w'') : Leaves w (left ++ left') w'' where
  grows := first.grows.trans second.grows
  claimed := by
    have before := first.grows
    have after := second.grows
    have joined := @List.range'_append w.claimed (w'.claimed - w.claimed) (w''.claimed - w'.claimed) 1
    rw [List.filterMap_append, first.claimed, second.claimed]
    grind
  written := by rw [List.filterMap_append, second.written, first.written, List.append_assoc]
  tables := by rw [List.filterMap_append, second.tables, first.tables, Tables.performAll_append]
  exhausted := by rw [second.exhausted, first.exhausted, List.mem_append, or_assoc]
  saw seen := by
    rw [List.mem_append, ← or_assoc, ← first.exhausted]
    rcases List.mem_append.1 seen with seen | seen
    · exact .inl (first.exhausted.2 (first.saw seen))
    · exact second.saw seen

theorem Leaves.claimed_eq {w w' : SyncWorld} {left : List Mark} (leaves : Leaves w left w')
    (none : left.filterMap Mark.claimed? = []) : w'.claimed = w.claimed := by
  have lengths := congrArg List.length (leaves.claimed.symm.trans none)
  have grows := leaves.grows
  rw [List.length_nil, List.length_range'] at lengths
  omega

theorem answers_leaves {chain : ChainAnswers} {r : PartRequest} {w w' : SyncWorld} {reply : r.Answer}
    (answered : Answers chain r w reply w') : Leaves w (marks [⟨r, reply⟩]) w' := by
  cases r with
  | plain r =>
    cases r with
    | chain r =>
      obtain ⟨-, rfl⟩ := answered
      exact leaves_nothing rfl rfl rfl rfl
    | store r =>
      obtain ⟨rfl, rfl⟩ | ⟨stop, rfl, rfl⟩ := answered
      · exact ⟨Nat.le_refl _, unclaimed w, rfl, rfl, by simp [marks, mark?, SyncWorld.perform],
          by simp [marks, mark?]⟩
      · exact leaves_nothing rfl rfl rfl rfl
    | shared r =>
      cases r with
      | knownDelegation id =>
        obtain ⟨-, rfl⟩ := answered
        exact leaves_nothing rfl rfl rfl rfl
      | _ =>
        cases answered
        exact leaves_nothing rfl rfl rfl rfl
  | claimBatch =>
    obtain ⟨rfl, rfl⟩ := answered
    refine ⟨Nat.le_succ _, ?_, (List.append_nil _).symm, rfl, by simp [marks, mark?], by simp [marks, mark?]⟩
    change [w.claimed] = _
    rw [Nat.add_sub_cancel_left]
    rfl
  | isExhausted =>
    obtain ⟨rfl, rfl⟩ := answered
    cases seen : w'.exhausted with
    | false => exact leaves_nothing rfl rfl rfl rfl
    | true =>
      exact ⟨Nat.le_refl _, unclaimed w', (List.append_nil _).symm, rfl, by simp [marks, mark?, seen],
        fun _ => .inl seen⟩
  | exhaust =>
    cases answered
    have mine : .ended ∈ [Mark.ended] := List.mem_singleton_self _
    exact ⟨Nat.le_refl _, unclaimed w, (List.append_nil _).symm, rfl, by simp [marks, mark?],
      fun _ => .inr mine⟩

/-- Exchanges leave behind what each of them does. -/
theorem leaves_along {allows : (r : PartRequest) → SyncWorld → r.Answer → SyncWorld → Prop}
    (leaves : ∀ {r w reply w'}, allows r w reply w' → Leaves w (marks [⟨r, reply⟩]) w') {w w' : SyncWorld}
    {past : List PartExchange} (along : Along allows w past w') : Leaves w (marks past) w' := by
  induction along with
  | nil w => exact leaves_nothing rfl rfl rfl rfl
  | @cons r reply _ _ _ later answered _ ih =>
    have both := (leaves answered).append ih
    rwa [← marks_append, List.singleton_append] at both

theorem along_leaves {chain : ChainAnswers} {w w' : SyncWorld} {past : List PartExchange}
    (along : Along (Answers chain) w past w') : Leaves w (marks past) w' := leaves_along answers_leaves along

end Marks

end StakeIndex
