import StakeIndex.Proofs.Block
import StakeIndex.Proofs.HeightFrame

/-!
The history of a validator's fee and of the least delegation it takes. Each handling of a log about the
validator compares the new snapshot with the latest one below it that is stored by then, and a snapshot that
comes later in between does not change what was recorded above it. So what is recorded is the history exactly
if every handling found below it the amount that stands there in the end.
-/
namespace StakeIndex

open Job Tables

/-- The parameters of a validator of which changes are recorded. -/
inductive Parameter where
  | fee
  | minimumDelegation
deriving DecidableEq

/-- A recorded change of a parameter of a validator. -/
structure ParameterChange where
  validatorId : Word
  height : Nat
  before : Word
  after : Word
  change : Decimal
deriving DecidableEq

/-- The change that an event of the system tells of. -/
def SystemEvent.parameterChange (e : SystemEvent) : ParameterChange :=
  ⟨e.senderId, e.height, e.before, e.after, e.change⟩

/-- The last snapshot of a history below a height. -/
def lastBelow? (history : List (Nat × Validator)) (height : Nat) : Option (Nat × Validator) :=
  (history.filter (·.1 < height)).getLast?

/-- A snapshot without its counters. -/
def bareAt (snapshot : Nat × Validator) : Nat × Validator := (snapshot.1, snapshot.2.bare)

namespace Parameter

/-- The events that changes of a parameter are recorded as. -/
def kind : Parameter → SystemEventKind
  | fee => .feeChange
  | minimumDelegation => .minimumDelegationChange

def amount (p : Parameter) (v : Validator) : Word :=
  match p with
  | fee => v.feeRate
  | minimumDelegation => v.minimumDelegation

/-- The change from an amount to that of a snapshot, if the two differ. -/
def changeFrom? (p : Parameter) (id before : Word) (now : Nat × Validator) : Option ParameterChange :=
  if before = p.amount now.2 then none
  else some ⟨id, now.1, before, p.amount now.2, .difference before (p.amount now.2)⟩

/-- The changes between each two snapshots of a history that follow one another. -/
def changesAlong (p : Parameter) (id : Word) (history : List (Nat × Validator)) : List ParameterChange :=
  (history.zip history.tail).filterMap fun (older, newer) => p.changeFrom? id (p.amount older.2) newer

/-- The amount in the last snapshot below another one; the amount of that one itself, if there is none. -/
def before (p : Parameter) (history : List (Nat × Validator)) (now : Nat × Validator) : Word :=
  p.amount ((lastBelow? history now.1).getD now).2

end Parameter

namespace Tables

/-- The snapshots of a validator with their heights, in the order of these. -/
def historyIn (rows : Table (Word × Nat) Validator) (id : Word) : List (Nat × Validator) :=
  (rows.entries.filter (·.1.1 == id)).map fun e => (e.1.2, e.2)

def history (t : Tables) (id : Word) : List (Nat × Validator) := historyIn t.validators id

/-- The changes of a parameter that are recorded. -/
def changes (t : Tables) (p : Parameter) : List ParameterChange :=
  (t.systemEvents.filter (·.kind = p.kind)).map (·.parameterChange)

/-- What is recorded of a parameter is one change for each two snapshots of the validator that follow one
another and differ in it, and nothing else. -/
def RecordsHistory (t : Tables) (id : Word) (p : Parameter) : Prop :=
  (t.changes p).Perm (p.changesAlong id (t.history id))

instance (t : Tables) (id : Word) (p : Parameter) : Decidable (t.RecordsHistory id p) :=
  inferInstanceAs (Decidable (List.Perm _ _))

end Tables

section Histories

variable {p : Parameter} {id : Word} {history history' : List (Nat × Validator)} {now : Nat × Validator}

theorem lastBelow?_of_le {height : Nat} (above : ∀ later ∈ history, height ≤ later.1) :
    lastBelow? history height = none := by
  rw [lastBelow?, List.filter_eq_nil_iff.2 fun later member => ?_, List.getLast?_nil]
  simpa using above later member

theorem lastBelow?_cons_of_le {height : Nat} (above : height ≤ now.1) :
    lastBelow? (now :: history) height = lastBelow? history height :=
  congrArg List.getLast? (List.filter_cons_of_neg (by simpa using above))

theorem lastBelow?_cons_of_lt {height : Nat} (below : now.1 < height) :
    lastBelow? (now :: history) height = some ((lastBelow? history height).getD now) := by
  have kept : (now :: history).filter (·.1 < height) = now :: history.filter (·.1 < height) :=
    List.filter_cons_of_pos (by simpa using below)
  rw [lastBelow?, kept, List.getLast?_cons, lastBelow?]

theorem lastBelow?_map_bare (history : List (Nat × Validator)) (height : Nat) :
    lastBelow? (history.map bareAt) height = (lastBelow? history height).map bareAt := by
  unfold lastBelow?
  rw [List.filter_map, List.getLast?_map]
  rfl

namespace Parameter

theorem amount_bare (p : Parameter) (v : Validator) : p.amount v.bare = p.amount v := by
  cases p <;> rfl

theorem changeFrom?_same (id : Word) (now : Nat × Validator) :
    p.changeFrom? id (p.amount now.2) now = none := if_pos rfl

theorem changeFrom?_inj {before before' : Word} :
    p.changeFrom? id before now = p.changeFrom? id before' now ↔ before = before' := by
  refine ⟨fun same => ?_, fun same => same ▸ rfl⟩
  unfold changeFrom? at same
  split at same <;> split at same
  next first second => exact first.trans second.symm
  next => cases same
  next => cases same
  next => exact congrArg (·.before) (Option.some.inj same)

theorem height_changeFrom? {before : Word} {c : ParameterChange}
    (changed : c ∈ p.changeFrom? id before now) : c.height = now.1 := by
  unfold changeFrom? at changed
  split at changed
  · cases changed
  · exact Option.some.inj changed ▸ rfl

theorem changesAlong_cons_cons (p : Parameter) (id : Word) (older newer : Nat × Validator)
    (rest : List (Nat × Validator)) : p.changesAlong id (older :: newer :: rest) =
      (p.changeFrom? id (p.amount older.2) newer).toList ++ p.changesAlong id (newer :: rest) := by
  simp only [changesAlong, List.tail_cons, List.zip_cons_cons, List.filterMap_cons]
  cases p.changeFrom? id (p.amount older.2) newer <;> rfl

theorem mem_changesAlong {c : ParameterChange} (member : c ∈ p.changesAlong id history) :
    ∃ newer ∈ history.tail, c.height = newer.1 := by
  obtain ⟨⟨older, newer⟩, pair, changed⟩ := List.mem_filterMap.1 member
  exact ⟨newer, (List.of_mem_zip pair).2, height_changeFrom? changed⟩

theorem filter_changeFrom? (before : Word) (height : Nat) :
    (p.changeFrom? id before now).toList.filter (·.height = height) =
      if now.1 = height then (p.changeFrom? id before now).toList else [] := by
  cases changed : p.changeFrom? id before now with
  | none => split <;> rfl
  | some c =>
    have place : c.height = now.1 := height_changeFrom? changed
    simp [List.filter_cons, place]

/-- No change leads to the first of some snapshots. -/
theorem changesAlong_first {first : Nat × Validator} {rest : List (Nat × Validator)}
    (above : ∀ later ∈ rest, first.1 < later.1) :
    (p.changesAlong id (first :: rest)).filter (·.height = first.1) = [] := by
  refine List.filter_eq_nil_iff.2 fun c changed => ?_
  obtain ⟨newer, later, place⟩ := mem_changesAlong changed
  have := above newer later
  simp only [place, decide_eq_true_eq]
  omega

/-- At the height of a snapshot a history has the change from the last snapshot below it. -/
theorem changesAlong_at (p : Parameter) (id : Word) (sorted : history.Pairwise (·.1 < ·.1)) (member : now ∈ history) :
    (p.changesAlong id history).filter (·.height = now.1) =
      (p.changeFrom? id (p.before history now) now).toList := by
  induction history with
  | nil => cases member
  | cons first rest ih =>
    obtain ⟨above, tail⟩ := List.pairwise_cons.1 sorted
    obtain rfl | member := List.mem_cons.1 member
    · rw [changesAlong_first above, before, lastBelow?_cons_of_le (Nat.le_refl _),
        lastBelow?_of_le fun later among => (above later among).le]
      exact (congrArg Option.toList (changeFrom?_same id now)).symm
    cases rest with
    | nil => cases member
    | cons second rest =>
      obtain ⟨above', -⟩ := List.pairwise_cons.1 tail
      rw [changesAlong_cons_cons, List.filter_append, filter_changeFrom?]
      obtain rfl | later := List.mem_cons.1 member
      · rw [if_pos rfl, changesAlong_first above', List.append_nil, before,
          lastBelow?_cons_of_lt (above now member), lastBelow?_cons_of_le (Nat.le_refl _),
          lastBelow?_of_le fun later among => (above' later among).le]
        rfl
      · have between := above' now later
        rw [if_neg (by omega), List.nil_append, ih tail member, before, before,
          lastBelow?_cons_of_lt (above now member), lastBelow?_cons_of_lt between]
        cases lastBelow? rest now.1 <;> rfl

theorem changeFrom?_bare (p : Parameter) (id before : Word) (now : Nat × Validator) :
    p.changeFrom? id before (bareAt now) = p.changeFrom? id before now := by
  unfold changeFrom? bareAt
  rw [amount_bare]

theorem before_bare (p : Parameter) (history : List (Nat × Validator)) (now : Nat × Validator) :
    p.before history (bareAt now) = p.before history now := by
  unfold before bareAt
  cases lastBelow? history now.1 with
  | none => exact p.amount_bare now.2
  | some found => rfl

theorem before_map_bare (p : Parameter) (history : List (Nat × Validator)) (now : Nat × Validator) :
    p.before (history.map bareAt) now = p.before history now := by
  unfold before
  rw [lastBelow?_map_bare]
  cases lastBelow? history now.1 with
  | none => rfl
  | some found => exact p.amount_bare found.2

end Parameter
end Histories

section Rows

variable {rows : Table (Word × Nat) Validator} {id : Word} {t : Tables}

namespace Tables

theorem mem_historyIn {height : Nat} {v : Validator} :
    (height, v) ∈ historyIn rows id ↔ rows.find? (id, height) = some v := by
  rw [Table.find?_eq_some_iff, historyIn, List.mem_map]
  constructor
  · rintro ⟨⟨⟨other, k⟩, row⟩, member, same⟩
    obtain ⟨among, mine⟩ := List.mem_filter.1 member
    obtain rfl : other = id := eq_of_beq mine
    cases same
    exact among
  · intro among
    exact ⟨_, List.mem_filter.2 ⟨among, beq_self_eq_true id⟩, rfl⟩

theorem historyIn_sorted (rows : Table (Word × Nat) Validator) (id : Word) :
    (historyIn rows id).Pairwise (·.1 < ·.1) := by
  refine List.pairwise_map.2 ((rows.sorted.filter _).imp_of_mem fun {a b} member member' order => ?_)
  obtain ⟨⟨other, height⟩, v⟩ := a
  obtain ⟨⟨other', height'⟩, v'⟩ := b
  obtain rfl : other = id := eq_of_beq (List.mem_filter.1 member).2
  obtain rfl : other' = other := eq_of_beq (List.mem_filter.1 member').2
  exact (Table.compare_heights ..).1 order

theorem historyIn_map_bare (rows : Table (Word × Nat) Validator) (id : Word) :
    historyIn (rows.map fun _ => Validator.bare) id = (historyIn rows id).map bareAt := by
  unfold historyIn
  simp only [Table.map, List.filter_map, List.map_map]
  rfl

theorem historyIn_filter (rows : Table (Word × Nat) Validator) (id : Word) (keep : Nat → Bool) :
    historyIn (rows.filter fun key _ => keep key.2) id =
      (historyIn rows id).filter fun snapshot => keep snapshot.1 := by
  unfold historyIn
  simp only [Table.filter, List.filter_map, List.filter_filter]
  exact congrArg _ (List.filter_congr fun _ _ => Bool.and_comm ..)

theorem lastOfEach_of_one {κ α : Type} [DecidableEq κ] (subject : κ) {entries : List ((κ × Nat) × α)}
    (mine : ∀ e ∈ entries, e.1.1 = subject) :
    lastOfEach entries = (entries.getLast?.map (·.2)).toList := by
  induction entries using lastOfEach.induct with
  | case1 => rfl
  | case2 e => rfl
  | case3 e next rest same ih =>
    rw [lastOfEach, if_pos same, ih fun e member => mine e (List.mem_cons_of_mem _ member),
      List.getLast?_cons_cons]
  | case4 e next rest changed =>
    have first := mine e List.mem_cons_self
    have second := mine next (List.mem_cons_of_mem _ List.mem_cons_self)
    exact absurd (first.trans second.symm) changed

/-- A question about a validator before a height is answered with the last snapshot below it. -/
theorem olderValidators_eq (mine : ∀ key v, t.validators.find? key = some v → v.id = key.1) (id : Word)
    (height : Nat) :
    t.olderValidators id height = ((lastBelow? (t.history id) height).map (·.2)).toList := by
  set lower := t.validators.below height with kept
  have chosen : t.olderValidators id height = lastOfEach (lower.entries.filter (·.1.1 == id)) := by
    change List.filter _ (lastOfEach lower.entries) = _
    rw [Table.lastOfEach_filter (· == id) lower.sorted fun e member => ?_]
    have own : e.2.id = e.1.1 :=
      mine e.1 e.2 (Table.find?_eq_some_iff.2 (List.mem_filter.1 member).1)
    simp [ValidatorQuery.admits, own]
  have history : historyIn lower id = (t.history id).filter (·.1 < height) :=
    historyIn_filter t.validators id (· < height)
  rw [chosen, lastOfEach_of_one id fun e member =>
    eq_of_beq (List.mem_filter.1 member).2, lastBelow?, ← history, historyIn, List.getLast?_map,
    Option.map_map]
  rfl

end Tables

end Rows

section Events

variable {p : Parameter} {height : Nat} {t t' : Tables}

/-- Whether an event of the system tells of a parameter at a height. -/
def Parameter.concerns (p : Parameter) (height : Nat) (e : SystemEvent) : Bool :=
  e.kind == p.kind && e.height == height

/-- The event that tells of a change since the first of some older snapshots, if there is one. -/
def Parameter.event? (p : Parameter) (older : List Validator) (v : Validator) (e : ContractEvent) :
    Option SystemEvent :=
  older.head?.bind fun previous =>
    if p.amount previous = p.amount v then none
    else some (((SystemEvent.start e.height e.time p.kind).sentBy v.id v.address).between
      (p.amount previous) (p.amount v))

def Tables.changesAt (t : Tables) (p : Parameter) (height : Nat) : List SystemEvent :=
  t.systemEvents.filter (p.concerns height)

theorem Parameter.change_event? (p : Parameter) (older : List Validator) (v : Validator)
    (e : ContractEvent) : (p.event? older v e).map (·.parameterChange) =
      p.changeFrom? v.id (p.amount (older.head?.getD v)) (e.height, v) := by
  cases older with
  | nil => exact (p.changeFrom?_same v.id (e.height, v)).symm
  | cons previous rest =>
    simp only [event?, changeFrom?, List.head?_cons, Option.bind_some, Option.getD_some]
    rw [apply_ite (Option.map SystemEvent.parameterChange)]
    rfl

theorem changesSince_concerns (p : Parameter) (older : List Validator) (v : Validator)
    (e : ContractEvent) :
    (v.changesSince older e).filter (p.concerns e.height) = (p.event? older v e).toList := by
  cases older with
  | nil => rfl
  | cons previous rest =>
    by_cases fee : previous.feeRate = v.feeRate <;>
      by_cases least : previous.minimumDelegation = v.minimumDelegation <;>
      cases p <;> simp [Validator.changesSince, Validator.parameterChanges, Parameter.event?,
        Parameter.amount, Parameter.concerns, Parameter.kind, SystemEvent.start, SystemEvent.sentBy,
        SystemEvent.between, fee, least]

namespace Tables

theorem systemEvents_perform (r : StoreRequest) (t : Tables) : (t.perform r).2.systemEvents =
    (r.systemEvent?.map fun e => putSystemEvent e t.systemEvents).getD t.systemEvents := by
  cases r with
  | saveContractEvent e => exact saveContractEvent_frame systemEvents (fun _ _ _ => rfl) e t
  | updateCounts id =>
    change (t.updateCounts id).systemEvents = t.systemEvents
    rw [updateCounts_eq]
  | calculate figure at_ => exact calculate_frame systemEvents (fun _ _ _ => rfl) figure at_ t
  | saveValidatorSnapshots snapshots k time =>
    exact saveSnapshots_frame systemEvents (fun _ _ _ => rfl) snapshots k time t
  | _ => rfl

theorem changesAt_perform (p : Parameter) (height : Nat) (r : StoreRequest) (t : Tables) :
    (t.perform r).2.changesAt p height =
      ((r.systemEvent?.filter (p.concerns height)).map fun e =>
        putSystemEvent e (t.changesAt p height)).getD (t.changesAt p height) := by
  rw [changesAt, systemEvents_perform]
  cases told : r.systemEvent? with
  | none => rfl
  | some e =>
    have same (a b : SystemEvent) (same : subject a = subject b) :
        p.concerns height a = p.concerns height b := by
      have kinds : a.kind = b.kind := congrArg (·.1.2) same
      have heights : a.height = b.height := congrArg (·.1.1) same
      rw [Parameter.concerns, kinds, heights, Parameter.concerns]
    change (putSystemEvent e t.systemEvents).filter (p.concerns height) = _
    rw [filter_putSystemEvent same]
    cases concerned : p.concerns height e <;> simp [Option.filter, concerned, changesAt]

/-- Where nothing was told of a parameter at a height, the one event that tells of it is there then. -/
theorem changesAt_performAll {requests : List StoreRequest} {told : Option SystemEvent}
    (nothing : t.changesAt p height = [])
    (one : requests.filterMap (fun r => r.systemEvent?.filter (p.concerns height)) = told.toList) :
    (t.performAll requests).changesAt p height = told.toList := by
  have puts : (t.performAll requests).changesAt p height =
      (requests.filterMap fun r => r.systemEvent?.filter (p.concerns height)).foldl
        (fun events e => putSystemEvent e events) (t.changesAt p height) :=
    @look_performAll requests _ _ (·.changesAt p height) _ _
      (fun r _ t => changesAt_perform p height r t) t
  rw [puts, one, nothing]
  cases told <;> rfl

/-- What is told at one height is kept by what stays at another. -/
theorem RowsKept.changesAt {other : Nat} (kept : RowsKept other t t') (away : height ≠ other) :
    t'.changesAt p height = t.changesAt p height := by
  have chosen (t : Tables) : (t.systemEvents.filter (·.height ≠ other)).filter (p.concerns height) =
      t.changesAt p height := by
    rw [List.filter_filter]
    refine List.filter_congr fun e _ => ?_
    by_cases at_ : e.height = height
    · simp [Parameter.concerns, at_, away]
    · simp [Parameter.concerns, at_]
  rw [← chosen t', kept.systemEvents, chosen t]

end Tables

end Events

section Handling

variable {chain : ChainAnswers} {context : Context} {binding : Binding} {c : ViewContract} {id : Word}
  {log : RawLog} {logs : List RawLog} {heights : List Nat} {height : Nat} {t t' : Tables}

/-- A log that the handling of validators follows, about one of them. -/
def FollowsValidator (context : Context) (id : Word) (log : RawLog) : Prop :=
  ∃ decoded parsed, DecodedLog.ofLog context.registry log = .ok decoded ∧
    ValidatorEvent.read? decoded = .ok (some parsed) ∧ parsed.validatorId = id

/-- What a log about a validator leaves: the snapshot that the chain tells of, and the changes since the
last snapshot below it. -/
structure Observes (chain : ChainAnswers) (c : ViewContract) (id : Word) (height : Nat) (v : Validator)
    (t t' : Tables) : Prop where
  told : told? chain (c.validator id height) = some v
  rows : (t'.validators.map fun _ => Validator.bare) =
    (t.validators.map fun _ => Validator.bare).insert (id, height) v
  changes : ∀ p : Parameter, t.changesAt p height = [] →
    (t'.changesAt p height).map (·.parameterChange) =
      (p.changeFrom? id (p.amount ((t.olderValidators id height).head?.getD v)) (height, v)).toList
  kept : RowsKept height t t'

theorem validator_told {v : Validator}
    (told : told? chain (c.validator id height) = some v) : v.id = id ∧ v.height = height ∧ v.bare = v := by
  obtain ⟨mine, place, zero⟩ := (c.validator_consults height id).told told
  refine ⟨mine, place, Validator.eq_of_bare rfl fun figure => ?_⟩
  rw [zero figure]
  cases figure <;> rfl

/-- What the writes about an event of a validator tell of a parameter. -/
theorem writes_concern (p : Parameter) (parsed : ValidatorEvent) (nodes : List Node) (v : Validator)
    (e outcome : ContractEvent) (older : List Validator) :
    (parsed.writes nodes v e older ++ [StoreRequest.saveContractEvent outcome]).filterMap
        (fun r => r.systemEvent?.filter (p.concerns e.height)) = (p.event? older v e).toList := by
  have followed : (parsed.follows nodes v e).filterMap
      (fun r => r.systemEvent?.filter (p.concerns e.height)) = [] := by
    refine List.filterMap_eq_nil_iff.2 fun r member => ?_
    obtain ⟨nodes, rfl⟩ | ⟨f, rfl⟩ | ⟨a, rfl⟩ | ⟨told, rfl, active⟩ := mem_follows e member
    · rfl
    · rfl
    · rfl
    · refine Option.filter_eq_none_iff.2 fun e' same => ?_
      obtain rfl : told = e' := Option.some.inj same
      rcases active with kind | kind <;> cases p <;> simp [Parameter.concerns, kind, Parameter.kind]
  have changed : ((v.changesSince older e).map StoreRequest.saveSystemEvent).filterMap
      (fun r => r.systemEvent?.filter (p.concerns e.height)) = (p.event? older v e).toList := by
    rw [List.filterMap_map, ← changesSince_concerns, ← List.filterMap_eq_filter]
    rfl
  rw [ValidatorEvent.writes, List.cons_append, List.cons_append, List.append_assoc,
    List.filterMap_cons_none rfl, List.filterMap_cons_none rfl, List.filterMap_append, changed,
    List.filterMap_append, followed]
  exact List.append_nil _

theorem writes_rows (parsed : ValidatorEvent) (nodes : List Node) (v : Validator)
    (e outcome : ContractEvent) (older : List Validator) (t : Tables) :
    ((t.performAll (parsed.writes nodes v e older ++ [.saveContractEvent outcome])).validators.map
        fun _ => Validator.bare) =
      (t.validators.map fun _ => Validator.bare).insert (v.id, v.height) v.bare := by
  have stored : ∀ r ∈ .updateCounts parsed.validatorId ::
      (parsed.afterCounts nodes v e older ++ [.saveContractEvent outcome]), ∀ w, r ≠ .saveValidator w := by
    intro r member w same
    subst same
    obtain wrong | member := List.mem_cons.1 member
    · cases wrong
    obtain member | member := List.mem_append.1 member
    · obtain ⟨handled, -⟩ := afterCounts_handled e parsed nodes v older _ member
      cases handled
    · cases List.mem_singleton.1 member
  obtain ⟨ids, recounts⟩ := recounts_performAll stored (t.saveValidator v)
  have split : t.performAll (parsed.writes nodes v e older ++ [.saveContractEvent outcome]) =
      (t.saveValidator v).performAll (.updateCounts parsed.validatorId ::
        (parsed.afterCounts nodes v e older ++ [.saveContractEvent outcome])) := rfl
  rw [split, recounts.bare]
  exact Table.map_insert ..

/-- A completed attempt at a log about a validator leaves what the log makes known. -/
theorem process_observes {cache after : HeaderCache} {e : ContractEvent}
    (role : binding.name = .validatorService)
    (found : context.registry.atAddress? log.address = some binding)
    (follows : FollowsValidator context id log) (faithful : cache.Faithful chain log.height)
    (attempt : ProcessAttempt chain context log cache t (.ok e) after t') :
    ∃ v, Observes chain ⟨context, binding⟩ id log.height v t t' := by
  have kept : RowsKept log.height t t' :=
    (process_keeps (attempt.weaken fun allowed => allowed.anyAnswer)).toRowsKept
  obtain ⟨decoded, parsed, decoding, known, rfl⟩ := follows
  obtain ⟨stop, wrong, -⟩ | ⟨binding', header, found', -, attempt⟩ :=
    attempt_of_process faithful attempt
  · cases wrong
  cases found.symm.trans found'
  obtain ⟨s, handling, -⟩ := recordLog_completed attempt
  unfold handleLog at handling
  rw [decoding] at handling
  obtain ⟨_, _, done, handling⟩ := completed_bind handling
  obtain ⟨same, rfl⟩ := attempt_pure_iff.1 done
  cases same
  set event := ContractEvent.ofLog binding header log decoded with named
  have handler : handleEvent context binding decoded event =
      handleValidator ⟨context, binding⟩ decoded event := by
    unfold handleEvent
    rw [role]
  rw [handler] at handling
  obtain never | ⟨nothing, -⟩ | ⟨parsed', nodes, v, known', told, -, does⟩ :=
    handleValidator_cases chain ⟨context, binding⟩ decoded event
  · exact absurd handling (never _ _ _)
  · cases known.symm.trans nothing
  cases known.symm.trans known'
  rw [← handler] at does
  obtain ⟨-, rfl⟩ := (recordLog_of_decoded decoding (does _)).unique attempt
  obtain ⟨mine, place, bare⟩ := validator_told told
  refine ⟨v, told, ?_, fun p nothing => ?_, kept⟩
  · rw [writes_rows, mine, place, bare]
    rfl
  · have at_ : event.height = log.height := rfl
    rw [← at_] at nothing ⊢
    rw [changesAt_performAll nothing (writes_concern ..), ← Option.toList_map, p.change_event?, mine]

/-- The snapshots in the tables are what the chain tells of a validator at some heights. -/
def KnowsAt (chain : ChainAnswers) (c : ViewContract) (id : Word) (heights : List Nat) (t : Tables) :
    Prop :=
  ∀ key, (t.validators.map fun _ => Validator.bare).find? key =
    if key.1 = id ∧ key.2 ∈ heights then told? chain (c.validator id key.2) else none

theorem knowsAt_empty (chain : ChainAnswers) (c : ViewContract) (id : Word) :
    KnowsAt chain c id [] Tables.empty := by
  intro key
  rw [if_neg fun wrong => List.not_mem_nil wrong.2]
  rfl

theorem Observes.knows {v : Validator} (observes : Observes chain c id height v t t')
    (knows : KnowsAt chain c id heights t) : KnowsAt chain c id (heights ++ [height]) t' := by
  rintro ⟨other, k⟩
  rw [observes.rows, Table.find?_insert, knows]
  by_cases same : (other, k) = (id, height)
  · cases same
    simp [observes.told]
  · have kept : (other = id ∧ k ∈ heights ++ [height]) ↔ (other = id ∧ k ∈ heights) := by
      refine and_congr_right fun mine => ?_
      have apart : k ≠ height := fun at_ => same (by rw [mine, at_])
      simp [apart]
    simp only [if_neg same, kept]

theorem KnowsAt.own (knows : KnowsAt chain c id heights t) (key : Word × Nat) (v : Validator)
    (found : t.validators.find? key = some v) : v.id = key.1 := by
  have known := knows key
  rw [Table.find?_map, found, Option.map_some] at known
  split at known
  next mine => exact (validator_told known.symm).1.trans mine.1.symm
  next => cases known

theorem KnowsAt.mem_history (knows : KnowsAt chain c id heights t) {now : Nat × Validator}
    (member : now ∈ t.history id) :
    now.1 ∈ heights ∧ told? chain (c.validator id now.1) = some now.2.bare := by
  have known := knows (id, now.1)
  rw [Table.find?_map, mem_historyIn.1 member, Option.map_some] at known
  split at known
  next mine => exact ⟨mine.2, known.symm⟩
  next => cases known

/-- What was known at some of the heights is that part of the history in the end. -/
theorem KnowsAt.history_eq {s : Tables} {fewer : List Nat} (knows : KnowsAt chain c id fewer s)
    (knows' : KnowsAt chain c id heights t) (among : fewer ⊆ heights) :
    (s.history id).map bareAt = ((t.history id).filter (·.1 ∈ fewer)).map bareAt := by
  have rows : (s.validators.map fun _ => Validator.bare) =
      (t.validators.map fun _ => Validator.bare).filter fun key _ => decide (key.2 ∈ fewer) := by
    refine Table.ext_find? fun key => Option.ext fun v => ?_
    rw [Table.find?_filter, knows key, knows' key, Option.filter_eq_some_iff]
    by_cases member : key.2 ∈ fewer
    · simp [member, among member]
    · simp [member]
  have part := historyIn_filter (t.validators.map fun _ => Validator.bare) id (decide <| · ∈ fewer)
  change (historyIn s.validators id).map bareAt = ((historyIn t.validators id).filter _).map bareAt
  rw [← historyIn_map_bare, rows, part, historyIn_map_bare, List.filter_map]
  rfl

variable (role : binding.name = .validatorService)
include role

theorem Handled.knows
    (mine : ∀ log ∈ logs, context.registry.atAddress? log.address = some binding)
    (follows : ∀ log ∈ logs, FollowsValidator context id log)
    (handled : Handled chain context logs t t') (knows : KnowsAt chain ⟨context, binding⟩ id heights t) :
    KnowsAt chain ⟨context, binding⟩ id (heights ++ logs.map (·.height)) t' := by
  induction handled generalizing heights with
  | nil => rwa [List.map_nil, List.append_nil]
  | cons faithful attempt _ ih =>
    obtain ⟨found, mine⟩ := List.forall_mem_cons.1 mine
    obtain ⟨first, follows⟩ := List.forall_mem_cons.1 follows
    obtain ⟨v, observes⟩ := process_observes role found first faithful attempt
    rw [List.map_cons, List.append_cons]
    exact ih mine follows (observes.knows knows)

omit role in
/-- Logs at other heights tell nothing at a height. -/
theorem Handled.changesAt (handled : Handled chain context logs t t') (away : height ∉ logs.map (·.height))
    (p : Parameter) : t'.changesAt p height = t.changesAt p height := by
  induction handled with
  | nil => rfl
  | cons faithful attempt _ ih =>
    obtain ⟨first, others⟩ := not_or.1 (mt List.mem_cons.2 away)
    have kept := process_keeps (attempt.weaken fun allowed => allowed.anyAnswer)
    rw [ih others, kept.toRowsKept.changesAt first]

end Handling

section Recording

variable {chain : ChainAnswers} {context : Context} {binding : Binding} {id : Word}
  {logs : List RawLog} {t : Tables}

/-- Logs about one validator in blocks that all differ, handled one after another from empty tables. -/
structure FollowedLogs (chain : ChainAnswers) (context : Context) (binding : Binding) (id : Word)
    (logs : List RawLog) (t : Tables) : Prop where
  role : binding.name = .validatorService
  mine : ∀ log ∈ logs, context.registry.atAddress? log.address = some binding
  follows : ∀ log ∈ logs, FollowsValidator context id log
  apart : (logs.map (·.height)).Nodup
  handled : Handled chain context logs Tables.empty t

/-- The part of a history that some logs made known. -/
def madeKnownBy (logs : List RawLog) (history : List (Nat × Validator)) : List (Nat × Validator) :=
  history.filter (·.1 ∈ logs.map (·.height))

theorem perm_iff_filter {α κ : Type} [DecidableEq α] [DecidableEq κ] (key : α → κ) {l l' : List α} :
    l.Perm l' ↔ ∀ k, (l.filter (key · = k)).Perm (l'.filter (key · = k)) := by
  refine ⟨fun order _ => order.filter _, fun order => List.perm_iff_count.2 fun a => ?_⟩
  have counted (l : List α) : (l.filter (key · = key a)).count a = l.count a :=
    List.count_filter (decide_eq_true rfl)
  rw [← counted l, (order (key a)).count_eq, counted l']

theorem toList_perm_iff {α : Type} {a b : Option α} : a.toList.Perm b.toList ↔ a = b := by
  refine ⟨fun order => ?_, fun same => same ▸ .refl _⟩
  cases a with
  | none =>
    cases b with
    | none => rfl
    | some b => cases order.nil_eq
  | some a => exact (Option.mem_toList.1 (order.mem_iff.1 (Option.mem_toList.2 rfl))).symm

namespace FollowedLogs

variable (run : FollowedLogs chain context binding id logs t)
include run

theorem knows : KnowsAt chain ⟨context, binding⟩ id (logs.map (·.height)) t :=
  run.handled.knows run.role run.mine run.follows (knowsAt_empty _ _ _)

variable {earlier later : List RawLog} {log : RawLog} (split : logs = earlier ++ log :: later)
include split

/-- Around one of the logs: what was known before it, what it left, and what is told of its height in the
end. -/
theorem around : ∃ s s' v, KnowsAt chain ⟨context, binding⟩ id (earlier.map (·.height)) s ∧
    Observes chain ⟨context, binding⟩ id log.height v s s' ∧
    ∀ p : Parameter, s.changesAt p log.height = [] ∧
      t.changesAt p log.height = s'.changesAt p log.height := by
  have apart := run.apart
  obtain ⟨role, mine, follows, -, handled⟩ := run
  subst split
  obtain ⟨s, s', before, one, after⟩ := handled.split
  simp only [List.forall_mem_append, List.forall_mem_cons] at mine follows
  rw [List.map_append, List.map_cons] at apart
  obtain ⟨-, second, disjoint⟩ := List.nodup_append.1 apart
  have start : KnowsAt chain ⟨context, binding⟩ id (earlier.map (·.height)) s :=
    before.knows role mine.1 follows.1 (knowsAt_empty _ _ _)
  cases one with
  | cons faithful attempt rest =>
    cases rest
    obtain ⟨v, observes⟩ := process_observes role mine.2.1 follows.2.1 faithful attempt
    refine ⟨s, _, v, start, observes, fun p => ⟨?_, after.changesAt (List.nodup_cons.1 second).1 p⟩⟩
    exact before.changesAt (fun wrong => disjoint _ wrong _ List.mem_cons_self rfl) p

omit split in
/-- There is one snapshot for each log. -/
theorem heights : ((t.history id).map (·.1)).Perm (logs.map (·.height)) := by
  have distinct : ((t.history id).map (·.1)).Nodup :=
    (List.pairwise_map.2 (historyIn_sorted t.validators id)).imp fun below => below.ne
  refine (List.perm_ext_iff_of_nodup distinct run.apart).2 fun height => ?_
  constructor
  · intro member
    obtain ⟨now, known, rfl⟩ := List.mem_map.1 member
    exact (run.knows.mem_history known).1
  · intro member
    obtain ⟨log, among, rfl⟩ := List.mem_map.1 member
    obtain ⟨earlier, later, split⟩ := List.append_of_mem among
    obtain ⟨s, s', v, -, observes, -⟩ := run.around split
    have known := run.knows (id, log.height)
    rw [if_pos ⟨rfl, member⟩, observes.told, Table.find?_map] at known
    obtain ⟨w, found, -⟩ := Option.map_eq_some_iff.1 known
    exact List.mem_map.2 ⟨(log.height, w), mem_historyIn.2 found, rfl⟩

omit split in
theorem changes_elsewhere (p : Parameter) {c : ParameterChange} (member : c ∈ t.changes p) :
    c.height ∈ logs.map (·.height) := by
  by_contra away
  have nothing : t.changesAt p c.height = [] := run.handled.changesAt away p
  obtain ⟨e, told, rfl⟩ := List.mem_map.1 member
  obtain ⟨among, kind⟩ := List.mem_filter.1 told
  refine List.filter_eq_nil_iff.1 nothing e among ?_
  simp [Parameter.concerns, of_decide_eq_true kind, SystemEvent.parameterChange]

/-- What is recorded at the height of a log is the change from the last snapshot below it among those that
the logs before it made known. -/
theorem changes_at (p : Parameter) {now : Nat × Validator} (member : now ∈ t.history id)
    (place : now.1 = log.height) : (t.changes p).filter (·.height = log.height) =
      (p.changeFrom? id (p.before (madeKnownBy earlier (t.history id)) now) now).toList := by
  obtain ⟨s, s', v, known, observes, quiet⟩ := run.around split
  obtain ⟨nothing, after⟩ := quiet p
  have chosen : (t.changes p).filter (·.height = log.height) =
      (t.changesAt p log.height).map (·.parameterChange) := by
    rw [changes, List.filter_map, List.filter_filter, changesAt]
    refine congrArg _ (List.filter_congr fun e _ => ?_)
    simp [Parameter.concerns, SystemEvent.parameterChange, Bool.and_comm, beq_eq_decide]
  have told := (run.knows.mem_history member).2
  rw [place, observes.told] at told
  have snapshot : (log.height, v) = bareAt now := by rw [bareAt, place, Option.some.inj told]
  have fewer : earlier.map (·.height) ⊆ logs.map (·.height) := by
    rw [split, List.map_append]
    exact List.subset_append_left ..
  have below : p.amount ((s.olderValidators id log.height).head?.getD v) =
      p.before (s.history id) (log.height, v) := by
    rw [olderValidators_eq known.own, Parameter.before]
    cases lastBelow? (s.history id) log.height <;> rfl
  rw [chosen, after, observes.changes p nothing, below, snapshot, p.changeFrom?_bare, p.before_bare,
    ← p.before_map_bare, known.history_eq run.knows fewer, p.before_map_bare]
  rfl

omit split in
/-- Logs in the order of their blocks find all that stands below them. -/
theorem before_of_ordered (ordered : logs.Pairwise (·.height < ·.height)) (p : Parameter)
    (split : logs = earlier ++ log :: later) {now : Nat × Validator} (place : now.1 = log.height) :
    p.before (madeKnownBy earlier (t.history id)) now = p.before (t.history id) now := by
  have below : lastBelow? (madeKnownBy earlier (t.history id)) now.1 = lastBelow? (t.history id) now.1 := by
    rw [lastBelow?, madeKnownBy, List.filter_filter, lastBelow?]
    refine congrArg _ (List.filter_congr fun older member => ?_)
    by_cases low : older.1 < now.1
    · have among := (run.knows.mem_history member).1
      rw [split] at ordered among
      obtain ⟨-, after, -⟩ := List.pairwise_append.1 ordered
      have known : older.1 ∈ earlier.map (·.height) := by
        rw [List.map_append, List.mem_append, List.map_cons, List.mem_cons] at among
        obtain known | same | member := among
        · exact known
        · omega
        · obtain ⟨other, member, at_⟩ := List.mem_map.1 member
          have := (List.pairwise_cons.1 after).1 other member
          omega
      simp [low, known]
    · simp [low]
  rw [Parameter.before, below, Parameter.before]

omit split in
theorem recordsHistory_iff (p : Parameter) : t.RecordsHistory id p ↔
    ∀ earlier log later, logs = earlier ++ log :: later → ∀ now ∈ t.history id, now.1 = log.height →
      p.before (madeKnownBy earlier (t.history id)) now = p.before (t.history id) now := by
  have sorted : (t.history id).Pairwise (·.1 < ·.1) := historyIn_sorted ..
  have alike {earlier later : List RawLog} {log : RawLog} (split : logs = earlier ++ log :: later)
      {now : Nat × Validator} (member : now ∈ t.history id) (place : now.1 = log.height) :
      ((t.changes p).filter (·.height = log.height)).Perm
          ((p.changesAlong id (t.history id)).filter (·.height = log.height)) ↔
        p.before (madeKnownBy earlier (t.history id)) now = p.before (t.history id) now := by
    have due := p.changesAlong_at id sorted member
    rw [place] at due
    rw [run.changes_at split p member place, due, toList_perm_iff, Parameter.changeFrom?_inj]
  rw [RecordsHistory, perm_iff_filter ParameterChange.height]
  constructor
  · intro same earlier log later split now member place
    exact (alike split member place).1 (same log.height)
  · intro found height
    by_cases member : height ∈ logs.map (·.height)
    · obtain ⟨now, known, rfl⟩ := List.mem_map.1 (run.heights.mem_iff.2 member)
      obtain ⟨log, among, at_⟩ := List.mem_map.1 member
      obtain ⟨earlier, later, split⟩ := List.append_of_mem among
      rw [← at_]
      exact (alike split known at_.symm).2 (found earlier log later split now known at_.symm)
    · -- Away from the logs there is no snapshot, so nothing is recorded and nothing is due.
      have nothing : (t.changes p).filter (·.height = height) = [] := by
        refine List.filter_eq_nil_iff.2 fun c told same => member ?_
        exact of_decide_eq_true same ▸ run.changes_elsewhere p told
      have due : (p.changesAlong id (t.history id)).filter (·.height = height) = [] := by
        refine List.filter_eq_nil_iff.2 fun c changed same => member ?_
        obtain ⟨newer, later, place⟩ := Parameter.mem_changesAlong changed
        rw [← of_decide_eq_true same, place]
        exact (run.knows.mem_history (List.mem_of_mem_tail later)).1
      rw [nothing, due]

end FollowedLogs

/-- Logs about a validator in different blocks are handled in some order. The history has one snapshot for
each log, as the chain tells it at the log's block. Of a parameter one change at most is recorded at the
height of a log: the one from the last snapshot below it among those of the logs that were handled before.
So the changes that are recorded are those of the history exactly if each handling found below its height
the amount that stands there in the end, where a log without a snapshot below it counts as having its own
amount there. It is so when the logs are handled in the order of their blocks. -/
theorem records_history_iff (run : FollowedLogs chain context binding id logs t) :
    ((t.history id).map (·.1)).Perm (logs.map (·.height)) ∧
    (∀ now ∈ t.history id,
      told? chain (ViewContract.validator ⟨context, binding⟩ id now.1) = some now.2.bare) ∧
    ∀ p : Parameter,
      (∀ c ∈ t.changes p, c.height ∈ logs.map (·.height)) ∧
      (∀ earlier log later, logs = earlier ++ log :: later → ∀ now ∈ t.history id, now.1 = log.height →
        (t.changes p).filter (·.height = log.height) =
          (p.changeFrom? id (p.before (madeKnownBy earlier (t.history id)) now) now).toList) ∧
      (t.RecordsHistory id p ↔
        ∀ earlier log later, logs = earlier ++ log :: later → ∀ now ∈ t.history id, now.1 = log.height →
          p.before (madeKnownBy earlier (t.history id)) now = p.before (t.history id) now) ∧
      (logs.Pairwise (·.height < ·.height) → t.RecordsHistory id p) := by
  refine ⟨run.heights, fun now member => (run.knows.mem_history member).2, fun p => ⟨?_, ?_, ?_, ?_⟩⟩
  · exact fun c member => run.changes_elsewhere p member
  · exact fun earlier log later split now member place => run.changes_at split p member place
  · exact run.recordsHistory_iff p
  · intro ordered
    exact (run.recordsHistory_iff p).2 fun earlier log later split now member place =>
      run.before_of_ordered ordered p split place

/-- A chain on which the fee of the validators rises in block 20 and their least delegation in block 30. -/
def risingChain : ChainAnswers
  | .call (.number height) _ _ =>
    .ok ([0, 0, 0, 0, if height < 20 then 50 else 70, 0, if height < 30 then 5 else 6, 0, 0].flatMap
      Abi.wordOf)
  | r => evenChain r

theorem followedLogs_registered {heights : List Nat} (apart : heights.Nodup)
    (done : allHandled risingChain pairContext (heights.map (registeredLog 1)) Tables.empty) :
    FollowedLogs risingChain pairContext validatorBinding 1 (heights.map (registeredLog 1))
      (afterLogs risingChain pairContext (heights.map (registeredLog 1)) Tables.empty) where
  role := rfl
  mine := by
    intro log member
    obtain ⟨height, -, rfl⟩ := List.mem_map.1 member
    rfl
  follows := by
    intro log member
    obtain ⟨height, -, rfl⟩ := List.mem_map.1 member
    exact ⟨⟨"ValidatorRegistered", .ofList [("validatorId", .uint 1 256)]⟩, ⟨1, .registered⟩, rfl, rfl, rfl⟩
  apart := by
    have same : (heights.map (registeredLog 1)).map (·.height) = heights := by
      rw [List.map_map]
      exact List.map_id heights
    rwa [same]
  handled := handled_afterLogs done

/-- Three logs in the order of their blocks. -/
theorem records_history_by_block :
    let logs := [10, 20, 30].map (registeredLog 1)
    let t := afterLogs risingChain pairContext logs Tables.empty
    FollowedLogs risingChain pairContext validatorBinding 1 logs t ∧
      t.changes .fee = [⟨1, 20, 50, 70, .ofInt 20⟩] ∧
      t.RecordsHistory 1 .fee ∧ t.RecordsHistory 1 .minimumDelegation := by
  intro logs t
  have run : FollowedLogs risingChain pairContext validatorBinding 1 logs t :=
    followedLogs_registered (by decide) (by decide +kernel)
  have ordered : logs.Pairwise (·.height < ·.height) := by decide
  obtain ⟨-, -, each⟩ := records_history_iff run
  exact ⟨run, by decide +kernel, (each .fee).2.2.2 ordered, (each .minimumDelegation).2.2.2 ordered⟩

/-- The log of block 30 is handled before that of block 20: the rise of the fee is recorded in both. -/
theorem not_records_history :
    let logs := [10, 30, 20].map (registeredLog 1)
    let t := afterLogs risingChain pairContext logs Tables.empty
    pairContext.mode = .archive ∧ (∀ log ∈ logs, 0 < log.height) ∧
      FollowedLogs risingChain pairContext validatorBinding 1 logs t ∧
      t.changes .fee = [⟨1, 30, 50, 70, .ofInt 20⟩, ⟨1, 20, 50, 70, .ofInt 20⟩] ∧
      Parameter.fee.changesAlong 1 (t.history 1) = [⟨1, 20, 50, 70, .ofInt 20⟩] ∧
      ¬ t.RecordsHistory 1 .fee := by
  intro logs t
  have run : FollowedLogs risingChain pairContext validatorBinding 1 logs t :=
    followedLogs_registered (by decide) (by decide +kernel)
  exact ⟨rfl, by decide, run, by decide +kernel, by decide +kernel, by decide +kernel⟩

end Recording

end StakeIndex
