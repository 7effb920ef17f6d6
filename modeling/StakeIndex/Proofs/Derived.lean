import Mathlib.Data.List.Find
import StakeIndex.Proofs.Block

/-!
What the logs of one block leave in records that are kept under a key. A record takes the place of the one
that had its key, so where several logs derive records under one key the log that was handled last counts.
Most records under one key are the same; those of punishments and the transactions of delegations may
differ.
-/
namespace StakeIndex

open Job Tables

/-- What an event of the system is about, as it is kept. -/
abbrev SystemEvent.Key := (Nat × SystemEventKind) × (Address × Word) × (Address × Word)

def SystemEvent.amounts (e : SystemEvent) : Word × Word × Decimal := (e.before, e.after, e.change)

namespace Tables

def amounts? (t : Tables) (key : SystemEvent.Key) : Option (Word × Word × Decimal) :=
  (t.systemEvents.find? (subject · = key)).map (·.amounts)

section Puts

theorem amounts_putSystemEvent (e : SystemEvent) (events : List SystemEvent) (key : SystemEvent.Key) :
    ((putSystemEvent e events).find? (subject · = key)).map (·.amounts) =
      if subject e = key then some e.amounts
      else (events.find? (subject · = key)).map (·.amounts) := by
  induction events with
  | nil => by_cases mine : subject e = key <;> simp [putSystemEvent, mine]
  | cons known rest ih =>
    by_cases same : sameSubject known e
    · have subjects := sameSubject_iff.1 same
      rw [putSystemEvent, if_pos same]
      by_cases mine : subject e = key
      · rw [if_pos mine, List.find?_cons_of_pos]
        · rfl
        · exact decide_eq_true (subjects.trans mine)
      · have other : ¬ subject known = key := fun wrong => mine (subjects.symm.trans wrong)
        rw [if_neg mine, List.find?_cons_of_neg, List.find?_cons_of_neg]
        · exact fun wrong => other (of_decide_eq_true wrong)
        · exact fun wrong => other (of_decide_eq_true wrong)
    · rw [putSystemEvent, if_neg same]
      by_cases first : subject known = key
      · have other : ¬ subject e = key := fun mine => same (sameSubject_iff.2 (first.trans mine.symm))
        rw [if_neg other, List.find?_cons_of_pos (by simpa using first),
          List.find?_cons_of_pos (by simpa using first)]
      · rw [List.find?_cons_of_neg (by simpa using first), ih,
          List.find?_cons_of_neg (by simpa using first)]

/-- Of events that are put one after another the last one with a key counts. -/
theorem amounts_putAll (puts events : List SystemEvent) (key : SystemEvent.Key) :
    ((puts.foldl (fun events e => putSystemEvent e events) events).find? (subject · = key)).map
        (·.amounts) =
      ((puts.reverse.find? (subject · = key)).map (·.amounts)).or
        ((events.find? (subject · = key)).map (·.amounts)) := by
  induction puts generalizing events with
  | nil => rfl
  | cons e rest ih =>
    rw [List.foldl_cons, ih, amounts_putSystemEvent, List.reverse_cons, List.find?_append, Option.map_or,
      Option.or_assoc]
    by_cases mine : subject e = key <;> simp [mine]

end Puts

variable {facts : BlockFacts} {t : Tables} {requests requests' : List StoreRequest}

theorem amounts?_performAll (states : ∀ r ∈ requests, facts.States r) (key : SystemEvent.Key) :
    (t.performAll requests).amounts? key =
      (((requests.filterMap (·.systemEvent?)).reverse.find? (subject · = key)).map (·.amounts)).or
        (t.amounts? key) := by
  have puts : (t.performAll requests).systemEvents = (requests.filterMap (·.systemEvent?)).foldl
      (fun events e => putSystemEvent e events) t.systemEvents := by
    refine look_performAll (fun r member t => ?_) t
    cases states r member with
    | figures figures =>
      have none : r.systemEvent? = none := by cases figures <;> rfl
      rw [none]
      exact figures.frame systemEvents (fun _ _ _ _ _ => rfl) t
    | _ => rfl
  rw [amounts?, puts, amounts_putAll, amounts?]

theorem delegation?_performAll (states : ∀ r ∈ requests, facts.States r) (id : Word) :
    (t.performAll requests).delegations.find? (id, facts.height) =
      ((requests.filterMap (·.delegation?)).reverse.find? (·.id = id)).or
        (t.delegations.find? (id, facts.height)) := by
  have puts : (t.performAll requests).delegations = (requests.filterMap (·.delegation?)).foldl
      (fun rows d => rows.insert (d.id, d.height) d) t.delegations := by
    refine look_performAll (fun r member t => ?_) t
    cases states r member with
    | figures figures =>
      have none : r.delegation? = none := by cases figures <;> rfl
      rw [none]
      exact figures.frame Tables.delegations (fun _ _ _ _ _ => rfl) t
    | _ => rfl
  have place : ∀ d ∈ (requests.filterMap (·.delegation?)).reverse,
      decide ((d.id, d.height) = (id, facts.height)) = decide (d.id = id) := by
    intro d member
    obtain ⟨r, among, stored⟩ := List.mem_filterMap.1 (List.mem_reverse.1 member)
    have at_ := ((states r among).of_delegation stored).1
    simp [at_]
  rw [puts, Table.find?_insertAll fun d : Delegation => (d.id, d.height), List.find?_congr place]

/-- Whether something is found in a list does not depend on the order, and neither does what it tells, if
all that may be found tell the same. -/
theorem find?_map_perm {α β : Type} {items items' : List α} (order : items.Perm items') (test : α → Bool)
    (tell : α → β) (agree : ∀ a ∈ items, ∀ b ∈ items, test a → test b → tell a = tell b) :
    (items.reverse.find? test).map tell = (items'.reverse.find? test).map tell := by
  cases found : items.reverse.find? test with
  | none =>
    have absent : items'.reverse.find? test = none := by
      rw [List.find?_eq_none] at found ⊢
      intro a member
      exact found a (List.mem_reverse.2 (order.mem_iff.2 (List.mem_reverse.1 member)))
    rw [absent]
  | some a =>
    have member := List.mem_reverse.1 (List.mem_of_find?_eq_some found)
    cases found' : items'.reverse.find? test with
    | none =>
      rw [List.find?_eq_none] at found'
      exact absurd (List.find?_some found)
        (found' a (List.mem_reverse.2 (order.mem_iff.1 member)))
    | some b =>
      have member' := order.mem_iff.2 (List.mem_reverse.1 (List.mem_of_find?_eq_some found'))
      exact congrArg some (agree a member b member' (List.find?_some found) (List.find?_some found'))

/-- But for punishments, what is derived at a block follows from what it is about. -/
theorem amounts_of_states {e e' : SystemEvent} (states : facts.States (.saveSystemEvent e))
    (states' : facts.States (.saveSystemEvent e')) (unpunished : e.punishes = false)
    (same : subject e = subject e') : e.amounts = e'.amounts := by
  have told {e : SystemEvent} (states : facts.States (.saveSystemEvent e))
      (unpunished : e.punishes = false) : facts.amounts? e.kind e.senderId = some (e.before, e.after) ∧
        e.change = .difference e.before e.after := by
    cases states with
    | systemEvent e derived => exact derived unpunished
    | figures figures => nomatch figures
  have kind : e.kind = e'.kind := congrArg (·.1.2) same
  have sender : e.senderId = e'.senderId := congrArg (·.2.1.2) same
  have unpunished' : e'.punishes = false := by
    unfold SystemEvent.punishes at unpunished ⊢
    rwa [← kind]
  obtain ⟨amounts, change⟩ := told states unpunished
  obtain ⟨amounts', change'⟩ := told states' unpunished'
  rw [kind, sender, amounts'] at amounts
  obtain ⟨before, after⟩ := Prod.mk.inj (Option.some.inj amounts)
  rw [SystemEvent.amounts, SystemEvent.amounts, change, change', before, after]

section Orders

variable (states : ∀ r ∈ requests, facts.States r) (order : requests.Perm requests')
include states order

theorem amounts?_isSome_perm (key : SystemEvent.Key) :
    ((t.performAll requests).amounts? key).isSome =
      ((t.performAll requests').amounts? key).isSome := by
  have states' : ∀ r ∈ requests', facts.States r := fun r among => states r (order.mem_iff.2 among)
  have events := order.filterMap (·.systemEvent?)
  have found := find?_map_perm events (subject · = key) (fun _ => ()) fun _ _ _ _ _ _ => rfl
  have found := congrArg Option.isSome found
  simp only [Option.isSome_map] at found
  simp only [amounts?_performAll states, amounts?_performAll states', Option.isSome_or,
    Option.isSome_map, found]

theorem amounts?_perm {key : SystemEvent.Key} (slashed : key.1.2 ≠ .slashed)
    (forgiven : key.1.2 ≠ .forgiven) :
    (t.performAll requests).amounts? key = (t.performAll requests').amounts? key := by
  have states' : ∀ r ∈ requests', facts.States r := fun r among => states r (order.mem_iff.2 among)
  have events := order.filterMap (·.systemEvent?)
  have stored : ∀ e ∈ requests.filterMap (·.systemEvent?), facts.States (.saveSystemEvent e) := by
    intro e member
    obtain ⟨r, among, stored⟩ := List.mem_filterMap.1 member
    have states := states r among
    cases r with
    | saveSystemEvent event =>
      cases stored
      exact states
    | _ => cases stored
  rw [amounts?_performAll states, amounts?_performAll states']
  congr 1
  refine find?_map_perm events (subject · = key) (·.amounts) fun e member e' member' mine mine' => ?_
  simp only [decide_eq_true_eq] at mine mine'
  have unpunished : e.punishes = false := by
    have kind : e.kind = key.1.2 := congrArg (·.1.2) mine
    simp [SystemEvent.punishes, kind, slashed, forgiven]
  exact amounts_of_states (stored e member) (stored e' member') unpunished (mine.trans mine'.symm)

end Orders

end Tables

section Deriving

variable {chain : ChainAnswers} {context : Context} {role : ContractName → Binding} {height : Nat}
  {t s : Tables} {logs logs' : List RawLog} {facts : BlockFacts}
  {requests : RawLog → List StoreRequest}

theorem delegation?_settled
    (settles : ∀ log ∈ logs, Settles chain context facts log (requests log)) (id : Word) :
    (t.performAll (logs.flatMap requests)).delegations.find? (id, facts.height) =
      ((logs.filterMap (seen? chain context)).reverse.find? (·.id = id)).or
        (t.delegations.find? (id, facts.height)) := by
  have seen : (logs.flatMap requests).filterMap (·.delegation?) =
      logs.filterMap (seen? chain context) := by
    rw [List.filterMap_flatMap, List.filterMap_eq_flatMap_toList]
    exact List.flatMap_congr fun log member => (settles log member).delegations
  rw [← seen]
  exact delegation?_performAll (states_of_settles settles) id

theorem punished_settled
    (settles : ∀ log ∈ logs, Settles chain context facts log (requests log)) {key : SystemEvent.Key}
    (punishes : key.1.2 = .slashed ∨ key.1.2 = .forgiven) :
    (t.performAll (logs.flatMap requests)).amounts? key =
      (((logs.filterMap (punishment? chain context)).reverse.find? (subject · = key)).map
        (·.amounts)).or (t.amounts? key) := by
  have punished : ((logs.flatMap requests).filterMap (·.systemEvent?)).filter (·.punishes) =
      logs.filterMap (punishment? chain context) := by
    rw [List.filterMap_flatMap, List.filter_flatMap, List.filterMap_eq_flatMap_toList]
    exact List.flatMap_congr fun log member => (settles log member).punishments
  -- An event under such a key is a punishment, so the other events can be left out.
  have kept : ∀ e : SystemEvent, decide (e.punishes = true ∧ decide (subject e = key) = true) =
      decide (subject e = key) := by
    intro e
    by_cases mine : subject e = key
    · have kind : e.kind = key.1.2 := congrArg (·.1.2) mine
      have punishing : e.punishes = true := by
        rcases punishes with slashed | forgiven
        · simp [SystemEvent.punishes, kind, slashed]
        · simp [SystemEvent.punishes, kind, forgiven]
      simp [mine, punishing]
    · simp [mine]
  rw [amounts?_performAll (states_of_settles settles), ← punished, ← List.filter_reverse,
    List.find?_filter]
  simp only [kept]

/-- Logs of one block, handled without error in some order, leave on the delegations of the block what the
last log of each one makes known, and under the keys of punishments what the last log that punishes so
makes known; what no log is about is as it was. In every other order they leave events of the system about
the same things, and but for punishments with the same amounts. -/
theorem handled_derives (one : context.registry.OneOfEach role)
    (at_ : ∀ log ∈ logs, log.height = height) (handled : Handled chain context logs t s) :
    (∀ id, s.delegations.find? (id, height) =
      ((logs.filterMap (seen? chain context)).reverse.find? (·.id = id)).or
        (t.delegations.find? (id, height))) ∧
    (∀ key : SystemEvent.Key, key.1.2 = .slashed ∨ key.1.2 = .forgiven → s.amounts? key =
      (((logs.filterMap (punishment? chain context)).reverse.find? (subject · = key)).map
        (·.amounts)).or (t.amounts? key)) ∧
    ∀ logs', logs.Perm logs' → (∃ s', Handled chain context logs' t s') ∧
      ∀ s', Handled chain context logs' t s' → ∀ key : SystemEvent.Key,
        (s.amounts? key).isSome = (s'.amounts? key).isSome ∧
        (key.1.2 ≠ .slashed → key.1.2 ≠ .forgiven → s.amounts? key = s'.amounts? key) := by
  obtain ⟨requests, settles⟩ := handled.settled one at_ t
  have recalls := recalls_factsAt chain context role height t
  obtain rfl := (handled_iff settles recalls).1 handled
  refine ⟨delegation?_settled settles, fun key => punished_settled settles, fun logs' order => ?_⟩
  have settles' : ∀ log ∈ logs', Settles chain context (factsAt chain context role height t) log
      (requests log) := fun log member => settles log (order.mem_iff.2 member)
  refine ⟨⟨_, (handled_iff settles' recalls).2 rfl⟩, fun s' handled' key => ?_⟩
  obtain rfl := (handled_iff settles' recalls).1 handled'
  have states := states_of_settles settles
  have requested := order.flatMap_right requests
  constructor
  · exact amounts?_isSome_perm states requested key
  · intro slashed forgiven
    exact amounts?_perm states requested slashed forgiven

def slashRole : ContractName → Binding := fun _ => ⟨.punisher, ⟨"1.0.0"⟩, .zero, ⟨[]⟩⟩

theorem oneOfEach_slash : slashContext.registry.OneOfEach slashRole := by
  constructor
  · intro address binding found
    change (Table.empty.insert .zero (slashRole .punisher)).find? address = some binding at found
    rw [Table.find?_insert] at found
    split at found
    · cases found
      rfl
    · cases found
  · intro name version binding found
    cases found

/-- The validator of the other log is slashed once more in the same block. -/
def slashAgainLog : RawLog :=
  { slashLog with topics := [.ofWord 7, .ofWord 5, .ofWord 40], logIndex := 4 }

theorem handled_derives_slashes :
    let logs := [slashLog, slashAgainLog]
    let s := afterLogs datedChain slashContext logs Tables.empty
    Handled datedChain slashContext logs Tables.empty s ∧
      s.amounts? ((20, .slashed), (.zero, 0), (.zero, 5)) = some (0, 40, .difference 0 40) := by
  intro logs s
  have handled : Handled datedChain slashContext logs Tables.empty s :=
    handled_afterLogs (by decide +kernel)
  have at_ : ∀ log ∈ logs, log.height = 20 := by decide
  have derives := handled_derives oneOfEach_slash at_ handled
  refine ⟨handled, ?_⟩
  rw [derives.2.1 _ (.inl rfl)]
  decide +kernel

/-- Of two slashes of a validator in one block, and of the transactions of two logs of a delegation, the
one that is handled last counts. -/
theorem not_derived_alike :
    (let logs := [slashLog, slashAgainLog]
      let s := afterLogs datedChain slashContext logs Tables.empty
      let s' := afterLogs datedChain slashContext logs.reverse Tables.empty
      slashContext.registry.OneOfEach slashRole ∧
        (logs.map fun log => (log.txHash, log.logIndex)).Nodup ∧
        Handled datedChain slashContext logs Tables.empty s ∧
        Handled datedChain slashContext logs.reverse Tables.empty s' ∧
        s.systemEvents.map (·.after) = [40] ∧ s'.systemEvents.map (·.after) = [100]) ∧
    (let logs := [proposedLog 1 20, { proposedLog 1 20 with txHash := .ofWord 9, logIndex := 1 }]
      let s := afterLogs evenChain delegationContext logs Tables.empty
      let s' := afterLogs evenChain delegationContext logs.reverse Tables.empty
      (logs.map fun log => (log.txHash, log.logIndex)).Nodup ∧
        Handled evenChain delegationContext logs Tables.empty s ∧
        Handled evenChain delegationContext logs.reverse Tables.empty s' ∧
        (s.delegations.find? (1, 20)).map (·.txHash) = some (.ofWord 9) ∧
        (s'.delegations.find? (1, 20)).map (·.txHash) = some .zero) := by
  refine ⟨⟨oneOfEach_slash, by decide, handled_afterLogs ?_, handled_afterLogs ?_, ?_⟩,
    by decide, handled_afterLogs ?_, handled_afterLogs ?_, ?_⟩
  all_goals decide +kernel

end Deriving

end StakeIndex
