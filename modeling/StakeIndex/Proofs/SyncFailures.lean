import StakeIndex.Proofs.SyncFrame
import StakeIndex.Proofs.SyncTotals

/-!
A synchronisation that fails, and one that is completed. Until its last request it stores snapshots only.
Those of validators stand there with counters of zero, which the last request sets; so a failure of any part,
however far the others have come, leaves the series as they were and the counters of some validators wrong.
-/
namespace StakeIndex

open Dialogue Job Tables

/-- The requests that the store has performed. -/
def performed (past : List PartExchange) : List StoreRequest := (marks past).filterMap Mark.wrote?

theorem performed_append (past later : List PartExchange) :
    performed (past ++ later) = performed past ++ performed later := by
  rw [performed, marks_append, List.filterMap_append]
  rfl

theorem mem_performed {past : List PartExchange} {r : StoreRequest} (member : r ∈ performed past) :
    ∃ reply, ⟨.plain (.store r), reply⟩ ∈ past := by
  obtain ⟨m, marked, wrote⟩ := List.mem_filterMap.1 member
  obtain ⟨e, among, shown⟩ := List.mem_filterMap.1 marked
  unfold mark? at shown
  split at shown <;> cases shown <;> cases wrote
  exact ⟨_, among⟩

/-- What is performed in an interleaving is what its parts have had performed, in some order. -/
theorem performed_flatMap {α : Type} {merged : List PartExchange} {parts : List α}
    {past : α → List PartExchange} (order : merged.Perm (parts.flatMap past)) :
    (performed merged).Perm (parts.flatMap fun part => performed (past part)) := by
  refine ((order.filterMap mark?).filterMap Mark.wrote?).trans (.of_eq ?_)
  clear order
  induction parts with
  | nil => rfl
  | cons part rest ih =>
    rw [List.flatMap_cons, List.flatMap_cons, List.filterMap_append, List.filterMap_append, ih]
    rfl

theorem AnyAnswers.leaves {r : PartRequest} {w w' : SyncWorld} {reply : r.Answer}
    (answered : AnyAnswers r w reply w') : Leaves w (marks [⟨r, reply⟩]) w' := by
  obtain ⟨⟨asked, rfl⟩, rfl⟩ | ⟨chain, answered⟩ := answered
  · exact leaves_nothing rfl rfl rfl rfl
  · exact answers_leaves answered

/-- Parts that may ask anything and rely on no reply. -/
abbrev freely : Protocol PartRequest.Answer := ⟨fun _ => True, fun _ _ => True⟩

theorem serves_freely : Serves AnyAnswers (fun _ => True) freely :=
  fun _ _ _ _ _ _ _ => ⟨trivial, trivial⟩

/-- There is some reply to every request. -/
theorem exists_reply (r : PartRequest) : ∃ reply : r.Answer, freely.replies r reply := by
  cases r with
  | plain r =>
    cases r with
    | chain r => exact ⟨.error .silent, trivial⟩
    | store r => exact ⟨.error .crashed, trivial⟩
    | shared r =>
      cases r with
      | isCancelled => exact ⟨false, trivial⟩
      | beginCatchUp => exact ⟨none, trivial⟩
      | knownDelegation => exact ⟨none, trivial⟩
      | _ => exact ⟨(), trivial⟩
  | claimBatch => exact ⟨0, trivial⟩
  | isExhausted => exact ⟨false, trivial⟩
  | exhaust => exact ⟨(), trivial⟩

section Jobs

variable {α β : Type}

/-- What only consults has nothing performed. -/
theorem Job.Consults.obeys {job : Job α} {holds : α → Prop} (consults : Consults job holds) :
    (Part.plain job).run.Obeys freely fun past result =>
      performed past = [] ∧ ∀ a, result = .ok a → holds a := by
  have plain := (Within.makes consults).plain
  refine (Obeys.asked plain (fun _ _ => trivial) fun _ _ _ => trivial).mono ?_
  rintro past result ⟨right, asked⟩
  refine ⟨List.eq_nil_iff_forall_not_mem.2 fun r member => ?_, right⟩
  obtain ⟨reply, among⟩ := mem_performed member
  exact asked _ among

theorem store_obeys (r : StoreRequest) : (Part.plain (.store r)).run.Obeys freely fun past result =>
    performed past = if result.isOk then [r] else [] := by
  refine ⟨trivial, fun reply _ => ?_⟩
  cases reply <;> rfl

theorem obeys_bind_pure {p : Protocol PartRequest.Answer} {part : Part α}
    {promise : Promise PartRequest.Answer (Except Stop α)} (f : α → β) (obeys : part.run.Obeys p promise) :
    (part >>= fun a => pure (f a)).run.Obeys p fun past result =>
      ∃ mine, result = mine.map f ∧ promise past mine := by
  refine Obeys.bind_except obeys (fun past a promised => ⟨.ok a, rfl, ?_⟩) fun past stop promised => ?_
  · rwa [List.append_nil]
  · exact ⟨.error stop, rfl, promised⟩

end Jobs

namespace EpochSync

/-- Snapshots at a height as they are read one after another from an id on, with counters of zero. -/
structure Fresh (height : Nat) (first : Nat) (saved : List Validator) : Prop where
  heights : ∀ v ∈ saved, v.height = height
  zero : ∀ v ∈ saved, ∀ figure, v.counter figure = 0
  ids : saved.map (·.id.toNat) = List.range' first saved.length

theorem fresh_nil (height first : Nat) : Fresh height first [] :=
  ⟨fun _ member => (nomatch member), fun _ member => (nomatch member), rfl⟩

theorem Fresh.cons {height first : Nat} {v : Validator} {saved : List Validator}
    (place : v.id.toNat = first ∧ v.height = height ∧ ∀ figure, v.counter figure = 0)
    (fresh : Fresh height (first + 1) saved) : Fresh height first (v :: saved) := by
  obtain ⟨mine, at_, zero⟩ := place
  constructor
  · exact List.forall_mem_cons.2 ⟨at_, fresh.heights⟩
  · exact List.forall_mem_cons.2 ⟨zero, fresh.zero⟩
  · rw [List.map_cons, fresh.ids, mine, List.length_cons, List.range'_succ]

theorem Fresh.of_append {height first : Nat} {saved rest : List Validator}
    (fresh : Fresh height first (saved ++ rest)) : Fresh height first saved := by
  constructor
  · exact fun v member => fresh.heights v (List.mem_append_left _ member)
  · exact fun v member => fresh.zero v (List.mem_append_left _ member)
  · have ids := fresh.ids
    rw [List.map_append, List.length_append, ← List.range'_append_1] at ids
    exact (List.append_inj ids (by simp)).1

theorem Fresh.distinct {height first : Nat} {saved : List Validator} (fresh : Fresh height first saved) :
    (saved.map (·.id)).Nodup := by
  have numbers : ((saved.map (·.id)).map Word.toNat).Nodup := by
    rw [List.map_map]
    exact fresh.ids ▸ List.nodup_range'
  exact numbers.of_map _

/-- Validators from an id on are stored as they were read, and their ids are listed if the reading was not
stopped. -/
def Enumerates (height first : Nat) (stored : List StoreRequest) (result : Except Stop (List Word)) : Prop :=
  ∃ saved, Fresh height first saved ∧ stored = saved.map .saveValidator ∧
    ∀ ids, result = .ok ids → ids = saved.map (·.id)

theorem enumerates_ended (height first : Nat) : Enumerates height first [] (.ok []) := by
  refine ⟨[], fresh_nil .., rfl, fun ids listed => ?_⟩
  cases listed
  rfl

theorem enumerates_stopped (height first : Nat) (stop : Stop) :
    Enumerates height first [] (.error stop) :=
  ⟨[], fresh_nil .., rfl, fun _ wrong => (nomatch wrong)⟩

theorem Enumerates.cons {height first : Nat} {v : Validator} {stored : List StoreRequest}
    {result : Except Stop (List Word)}
    (place : v.id.toNat = first ∧ v.height = height ∧ ∀ figure, v.counter figure = 0)
    (rest : Enumerates height (first + 1) stored result) :
    Enumerates height first (.saveValidator v :: stored) (result.map (v.id :: ·)) := by
  obtain ⟨saved, fresh, rfl, listed⟩ := rest
  refine ⟨v :: saved, fresh.cons place, rfl, fun ids all => ?_⟩
  cases result with
  | error stop => cases all
  | ok others =>
    cases all
    rw [List.map_cons, listed others rfl]

/-- Whatever is replied, the part for the validators stores those that it reads, one after another. -/
theorem validators_obey (c : ViewContract) (height fuel : Nat) (id : Word) :
    (Part.plain (validators c height fuel id)).run.Obeys freely fun past result =>
      Enumerates height id.toNat (performed past) result := by
  induction fuel generalizing id with
  | zero => exact enumerates_ended ..
  | succ fuel ih =>
    unfold validators
    rw [Part.plain_bind]
    refine Obeys.bind_except (c.validator_consults height id).ifAny.obeys (fun past found read => ?_)
      fun past stop read => ?_
    swap
    · rw [read.1]
      exact enumerates_stopped ..
    obtain ⟨nothing, place⟩ := read
    cases found with
    | none =>
      change Enumerates height id.toNat (performed (past ++ [])) (.ok [])
      rw [List.append_nil, nothing]
      exact enumerates_ended ..
    | some v =>
      obtain ⟨rfl, at_, zero⟩ := place _ rfl v rfl
      dsimp only
      rw [Part.plain_bind]
      refine Obeys.bind_except (store_obeys _) (fun later _ stored => ?_) fun later stop refused => ?_
      · -- The validator comes before whatever is enumerated from the next id on.
        have first {later' : List (Exchange PartRequest.Answer)} {mine : Except Stop (List Word)}
            (listed : Enumerates height (v.id.toNat + 1) (performed later') mine) :
            Enumerates height v.id.toNat (performed (past ++ (later ++ later'))) (mine.map (v.id :: ·)) := by
          rw [performed_append, performed_append, nothing, stored]
          exact listed.cons ⟨rfl, at_, zero⟩
        cases next : v.id.next? with
        | none =>
          have ended : Enumerates height (v.id.toNat + 1) (performed []) (.ok []) := enumerates_ended ..
          exact first ended
        | some following =>
          dsimp only
          rw [Part.plain_bind]
          refine (obeys_bind_pure _ (ih following)).mono ?_
          rintro later' result ⟨mine, rfl, listed⟩
          exact first (toNat_next next ▸ listed)
      · rw [performed_append, nothing, refused]
        exact enumerates_stopped ..

/-- What is promised of the part for the validators, whatever is replied. -/
def enumerating (height : Nat) : Promise PartRequest.Answer (Except Stop PartResult) := fun past result =>
  ∃ listed, result = listed.map .validators ∧ Enumerates height 1 (performed past) listed

/-- What is promised of the parts beside it. -/
def besides : Promise PartRequest.Answer (Except Stop PartResult) := fun past _ =>
  ∀ r ∈ performed past, Beside r

theorem besides_obey {d : PartSteps PartResult} {promise : Promise PartRequest.Answer (Except Stop PartResult)}
    (obeys : d.Obeys (plainly (storeMay Beside)) promise) : d.Obeys freely besides := by
  refine (obeys.asked (fun _ _ => trivial) fun _ _ _ => trivial).mono ?_
  rintro past result ⟨-, asked⟩ r member
  obtain ⟨reply, among⟩ := mem_performed member
  exact asked _ among

theorem parts_obey_freely (plan : SyncPlan) (c : SyncContracts) (height : Nat) (time : Instant) :
    (parts plan c height time).Forall₂ (fun d promise => d.Obeys freely promise)
      (enumerating height :: List.replicate (max plan.workers 1 + 1) besides) := by
  have noded : Performs (plainly (storeMay Beside)) (Part.plain (nodes c.nodes height time allIds 1 (0, ∅)))
    fun _ => True := (nodes_within ..).makes.plain
  have reads (id : Word) : Performs (plainly (storeMay Beside))
      (Part.plain (delegation c.controller id height).ifAny) fun found =>
        ∀ d, found = some d → Beside (.saveDelegation d) :=
    Makes.plain <| Within.makes <|
      (delegation_consults c.controller id height).ifAny.within.mono fun _ _ d _ => .delegation d
  refine .cons ?_ ?_
  · rw [map_eq_pure_bind]
    exact obeys_bind_pure _ (validators_obey c.validatorService height allIds 1)
  · refine .cons (besides_obey (noded.map PartResult.nodes)) ?_
    have working := (performs_workers ⟨trivial, trivial, trivial⟩ plan reads).imp fun _ _ => besides_obey
    have promised := List.forall₂_map_right_iff.2 working
    rwa [List.map_replicate] at promised

/-- Validators from the first one on are stored with counters of zero, and the series are as they were. -/
structure Enumerated (height : Nat) (t t' : Tables) (saved : List Validator) : Prop where
  fresh : Fresh height 1 saved
  validators : t'.validators = saved.foldl (fun rows v => rows.insert (v.id, v.height) v) t.validators
  series : t'.validatorStatistics = t.validatorStatistics

section Pools

variable {plan : SyncPlan} {c : SyncContracts} {height : Nat} {time : Instant} {t : Tables}
  {known : DelegationCache} {pool : List (PartSteps PartResult)} {w : SyncWorld}

theorem enumerated_performAll {requests rest : List StoreRequest} {saved : List Validator}
    (fresh : Fresh height 1 saved) (order : requests.Perm (saved.map .saveValidator ++ rest))
    (beside : ∀ r ∈ rest, Beside r) (t : Tables) : Enumerated height t (t.performAll requests) saved := by
  have only : ∀ r ∈ requests, (∃ v, r = .saveValidator v) ∨ Beside r := by
    intro r member
    obtain among | among := List.mem_append.1 (order.mem_iff.1 member)
    · obtain ⟨v, -, rfl⟩ := List.mem_map.1 among
      exact .inl ⟨v, rfl⟩
    · exact .inr (beside r among)
  have others : rest.filterMap StoreRequest.validator? = [] := by
    refine List.filterMap_eq_nil_iff.2 fun r member => ?_
    cases beside r member <;> rfl
  refine ⟨fresh, ?_, ?_⟩
  · refine rows_of_written Tables.validators (·.validator?) (fun v => (v.id, v.height))
      (fun r member t => ?_) ?_ (.of_map Prod.fst ?_) t
    · obtain ⟨v, rfl⟩ | beside := only r member
      · rfl
      · cases beside <;> rfl
    · refine (order.filterMap _).trans (.of_eq ?_)
      rw [List.filterMap_append, others, List.append_nil, List.filterMap_map]
      exact List.filterMap_some
    · rw [List.map_map]
      exact fresh.distinct
  · refine performAll_invariant (·.validatorStatistics = t.validatorStatistics) rfl fun r member s same => ?_
    obtain ⟨v, rfl⟩ | beside := only r member
    · exact same
    · cases beside <;> exact same

/-- What the part for the validators has stored so far is a beginning of what it stores when it goes on. -/
theorem Enumerates.of_append {first : Nat} {stored later : List StoreRequest}
    {result : Except Stop (List Word)} (listed : Enumerates height first (stored ++ later) result) :
    ∃ saved, Fresh height first saved ∧ stored = saved.map .saveValidator := by
  obtain ⟨all, fresh, same, -⟩ := listed
  obtain ⟨saved, rest, rfl, rfl, -⟩ := List.append_eq_map_iff.1 same
  exact ⟨saved, fresh.of_append, rfl⟩

/-- So it is with what it has stored at any moment; and when it is done, it returns the ids. -/
theorem enumerates_of_binds {d : PartSteps PartResult}
    {contract : Contract PartRequest.Answer (Except Stop PartResult)} (binds : contract.Binds freely d)
    (promised : contract.promise = enumerating height) :
    ∃ saved, Fresh height 1 saved ∧ performed contract.past = saved.map .saveValidator ∧
      ∀ ids, d = .done (.ok (.validators ids)) → ids = saved.map (·.id) := by
  cases d with
  | done result =>
    have fulfilled := binds.fulfilled
    rw [promised] at fulfilled
    obtain ⟨listed, rfl, saved, fresh, stored, all⟩ := fulfilled
    refine ⟨saved, fresh, stored, fun ids same => all ids ?_⟩
    cases listed <;> cases same
    rfl
  | ask r next =>
    obtain ⟨later, result, fulfilled⟩ := Obeys.ends (fun r _ => exists_reply r) binds
    rw [promised] at fulfilled
    obtain ⟨listed, -, more⟩ := fulfilled
    rw [performed_append] at more
    obtain ⟨saved, fresh, stored⟩ := more.of_append
    exact ⟨saved, fresh, stored, fun _ => nofun⟩

/-- Wherever the parts are, whatever was replied to them and in whatever order: the validators up to some one
are stored, and if the part for them is done, then it returns their ids. -/
theorem enumerated_of_reached
    (reached : Reached AnyAnswers (parts plan c height time) (.start t known) pool w) :
    ∃ saved, Enumerated height t w.tables saved ∧
      ∀ ids rest, pool = .done (.ok (.validators ids)) :: rest → ids = saved.map (·.id) := by
  obtain ⟨merged, contracts, promises, binds, order, along, -, -⟩ :=
    reached.keeps serves_freely (parts_obey_freely plan c height time) trivial
  have tables : w.tables = t.performAll (performed merged) := (leaves_along AnyAnswers.leaves along).tables
  cases binds with
  | nil => cases promises
  | @cons d contract pool contracts mine binds =>
    obtain ⟨promise, promises⟩ := List.cons.inj promises
    obtain ⟨saved, fresh, stored, listed⟩ := enumerates_of_binds mine promise
    have beside : ∀ r ∈ contracts.flatMap fun contract => performed contract.past, Beside r := by
      intro r member
      obtain ⟨contract, among, member⟩ := List.mem_flatMap.1 member
      obtain ⟨later, result, fulfilled⟩ := Contract.Binds.exists_end (fun r _ => exists_reply r) binds contract among
      have promised := List.mem_map_of_mem (f := (·.promise)) among
      rw [promises] at promised
      rw [List.eq_of_mem_replicate promised] at fulfilled
      refine fulfilled r ?_
      rw [performed_append]
      exact List.mem_append_left _ member
    have order := performed_flatMap order
    rw [List.flatMap_cons, stored] at order
    refine ⟨saved, tables ▸ enumerated_performAll fresh order beside t, fun ids rest same => ?_⟩
    exact listed ids (List.cons.inj same).1

end Pools

section Counters

variable {plan : SyncPlan} {context : Context} {version : Version} {height : Nat} {time : Instant}
  {t t' : Tables} {known : DelegationCache} {w : SyncWorld} {saved : List Validator}

/-- Of snapshots of different validators, each becomes the latest one unless there is a higher one. -/
theorem latest?_insertAll {saved : List Validator} (distinct : (saved.map (·.id)).Nodup) {t t' : Tables}
    (rows : t'.validators = saved.foldl (fun rows v => rows.insert (v.id, v.height) v) t.validators) :
    (∀ id ∉ saved.map (·.id), t'.latest? id = t.latest? id) ∧
      ∀ v ∈ saved, t'.latest? v.id =
        match t.latest? v.id with
        | some (key, w) => if v.height < key.2 then some (key, w) else some ((v.id, v.height), v)
        | none => some ((v.id, v.height), v) := by
  induction saved generalizing t with
  | nil =>
    refine ⟨fun id _ => ?_, fun _ member => (nomatch member)⟩
    rw [latest?, rows]
    rfl
  | cons first rest ih =>
    obtain ⟨fresh, distinct⟩ := List.nodup_cons.1 distinct
    obtain ⟨others, mine⟩ := ih distinct (t := (t.perform (.saveValidator first)).2) rows
    have apart {id : Word} (other : first.id ≠ id) :
        (t.perform (.saveValidator first)).2.latest? id = t.latest? id :=
      last?_insert_other first.height other first
    constructor
    · intro id absent
      rw [List.map_cons, List.mem_cons, not_or] at absent
      obtain ⟨other, absent⟩ := absent
      exact (others id absent).trans (apart (Ne.symm other))
    · intro v member
      rcases List.mem_cons.1 member with rfl | member
      · exact (others _ fresh).trans (last?_insert_self ..)
      · have other : first.id ≠ v.id := by
          intro same
          exact fresh (List.mem_map.2 ⟨v, member, same.symm⟩)
        have shown := mine v member
        rw [apart other] at shown
        exact shown

theorem Enumerated.coherent_iff (enumerated : Enumerated height t t' saved) (coherent : t.Coherent) :
    t'.Coherent ↔ ∀ v ∈ saved, (∃ key w, t.latest? v.id = some (key, w) ∧ height < key.2) ∨
      ∀ figure, t.latestAmount v.id figure = 0 := by
  have fresh := enumerated.fresh
  obtain ⟨others, mine⟩ := latest?_insertAll fresh.distinct enumerated.validators
  have series := latestAmount_congr enumerated.series
  -- A validator that was read shows zeros exactly where its snapshot became the latest one.
  have shown {v : Validator} (member : v ∈ saved) :
      t'.latest? v.id = t.latest? v.id ∧
          (∃ key w, t.latest? v.id = some (key, w) ∧ height < key.2) ∨
        t'.latest? v.id = some ((v.id, v.height), v) := by
    have at_ := fresh.heights v member
    rw [mine v member]
    cases last : t.latest? v.id with
    | none => exact .inr rfl
    | some e =>
      obtain ⟨key, w⟩ := e
      by_cases higher : v.height < key.2
      · exact .inl ⟨if_pos higher, key, w, rfl, at_ ▸ higher⟩
      · exact .inr (if_neg higher)
  constructor
  · intro after v member
    rcases shown member with ⟨-, higher⟩ | latest
    · exact .inl higher
    · right
      intro figure
      rw [← series, ← after v.id figure _ v latest]
      exact fresh.zero v member figure
  · intro right id figure key w latest
    rw [series]
    by_cases read : id ∈ saved.map (·.id)
    · obtain ⟨v, member, rfl⟩ := List.mem_map.1 read
      rcases shown member with ⟨same, -⟩ | replaced
      · rw [same] at latest
        exact coherent v.id figure key w latest
      · rw [replaced, Option.some.injEq, Prod.mk.injEq] at latest
        rw [← latest.2, fresh.zero v member figure]
        rcases right v member with ⟨key, w, stored, higher⟩ | zero
        · have at_ := fresh.heights v member
          have kept := mine v member
          rw [stored, replaced, at_] at kept
          dsimp only at kept
          rw [if_pos higher] at kept
          cases kept
          exact absurd higher (lt_irrefl _)
        · exact (zero figure).symm
    · rw [others id read] at latest
      exact coherent id figure key w latest

/-- A synchronisation that fails has stored validators up to some one. -/
theorem Returns.enumerated {stop : Stop}
    (returned : Returns AnyAnswers plan context version height time t known (.error stop) w) :
    ∃ saved, Enumerated height t w.tables saved := by
  generalize same : Except.error stop = result at returned
  cases returned with
  | unknown => exact ⟨[], fresh_nil .., rfl, rfl⟩
  | stopped _ reached _ =>
    obtain ⟨saved, enumerated, -⟩ := enumerated_of_reached reached
    exact ⟨saved, enumerated⟩
  | @closed _ _ _ _ _ before _ _ run answered =>
    obtain ⟨saved, enumerated, -⟩ := enumerated_of_reached run.reached
    obtain ⟨⟨_, wrong⟩, -⟩ | ⟨_, ⟨rfl, -⟩ | ⟨-, -, rfl⟩⟩ := answered
    · cases wrong
    · cases same
    · exact ⟨saved, enumerated⟩

/-- A synchronisation that fails, wherever one of its parts does and however far the others have come, has
changed no row of the series. It has stored the validators that it read, from the first one on and with
counters of zero. So the counters are still right exactly if each of these validators has a higher snapshot or
only figures of zero. -/
theorem failed_sync_counters {stop : Stop} (coherent : t.Coherent)
    (returned : Returns AnyAnswers plan context version height time t known (.error stop) w) :
    w.tables.validatorStatistics = t.validatorStatistics ∧
      ∃ saved, Fresh height 1 saved ∧
        w.tables.validators = saved.foldl (fun rows v => rows.insert (v.id, v.height) v) t.validators ∧
        (w.tables.Coherent ↔ ∀ v ∈ saved, (∃ key w, t.latest? v.id = some (key, w) ∧ height < key.2) ∨
          ∀ figure, t.latestAmount v.id figure = 0) := by
  obtain ⟨saved, enumerated⟩ := returned.enumerated
  exact ⟨enumerated.series, saved, enumerated.fresh, enumerated.validators, enumerated.coherent_iff coherent⟩

/-- A synchronisation that is completed leaves all counters right, since its last request shows the figures of
every validator that it stored. -/
theorem completed_sync_coherent {summary : SyncSummary} (coherent : t.Coherent)
    (returned : Returns AnyAnswers plan context version height time t known (.ok summary) w) :
    w.tables.Coherent := by
  generalize same : Except.ok summary = result at returned
  cases returned with
  | unknown => cases same
  | stopped => cases same
  | @closed _ ids counted sums _ before _ _ run answered =>
    obtain ⟨saved, enumerated, listed⟩ := enumerated_of_reached run.reached
    obtain rfl := listed ids _ rfl
    obtain ⟨⟨_, wrong⟩, -⟩ | ⟨_, ⟨-, rfl⟩ | ⟨stop, rfl, -⟩⟩ := answered
    · cases wrong
    · intro id figure
      by_cases read : id ∈ saved.map (·.id)
      · exact saveValidatorSnapshots_shows (List.mem_map_of_mem read) height time _ figure
      · have before_ : before.tables.ShowsLatest id figure := by
          intro key v latest
          rw [(latest?_insertAll enumerated.fresh.distinct enumerated.validators).1 id read] at latest
          rw [latestAmount_congr enumerated.series]
          exact coherent id figure key v latest
        exact before_.perform List.not_mem_nil
    · cases same

end Counters

section Half

/-- Validator 1 with a snapshot at a height, a stake of 100 and counters that show it. -/
def stakedAt (height : Nat) : Tables :=
  ((Tables.empty.saveValidator { (default : Validator) with id := 1, height }).saveValidatorStatistic
    ⟨1, height, .ofSeconds height, .totalStake, 100⟩).updateCounts 1

theorem stakedAt_coherent (height : Nat) : (stakedAt height).Coherent := by
  intro id figure
  by_cases mine : id = 1
  · subst mine
    exact updateCounts_shows _ 1 figure
  · have start : Tables.empty.ShowsLatest id figure := fun _ _ none => (nomatch none)
    apply ShowsLatest.updateCounts
    refine (start.saveValidator (Ne.symm mine)).saveStatistic fun same => mine ?_
    exact (congrArg Prod.fst same).symm

theorem latestAmount_stakedAt {height : Nat} {id : Word} (other : id ≠ 1) (figure : ValidatorFigure) :
    (stakedAt height).latestAmount id figure = 0 := by
  rw [stakedAt, updateCounts_eq]
  refine (latestAmount_saveStatistic fun same => other ?_).trans rfl
  exact (congrArg Prod.fst same).symm

/-- The world in which the store refuses some requests. -/
def refusing (chain : ChainAnswers) (refused : StoreRequest → Bool) :
    (r : PartRequest) → SyncWorld → r.Answer × SyncWorld
  | .plain (.store r), w =>
    if refused r then (.error (.failed .poolTimedOut), w) else (.ok (w.tables.perform r).1, w.perform r)
  | r, w => replying chain r w

theorem refusing_anyAnswers (chain : ChainAnswers) (refused : StoreRequest → Bool) (r : PartRequest)
    (w : SyncWorld) : AnyAnswers r w (refusing chain refused r w).1 (refusing chain refused r w).2 := by
  refine .inr ⟨chain, ?_⟩
  unfold refusing
  split
  next r =>
    split
    · exact .inr ⟨_, rfl, rfl⟩
    · exact .inl ⟨rfl, rfl⟩
  next => exact (replying_succeeds chain 0 r w).1

/-- A synchronisation at block 20 in which validator 1 is stored, then a delegation, and then the store refuses
a node while validator 2 is still to be read. -/
def halfSynced (t : Tables) : List (PartSteps PartResult) × SyncWorld :=
  let turns := List.replicate 3 0 ++ List.replicate 8 2 ++ List.replicate 3 1
  turns.foldl (advance (refusing (holding 2 2 3) fun r => match r with
    | .saveNodes _ => true
    | _ => false)) (parts ⟨2, 2⟩ holdingContracts 20 (.ofSeconds 20), .start t .empty)

theorem exists_stop {pool : List (PartSteps PartResult)}
    (failed : pool.any fun d => d.result?.any fun result => !result.isOk) :
    ∃ stop, .done (.error stop) ∈ pool := by
  obtain ⟨d, member, ended⟩ := List.any_eq_true.1 failed
  cases d with
  | ask => cases ended
  | done result =>
    cases result with
    | ok => cases ended
    | error stop => exact ⟨stop, member⟩

theorem halfSynced_returns {t : Tables}
    (failed : (halfSynced t).1.any fun d => d.result?.any fun result => !result.isOk) :
    ∃ stop, Returns AnyAnswers ⟨2, 2⟩ holdingContext ⟨"1.0.0"⟩ 20 (.ofSeconds 20) t .empty (.error stop)
      (halfSynced t).2 := by
  have found : findContracts holdingContext ⟨"1.0.0"⟩ = .ok holdingContracts := rfl
  have reached : Reached AnyAnswers (parts ⟨2, 2⟩ holdingContracts 20 (.ofSeconds 20)) (.start t .empty)
      (halfSynced t).1 (halfSynced t).2 := reached_of_turns (refusing_anyAnswers _ _) ..
  obtain ⟨stop, ended⟩ := exists_stop failed
  exact ⟨stop, .stopped found reached ended⟩

/-- The snapshot of validator 1 that is stored at block 20 stands below the one at block 30. -/
theorem failed_sync_counters_below :
    (stakedAt 30).Coherent ∧ ∃ stop, Returns AnyAnswers ⟨2, 2⟩ holdingContext ⟨"1.0.0"⟩ 20 (.ofSeconds 20)
      (stakedAt 30) .empty (.error stop) (halfSynced (stakedAt 30)).2 ∧
        (halfSynced (stakedAt 30)).2.tables.validatorStatistics = (stakedAt 30).validatorStatistics ∧
        (halfSynced (stakedAt 30)).2.tables.validators.keys = [(1, 20), (1, 30)] ∧
        (halfSynced (stakedAt 30)).2.tables.Coherent := by
  have coherent := stakedAt_coherent 30
  obtain ⟨stop, returned⟩ := halfSynced_returns (t := stakedAt 30) (by decide +kernel)
  obtain ⟨series, saved, -, -, iff⟩ := failed_sync_counters coherent returned
  have higher : ((stakedAt 30).latest? 1).map (·.1) = some (1, 30) := by decide +kernel
  refine ⟨coherent, stop, returned, series, by decide +kernel, iff.2 fun v _ => ?_⟩
  by_cases first : v.id = 1
  · obtain ⟨⟨_, w⟩, latest, rfl⟩ := Option.map_eq_some_iff.1 higher
    exact .inl ⟨(1, 30), w, first ▸ latest, by decide⟩
  · exact .inr (latestAmount_stakedAt first)

/-- With the older snapshot at block 10, the one that is stored at block 20 hides its counters. -/
theorem failed_sync_not_coherent :
    (stakedAt 10).Coherent ∧ (∃ stop, Returns AnyAnswers ⟨2, 2⟩ holdingContext ⟨"1.0.0"⟩ 20 (.ofSeconds 20)
      (stakedAt 10) .empty (.error stop) (halfSynced (stakedAt 10)).2) ∧
      ((stakedAt 10).latest? 1).map (·.2.staked) = some 100 ∧
      ((halfSynced (stakedAt 10)).2.tables.latest? 1).map (·.2.staked) = some 0 ∧
      (halfSynced (stakedAt 10)).2.tables.latestAmount 1 .totalStake = 100 ∧
      ¬ (halfSynced (stakedAt 10)).2.tables.Coherent := by
  have shown : ((halfSynced (stakedAt 10)).2.tables.latest? 1).map (·.2.staked) = some 0 := by
    decide +kernel
  have amount : (halfSynced (stakedAt 10)).2.tables.latestAmount 1 .totalStake = 100 := by decide +kernel
  refine ⟨stakedAt_coherent 10, halfSynced_returns (by decide +kernel), by decide +kernel, shown, amount,
    fun coherent => ?_⟩
  obtain ⟨⟨key, v⟩, latest, staked⟩ := Option.map_eq_some_iff.1 shown
  have same := (coherent 1 .totalStake key v latest).trans amount
  exact absurd (staked.symm.trans same) (by decide)

end Half

end EpochSync

end StakeIndex
