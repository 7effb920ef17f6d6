import StakeIndex.Proofs.Reorder
import StakeIndex.Proofs.ScrapeOutputs

/-!
The report on a scrape, whatever the order in which its programs take turns and whenever the work is called
off. What was taken from the queue and what still waits there are the logs in their order; what the workers
took, stored and delivered adds up to what all of them took, stored and delivered.
-/
namespace StakeIndex.Scraping

open Dialogue Job ScrapeSteps

section Queue

variable {all : List (Nat × RawLog)} {d : ScrapeSteps (Except Stop Unit)} {w w' : ScrapeWorld}

/-- The program that offers the logs, and the queue: what it has not offered yet comes after what is in the
queue, and after that the queue is closed. -/
inductive Feeding (all : List (Nat × RawLog)) : ScrapeSteps (Except Stop Unit) → ScrapeWorld → Prop where
  | offering {rest : List (Nat × RawLog)} {w : ScrapeWorld} : w.closed = false →
    w.taken ++ w.waiting ++ rest = all → Feeding all (.offerAll rest) w
  | ended {w : ScrapeWorld} : w.closed = true → w.taken ++ w.waiting = all → Feeding all (.done (.ok ())) w

theorem feeding_answered {r : ScrapeRequest} {next : r.Answer → ScrapeSteps (Except Stop Unit)}
    {reply : r.Answer} (feeding : Feeding all (Dialogue.ask r next) w) (answered : Answers r w reply w') :
    Feeding all (next reply) w' := by
  obtain ⟨off, -, answered⟩ := answered
  generalize same : Dialogue.ask r next = program at feeding
  cases feeding with
  | ended => cases same
  | @offering rest _ open_ order =>
    cases rest with
    | nil =>
      cases same
      cases answered
      exact .ended rfl (by simpa using order)
    | cons entry rest =>
      cases same
      obtain ⟨-, rfl, rfl⟩ | ⟨closed, -⟩ := answered
      · exact .offering open_ (by simpa using order)
      · rw [open_] at closed
        cases closed

/-- A worker moves logs from the queue to what was taken, in their order. -/
theorem queue_worker {r : ScrapeRequest} {reply : r.Answer} (asks : workerProtocol.asks r)
    (answered : Answers r w reply w') :
    w'.closed = w.closed ∧ w'.taken ++ w'.waiting = w.taken ++ w.waiting := by
  have others (none : changesQueue r = false) :
      w'.closed = w.closed ∧ w'.taken ++ w'.waiting = w.taken ++ w.waiting := by
    obtain ⟨closed, taken, waiting⟩ := (answers_frame answered).1 none
    exact ⟨closed, by rw [taken, waiting]⟩
  cases r with
  | offer => exact asks.elim
  | close => exact asks.elim
  | take heedsCancel =>
    obtain ⟨off, -, answered⟩ := answered
    cases reply with
    | none =>
      obtain ⟨-, rfl⟩ := answered
      exact ⟨rfl, rfl⟩
    | some entry =>
      obtain ⟨rest, waiting, rfl⟩ := answered
      have waiting : w.waiting = entry :: rest := waiting
      exact ⟨rfl, by simp [waiting]⟩
  | _ => exact others rfl

theorem feeding_beside {r : ScrapeRequest} {reply : r.Answer} (feeding : Feeding all d w)
    (asks : workerProtocol.asks r) (answered : Answers r w reply w') : Feeding all d w' := by
  obtain ⟨closed, order⟩ := queue_worker asks answered
  cases feeding with
  | offering open_ whole => exact .offering (closed.trans open_) (by rw [order, whole])
  | ended closed' whole => exact .ended (closed.trans closed') (order.trans whole)

/-- In the end the queue is closed, and what was taken from it are the first logs. -/
theorem queue_of_run {plan : ScrapePlan} {context : Context} {logs : List RawLog} {t : Tables}
    {off : Bool} {results : List (Except Stop Unit)}
    (run : Interleaved Answers (plan.parts context logs) (.start t off) results w) :
    ∃ rest, results = .ok () :: rest ∧ w.closed = true ∧ w.taken ++ w.waiting = numbered logs := by
  have begun : Feeding (numbered logs) (.offerAll (numbered logs)) (.start t off) := .offering rfl rfl
  obtain ⟨result, rest, rfl, feeding⟩ := run.beside (Feeding (numbered logs))
    (fun _ _ _ _ _ feeding answered => feeding_answered feeding answered)
    (fun _ _ _ _ _ feeding asks answered => feeding_beside feeding asks answered)
    (fun _ _ => trivial)
    (fun program member => ⟨_, List.eq_of_mem_replicate member ▸ obeys_worker context plan.heedsCancel _⟩)
    begun
  generalize same : (Dialogue.done result : ScrapeSteps (Except Stop Unit)) = program at feeding
  cases feeding with
  | @offering left _ _ _ =>
    cases left <;> cases same
  | ended closed whole =>
    cases same
    exact ⟨rest, rfl, closed, whole⟩

end Queue

section Accounts

/-- What an output shows to be stored. -/
def saved? (output : ScrapeOutput) : Option (Nat × ContractEvent) :=
  match output.result with
  | .ok e => some (output.order, e)
  | .error _ => none

theorem saved?_eq_some_iff {output : ScrapeOutput} {order : Nat} {e : ContractEvent} :
    saved? output = some (order, e) ↔ output.order = order ∧ output.result = .ok e := by
  unfold saved?
  cases output.result <;> simp

/-- What workers have shown amounts to some outputs. -/
structure Amounts (left : List Mark) (outputs : List ScrapeOutput) : Prop where
  sound : ∀ output ∈ outputs, Sound output
  taken : left.filterMap Mark.took? = outputs.map fun output => (output.order, output.log)
  saved : left.filterMap Mark.saved? = outputs.filterMap saved?
  delivered : left.filterMap Mark.delivered? = outputs

theorem Amounts.append {left left' : List Mark} {outputs outputs' : List ScrapeOutput}
    (first : Amounts left outputs) (second : Amounts left' outputs') :
    Amounts (left ++ left') (outputs ++ outputs') where
  sound := List.forall_mem_append.2 ⟨first.sound, second.sound⟩
  taken := by rw [List.filterMap_append, List.map_append, first.taken, second.taken]
  saved := by rw [List.filterMap_append, List.filterMap_append, first.saved, second.saved]
  delivered := by rw [List.filterMap_append, first.delivered, second.delivered]

theorem amounts_nil : Amounts [] [] := ⟨by simp, rfl, rfl, rfl⟩

theorem amounts_ended (heedsCancel : Bool) : Amounts [.ended heedsCancel] [] := ⟨by simp, rfl, rfl, rfl⟩

theorem amounts_shown {outputs : List ScrapeOutput} (sounds : ∀ output ∈ outputs, Sound output) :
    Amounts (outputs.flatMap shown) outputs := by
  induction outputs with
  | nil => exact amounts_nil
  | cons output rest ih =>
    obtain ⟨sound, sounds⟩ := List.forall_mem_cons.1 sounds
    have one : Amounts (shown output) [output] := by
      obtain ⟨order, log, result⟩ := output
      cases result <;> exact ⟨by simpa using sound, rfl, rfl, rfl⟩
    exact one.append (ih sounds)

theorem Works.amounts {heedsCancel : Bool} {rounds : Nat} {past : List (Exchange ScrapeRequest.Answer)}
    (works : Works heedsCancel rounds past (.ok ())) : ∃ outputs, Amounts (marks past) outputs ∧
      (.ended heedsCancel ∈ marks past ∨ rounds ≤ outputs.length) := by
  obtain ⟨outputs, sounds, ended | ⟨all, ended⟩⟩ := works rfl
  · have amounts := (amounts_shown sounds).append (amounts_ended heedsCancel)
    rw [List.append_nil] at amounts
    exact ⟨outputs, ended ▸ amounts, .inl (by simp [ended])⟩
  · exact ⟨outputs, ended ▸ amounts_shown sounds, .inr (by omega)⟩

/-- What several workers have shown amounts to the outputs of all of them. -/
theorem amounts_of_workers {heedsCancel : Bool} {rounds : Nat} {results : List (Except Stop Unit)}
    {contracts : List (Contract ScrapeRequest.Answer (Except Stop Unit))}
    (promised : ∀ c ∈ contracts, c.promise = Works heedsCancel rounds)
    (fulfilled : results.Forall₂ (fun result c => c.promise c.past result) contracts)
    (well : ∀ result ∈ results, result = .ok ()) :
    ∃ outputs, Amounts (marks (contracts.flatMap (·.past))) outputs ∧
      (contracts = [] ∨ .ended heedsCancel ∈ marks (contracts.flatMap (·.past)) ∨
        rounds ≤ outputs.length) := by
  induction fulfilled with
  | nil => exact ⟨[], amounts_nil, .inl rfl⟩
  | @cons result c results contracts works _ ih =>
    obtain ⟨mine, others⟩ := List.forall_mem_cons.1 promised
    obtain ⟨rfl, rest⟩ := List.forall_mem_cons.1 well
    obtain ⟨outputs, amounts, -⟩ := ih others rest
    rw [mine] at works
    obtain ⟨outputs', amounts', ended⟩ := Works.amounts works
    rw [List.flatMap_cons, marks_append]
    refine ⟨outputs' ++ outputs, amounts'.append amounts, .inr (ended.imp ?_ ?_)⟩
    · intro ended
      exact List.mem_append_left _ ended
    · intro all
      rw [List.length_append]
      omega

end Accounts

section Ends

/-- What the programs of a scrape may ask. -/
def scrapeProtocol : Protocol ScrapeRequest.Answer where
  asks
    | .handling _ (.store r) => HandlerMay r ∨ ∃ e, r = .saveContractEvent e
    | _ => True
  replies _ _ := True

theorem asks_of_worker (r : ScrapeRequest) (asks : workerProtocol.asks r) : scrapeProtocol.asks r := by
  cases r with
  | handling order r =>
    cases r with
    | store r => exact asks
    | chain => trivial
    | shared => trivial
  | _ => trivial

theorem obeys_offerAll (entries : List (Nat × RawLog)) :
    (offerAll entries).Obeys scrapeProtocol fun past _ => marks past = [] := by
  induction entries with
  | nil => exact ⟨trivial, fun _ _ => rfl⟩
  | cons entry rest ih =>
    refine ⟨trivial, fun accepted _ => ?_⟩
    cases accepted with
    | true => exact ih
    | false => exact ⟨trivial, fun _ _ => rfl⟩

/-- The events that are stored, without their numbers. -/
def eventRows (t : Tables) : Table (Hash × Nat) ContractEvent :=
  t.contractEvents.map fun _ => ContractEvent.unnumbered

/-- Rows of events, each under its transaction and place. -/
def withEvents (rows : Table (Hash × Nat) ContractEvent) (events : List ContractEvent) :
    Table (Hash × Nat) ContractEvent :=
  events.foldl (fun rows e => rows.insert (e.txHash, e.logIndex) e) rows

/-- The store has the settings of before, and the events of before and those that were stored since. -/
structure Stores (t : Tables) (w : ScrapeWorld) : Prop where
  settings : w.tables.settings = t.settings
  events : eventRows w.tables = withEvents (eventRows t) (w.saved.map (·.2.unnumbered))

theorem Stores.perform {t : Tables} {w : ScrapeWorld} (stores : Stores t w) {r : StoreRequest}
    (may : HandlerMay r ∨ ∃ e, r = .saveContractEvent e) (order : Nat) :
    Stores t (w.perform order r) := by
  rcases may with may | ⟨e, rfl⟩
  · obtain ⟨events, settings⟩ := may.frame w.tables
    have nothing : ScrapeWorld.event? r = none := by cases may <;> rfl
    constructor
    · exact settings.trans stores.settings
    · have same : eventRows (w.tables.perform r).2 = eventRows w.tables :=
        congrArg (·.map fun _ => ContractEvent.unnumbered) events
      simp only [ScrapeWorld.perform, nothing, Option.toList_none, List.map_nil, List.append_nil]
      exact same.trans stores.events
  · constructor
    · refine Eq.trans ?_ stores.settings
      change (w.tables.saveContractEvent e).settings = _
      unfold Tables.saveContractEvent
      dsimp only
      split <;> rfl
    · have put := Tables.contractEvents_saveContractEvent (t := w.tables) e
      have before : eventRows w.tables = _ := stores.events
      unfold eventRows at before
      rw [before] at put
      simp only [ScrapeWorld.perform, ScrapeWorld.event?, Option.toList_some, List.map_append,
        List.map_cons, List.map_nil, withEvents, List.foldl_append]
      exact put

theorem stores_serves (t : Tables) : Serves Answers (Stores t) scrapeProtocol := by
  intro r w reply w' stores may answered
  refine ⟨trivial, ?_⟩
  have others (none : changesStore r = false) : Stores t w' := by
    obtain ⟨tables, saved⟩ := (answers_frame answered).2 none
    constructor
    · rw [tables, stores.settings]
    · rw [tables, saved, stores.events]
  cases r with
  | handling order r =>
    cases r with
    | store r =>
      obtain ⟨off, -, ⟨-, rfl⟩ | ⟨-, -, rfl⟩⟩ := answered
      · have called : Stores t { w with calledOff := off } := ⟨stores.settings, stores.events⟩
        exact called.perform may order
      · exact ⟨stores.settings, stores.events⟩
    | _ => exact others rfl
  | _ => exact others rfl

/-- What a scrape that lost no worker comes to. Each log that was taken has one output, and the events that
were stored are those of the outputs. A log waits only if the work was called off. -/
structure Ended (heedsCancel : Bool) (logs : List RawLog) (t : Tables) (w : ScrapeWorld) : Prop where
  sound : ∀ output ∈ w.delivered, Sound output
  taken : w.taken.Perm (w.delivered.map fun output => (output.order, output.log))
  saved : w.saved.Perm (w.delivered.filterMap saved?)
  queue : w.taken ++ w.waiting = numbered logs
  waiting : w.waiting = [] ∨ heedsCancel = true ∧ w.calledOff = true
  stores : Stores t w

theorem parts_obey (plan : ScrapePlan) (context : Context) (logs : List RawLog) :
    (plan.parts context logs).Forall₂ (fun d promise => d.Obeys scrapeProtocol promise)
      ((fun past _ => marks past = []) :: List.replicate (plan.crew logs.length)
        (Works plan.heedsCancel (logs.length + 1))) := by
  refine .cons (obeys_offerAll _) ?_
  have worker := (obeys_worker context plan.heedsCancel (logs.length + 1)).widen asks_of_worker
    fun _ _ _ => trivial
  induction plan.crew logs.length with
  | zero => exact .nil
  | succ n ih => exact .cons worker ih

/-- Whether workers are lost or not, only the events that were stored have changed. -/
theorem stores_of_run {plan : ScrapePlan} {context : Context} {logs : List RawLog} {t : Tables}
    {off : Bool} {results : List (Except Stop Unit)} {w : ScrapeWorld}
    (run : Interleaved Answers (plan.parts context logs) (.start t off) results w) : Stores t w := by
  obtain ⟨-, -, -, -, -, -, -, stores⟩ :=
    run.fulfils (stores_serves t) (parts_obey plan context logs) ⟨rfl, rfl⟩
  exact stores

theorem isOk_of_lostWorkers {results : List (Except Stop Unit)} (none : lostWorkers results = 0) :
    ∀ result ∈ results, result = .ok () := by
  intro result member
  have ok := List.countP_eq_zero.1 none result member
  cases result with
  | ok => rfl
  | error stop => exact absurd rfl ok

theorem ended_of_run {plan : ScrapePlan} {context : Context} {logs : List RawLog} {t : Tables}
    {off : Bool} {results : List (Except Stop Unit)} {w : ScrapeWorld}
    (run : Interleaved Answers (plan.parts context logs) (.start t off) results w)
    (none : lostWorkers results = 0) : Ended plan.heedsCancel logs t w := by
  obtain ⟨workers, rfl, -, queue⟩ := queue_of_run run
  obtain ⟨merged, contracts, promises, fulfilled, order, along, -, stores⟩ :=
    run.fulfils (stores_serves t) (parts_obey plan context logs) ⟨rfl, rfl⟩
  cases fulfilled with
  | @cons _ first _ rest offers fulfilled =>
  obtain ⟨promise, promises⟩ := List.cons.inj promises
  change first.promise = _ at promise
  rw [promise] at offers
  obtain ⟨count, promised⟩ := List.eq_replicate_iff.1 promises
  rw [List.length_map] at count
  rw [List.forall_mem_map] at promised
  have well := (List.forall_mem_cons.1 (isOk_of_lostWorkers none)).2
  obtain ⟨outputs, amounts, ended⟩ := amounts_of_workers promised fulfilled well
  have marked : (marks merged).Perm (marks (rest.flatMap (·.past))) := by
    have all := order.filterMap mark?
    rw [List.flatMap_cons] at all
    rwa [← marks, ← marks, marks_append, offers, List.nil_append] at all
  have leaves := along_leaves along
  have taken : w.taken.Perm (outputs.map fun output => (output.order, output.log)) := by
    rw [leaves.taken, ← amounts.taken]
    exact marked.filterMap Mark.took?
  have saved : w.saved.Perm (outputs.filterMap saved?) := by
    rw [leaves.saved, ← amounts.saved]
    exact marked.filterMap Mark.saved?
  have delivered : w.delivered.Perm outputs := by
    rw [leaves.delivered]
    exact (marked.filterMap Mark.delivered?).trans (by rw [amounts.delivered])
  refine ⟨?_, ?_, ?_, queue, ?_, stores⟩
  · intro output member
    exact amounts.sound output (delivered.mem_iff.1 member)
  · exact taken.trans (delivered.map _).symm
  · exact saved.trans (delivered.filterMap _).symm
  · rcases ended with rfl | ended | enough
    · -- There is no worker only where there is no log.
      have total : logs.length = 0 := by
        simp only [ScrapePlan.crew, List.length_nil] at count
        omega
      have nothing : numbered logs = [] := by simp [numbered, total]
      rw [nothing] at queue
      exact .inl (List.append_eq_nil_iff.1 queue).2
    · exact (leaves.ended _ (marked.mem_iff.2 ended)).imp_left And.left
    · -- No worker goes through all its rounds, as there are fewer logs.
      have few := congrArg List.length queue
      have same := taken.length_eq
      rw [List.length_append, numbered, List.length_zip, List.length_range, Nat.min_self] at few
      rw [List.length_map] at same
      omega

end Ends

end StakeIndex.Scraping
