import StakeIndex.Proofs.HeightFrame
import StakeIndex.Proofs.ScrapeCompleteness
import StakeIndex.Proofs.Traces

/-!
Sessions: logs are handled, one by one or by the programs of a scrape, and epochs are synchronised, in any
order and with failures anywhere. What may be heard of the chain is left open, and each deed is told by what
it has performed on the store, for which log, and which events it returned. A code says what may be asked of
the store and what holds of the tables. Where the handling of a log and the reading of a delegation keep to
it, so does every session.
-/
namespace StakeIndex

open Dialogue Job

namespace Dialogue

variable {Request : Type} {Answer : Request → Type} {α σ : Type}

/-- A world in which all exchanges are written down. -/
def Recording (allows : (r : Request) → σ → Answer r → σ → Prop) (r : Request)
    (s : σ × List (Exchange Answer)) (reply : Answer r) (s' : σ × List (Exchange Answer)) : Prop :=
  allows r s.1 reply s'.1 ∧ s'.2 = s.2 ++ [⟨r, reply⟩]

section Invariants

variable {allows : (r : Request) → σ → Answer r → σ → Prop} (holds : σ → Prop) {s s' : σ}
  (step : ∀ r s reply s', holds s → allows r s reply s' → holds s')
include step

theorem Runs.invariant {d : Dialogue Request Answer α} {a : α} (run : Runs allows d s a s')
    (start : holds s) : holds s' := by
  induction run with
  | done => exact start
  | ask answered _ ih => exact ih (step _ _ _ _ start answered)

theorem Reached.invariant {pool pool' : List (Dialogue Request Answer α)}
    (reached : Reached allows pool s pool' s') (start : holds s) : holds s' := by
  induction reached with
  | start => exact start
  | ask answered _ ih => exact ih (step _ _ _ _ start answered)

end Invariants

end Dialogue

/-- What may be heard of the chain. -/
abbrev Hearsay := (r : ChainRequest) → Except ChainFault r.Result → Prop

namespace Hearsay

variable (heard : Hearsay)

/-- The chain says what may be heard, or fails. -/
def Admits : (r : Request) → r.Answer → Prop
  | .chain r, reply => heard r reply ∨ ∃ fault, reply = .error fault
  | _, _ => True

def AdmitsHandling : (r : ScrapeRequest) → r.Answer → Prop
  | .handling _ r, reply => heard.Admits r reply
  | _, _ => True

def AdmitsPart : (r : PartRequest) → r.Answer → Prop
  | .plain r, reply => heard.Admits r reply
  | _, _ => True

/-- A world without a state, in which only this is heard. -/
def Hears (r : Request) (_ : Unit) (reply : r.Answer) (_ : Unit) : Prop := heard.Admits r reply

/-- The replies to a job. The store may fail at any moment. -/
def Working (r : Request) (t : Tables) (reply : r.Answer) (t' : Tables) : Prop :=
  AnyAnswer r t reply t' ∧ heard.Admits r reply

/-- The replies to the programs of a scrape. -/
def Scraping (r : ScrapeRequest) (w : ScrapeWorld) (reply : r.Answer) (w' : ScrapeWorld) : Prop :=
  Scraping.Answers r w reply w' ∧ heard.AdmitsHandling r reply

/-- The replies to the parts of a synchronisation. -/
def Synchronising (r : PartRequest) (w : SyncWorld) (reply : r.Answer) (w' : SyncWorld) : Prop :=
  AnyAnswers r w reply w' ∧ heard.AdmitsPart r reply

end Hearsay

/-- What was done: at which heights, what was performed on the store and for which log, and which events were
returned. -/
structure Deed where
  heights : List Nat
  performed : List (Option RawLog × StoreRequest)
  events : List ContractEvent

theorem eq_ok_of_toOption {ε α : Type} {result : Except ε α} {a : α} (some_ : result.toOption = some a) :
    result = .ok a := by
  cases result <;> cases some_
  rfl

namespace Deed

/-- The requests that were performed, in their order. -/
def calls (deed : Deed) : List StoreRequest := deed.performed.map (·.2)

/-- The request that the store has performed in an exchange. -/
def stored? : Exchange Request.Answer → Option StoreRequest
  | ⟨.store r, .ok _⟩ => some r
  | _ => none

/-- The same in an exchange of a program of a scrape, with the place of the log. -/
def handled? : Exchange ScrapeRequest.Answer → Option (Nat × StoreRequest)
  | ⟨.handling order (.store r), .ok _⟩ => some (order, r)
  | _ => none

/-- A log was handled, which came to some result. -/
def ofLog (log : RawLog) (past : List (Exchange Request.Answer))
    (result : Except Stop ContractEvent × HeaderCache) : Deed where
  heights := [log.height]
  performed := (past.filterMap stored?).map fun r => (some log, r)
  events := result.1.toOption.toList

/-- Some logs were scraped, up to some moment. -/
def ofScrape (logs : List RawLog) (past : List (Exchange ScrapeRequest.Answer)) (w : ScrapeWorld) : Deed where
  heights := logs.map (·.height)
  performed := (past.filterMap handled?).map fun (order, r) => (logs[order]?, r)
  events := w.delivered.filterMap (·.result.toOption)

/-- An epoch was synchronised. -/
def ofSync (height : Nat) (w : SyncWorld) : Deed where
  heights := [height]
  performed := w.written.map fun r => (none, r)
  events := []

end Deed

section Sessions

variable (heard : Hearsay) (context : Context)

/-- A deed, and the tables before and after it. A scrape may be cut at any moment, and any request may
fail. -/
inductive Acts : Tables → Deed → Tables → Prop where
  | dispatched {cache : HeaderCache} {log : RawLog} {t t' : Tables}
    {result : Except Stop ContractEvent × HeaderCache} {past : List (Exchange Request.Answer)} :
    Runs (Recording heard.Working) (dispatch context cache log) (t, []) result (t', past) →
    Acts t (.ofLog log past result) t'
  | processed {cache : HeaderCache} {log : RawLog} {t t' : Tables}
    {result : Except Stop ContractEvent × HeaderCache} {past : List (Exchange Request.Answer)} :
    Runs (Recording heard.Working) (process context cache log) (t, []) result (t', past) →
    Acts t (.ofLog log past result) t'
  | scraped {plan : ScrapePlan} {logs : List RawLog} {headers : HeaderCache} {off : Bool} {t : Tables}
    {pool : List (ScrapeSteps (Except Stop Unit))} {w : ScrapeWorld}
    {past : List (Exchange ScrapeRequest.Answer)} :
    Reached (Recording heard.Scraping) (plan.parts context logs)
      ({ ScrapeWorld.start t off with headers }, []) pool (w, past) →
    Acts t (.ofScrape logs past w) w.tables
  | synchronised {plan : SyncPlan} {version : Version} {height : Nat} {time : Instant}
    {known : DelegationCache} {t : Tables} {result : Except Stop SyncSummary} {w : SyncWorld} :
    EpochSync.Returns heard.Synchronising plan context version height time t known result w →
    Acts t (.ofSync height w) w.tables

/-- Deeds one after another. -/
inductive Session : Tables → List Deed → Tables → Prop where
  | nil (t : Tables) : Session t [] t
  | cons {deed : Deed} {deeds : List Deed} {t t' t'' : Tables} : Acts heard context t deed t' →
    Session t' deeds t'' → Session t (deed :: deeds) t''

end Sessions

theorem Session.append {heard : Hearsay} {context : Context} {t t' t'' : Tables} {deeds deeds' : List Deed}
    (session : Session heard context t deeds t') (session' : Session heard context t' deeds' t'') :
    Session heard context t (deeds ++ deeds') t'' := by
  induction session with
  | nil => exact session'
  | cons acts _ ih => exact .cons acts (ih session')

section Performed

variable {heard : Hearsay} {context : Context} {t t' : Tables}

theorem EpochSync.Returns.invariant {allows : (r : PartRequest) → SyncWorld → r.Answer → SyncWorld → Prop}
    {plan : SyncPlan} {version : Version} {height : Nat} {time : Instant} {known : DelegationCache}
    {result : Except Stop SyncSummary} {w : SyncWorld} (holds : SyncWorld → Prop)
    (step : ∀ r w reply w', holds w → allows r w reply w' → holds w')
    (returned : Returns allows plan context version height time t known result w)
    (start : holds (.start t known)) : holds w := by
  cases returned with
  | unknown => exact start
  | stopped _ reached => exact reached.invariant holds step start
  | closed _ run answered => exact step _ _ _ _ (run.reached.invariant holds step start) answered

theorem performed_stored {r : Request} {reply : r.Answer} {s s' : Tables} (answered : AnyAnswer r s reply s') :
    s' = s.performAll ([⟨r, reply⟩].filterMap Deed.stored?) := by
  cases r with
  | chain | shared =>
    cases answered
    rfl
  | store r => obtain ⟨rfl, rfl⟩ | ⟨stop, rfl, rfl⟩ := answered <;> rfl

theorem performed_handled {r : ScrapeRequest} {reply : r.Answer} {w w' : ScrapeWorld}
    (answered : Scraping.Answers r w reply w') :
    w'.tables = w.tables.performAll (([⟨r, reply⟩].filterMap Deed.handled?).map (·.2)) := by
  have others (still : Scraping.changesStore r = false)
      (nothing : [⟨r, reply⟩].filterMap Deed.handled? = []) :
      w'.tables = w.tables.performAll (([⟨r, reply⟩].filterMap Deed.handled?).map (·.2)) := by
    rw [nothing]
    exact ((Scraping.answers_frame answered).2 still).1
  cases r with
  | handling order r =>
    cases r with
    | store r => obtain ⟨off, -, ⟨rfl, rfl⟩ | ⟨stop, rfl, rfl⟩⟩ := answered <;> rfl
    | chain | shared => exact others rfl rfl
  | _ => exact others rfl rfl

theorem performed_written {r : PartRequest} {reply : r.Answer} {w w' : SyncWorld}
    (answered : AnyAnswers r w reply w') (before : w.tables = t.performAll w.written) :
    w'.tables = t.performAll w'.written := by
  obtain ⟨-, rfl⟩ | ⟨chain, answered⟩ := answered
  · exact before
  cases r with
  | plain r =>
    cases r with
    | store r =>
      obtain ⟨-, rfl⟩ | ⟨-, -, rfl⟩ := answered
      · simp [SyncWorld.perform, before]
      · exact before
    | chain r =>
      obtain ⟨-, rfl⟩ := answered
      exact before
    | shared r =>
      cases r with
      | knownDelegation id =>
        obtain ⟨-, rfl⟩ := answered
        exact before
      | _ =>
        cases answered
        exact before
  | claimBatch =>
    obtain ⟨-, rfl⟩ := answered
    exact before
  | isExhausted =>
    obtain ⟨-, rfl⟩ := answered
    exact before
  | exhaust =>
    cases answered
    exact before

/-- A deed does to the tables what it has performed, and nothing else. -/
theorem Acts.tables {deed : Deed} (acts : Acts heard context t deed t') : t' = t.performAll deed.calls := by
  have ofLog {d : Steps (Except Stop ContractEvent × HeaderCache)} {log : RawLog} {s' : Tables}
      {result : Except Stop ContractEvent × HeaderCache} {past : List (Exchange Request.Answer)}
      (run : Runs (Recording heard.Working) d (t, []) result (s', past)) :
      s' = t.performAll (Deed.ofLog log past result).calls := by
    have performed : s' = t.performAll (past.filterMap Deed.stored?) := by
      refine run.invariant (fun s => s.1 = t.performAll (s.2.filterMap Deed.stored?)) ?_ rfl
      rintro r s reply s' before ⟨⟨answered, -⟩, written⟩
      rw [written, List.filterMap_append, Tables.performAll_append, ← before]
      exact performed_stored answered
    rw [performed, Deed.calls, Deed.ofLog, List.map_map]
    exact congrArg _ (List.map_id _).symm
  -- Each world writes down what it performs, so its tables are those after what was written.
  cases acts with
  | dispatched run => exact ofLog run
  | processed run => exact ofLog run
  | @scraped plan logs headers off _ pool w past reached =>
    have performed : w.tables = t.performAll ((past.filterMap Deed.handled?).map (·.2)) := by
      refine reached.invariant (fun s => s.1.tables = t.performAll ((s.2.filterMap Deed.handled?).map (·.2)))
        ?_ rfl
      rintro r s reply s' before ⟨⟨answered, -⟩, written⟩
      rw [written, List.filterMap_append, List.map_append, Tables.performAll_append, ← before]
      exact performed_handled answered
    rw [performed, Deed.calls, Deed.ofScrape, List.map_map]
    rfl
  | @synchronised plan version height time known _ result w returned =>
    have performed : w.tables = t.performAll w.written :=
      returned.invariant (fun w => w.tables = t.performAll w.written)
        (fun _ _ _ _ before answered => performed_written answered.1 before) rfl
    rw [Deed.calls, Deed.ofSync, List.map_map]
    exact performed.trans (congrArg _ (List.map_id _).symm)

theorem Session.tables {deeds : List Deed} (session : Session heard context t deeds t') :
    t' = t.performAll (deeds.flatMap Deed.calls) := by
  induction session with
  | nil => rfl
  | cons acts _ ih => rw [ih, acts.tables, List.flatMap_cons, Tables.performAll_append]

end Performed

/-- What work may ask of the store, for a log or else for a synchronisation, what holds of the tables
meanwhile, and which events it may return. -/
structure Code where
  holds : Tables → Prop
  may : Option RawLog → StoreRequest → Prop
  returns : ContractEvent → Prop

namespace Code

variable (code : Code) (heard : Hearsay)

/-- The store answers from tables of which the code holds, and synchronisations keep each delegation under
its id. -/
def Comes (origin : Option RawLog) : (r : Request) → r.Answer → Prop
  | .store r, .ok a => ∃ t, code.holds t ∧ a = (t.perform r).1
  | .shared (.knownDelegation id), kept => origin = none → ∀ d, kept = some d → d.id = id
  | _, _ => True

/-- Jobs that work for a log or for a synchronisation. -/
def working (origin : Option RawLog) : Protocol Request.Answer where
  asks := storeMay (code.may origin)
  replies r reply := heard.Admits r reply ∧ code.Comes origin r reply

/-- Programs that scrape some logs. -/
def scraping (logs : List RawLog) : Protocol ScrapeRequest.Answer where
  asks
    | .offer order log => logs[order]? = some log
    | .handling order r => ∃ log, logs[order]? = some log ∧ storeMay (code.may (some log)) r
    | .deliver output => ∀ e, output.result = .ok e → code.returns e
    | _ => True
  replies
    | .take _, some e => logs[e.1]? = some e.2
    | .handling order r, reply => heard.Admits r reply ∧ code.Comes logs[order]? r reply
    | _, _ => True

/-- Parts of a synchronisation. -/
def synchronising : Protocol PartRequest.Answer where
  asks
    | .plain r => storeMay (code.may none) r
    | _ => True
  replies
    | .plain r, reply => heard.Admits r reply ∧ code.Comes none r reply
    | _, _ => True

/-- A job that keeps to the code, and all of whose results have a property. -/
abbrev Conforms {α : Type} (origin : Option RawLog) (job : Job α) (holds : α → Prop) : Prop :=
  job.run.Obeys (code.working heard origin) fun _ result => ∀ a, result = .ok a → holds a

/-- The code governs what is done at some heights: what may be asked keeps what holds, and what handles a
log or reads a delegation at such a height keeps to the code. -/
structure Governs (context : Context) (among : Nat → Prop) : Prop where
  keeps : ∀ origin r, code.may origin r → ∀ t, code.holds t → code.holds (t.perform r).2
  handles : ∀ binding header log, context.registry.atAddress? log.address = some binding → among log.height →
    code.Conforms heard (some log) (handleLog context binding header log) fun e =>
      code.returns e ∧ code.may (some log) (.saveContractEvent e)
  reads : ∀ version c id height, EpochSync.findContracts context version = .ok c → among height →
    code.Conforms heard none (EpochSync.delegation c.controller id height) fun d =>
      code.may none (.saveDelegation d)
  stores : ∀ r, SyncMay r → (∀ d, r ≠ .saveDelegation d) → code.may none r

variable {code heard}

section Jobs

variable {α β : Type} {origin : Option RawLog} {job : Job α} {holds : α → Prop} {allowed : StoreRequest → Prop}

/-- A program whose requests may all be made keeps to the code, and comes to a result that could be heard
anywhere. -/
theorem obeys_hearing {ρ : Type} {holds : ρ → Prop} {steps : Steps ρ} (asks : Asks allowed holds steps)
    (may : ∀ r, allowed r → code.may origin r) : steps.Obeys (code.working heard origin) fun _ result =>
      holds result ∧ Runs heard.Hears steps () result () := by
  induction asks with
  | done h => exact ⟨h, .done _ _⟩
  | chain _ ih => exact ⟨trivial, fun reply kept => (ih reply).mono fun _ _ ⟨h, run⟩ => ⟨h, .ask kept.1 run⟩⟩
  | shared _ ih => exact ⟨trivial, fun reply kept => (ih reply).mono fun _ _ ⟨h, run⟩ => ⟨h, .ask kept.1 run⟩⟩
  | store allowed _ ih =>
    exact ⟨may _ allowed, fun reply kept => (ih reply).mono fun _ _ ⟨h, run⟩ => ⟨h, .ask kept.1 run⟩⟩

theorem obeys_of_asks {ρ : Type} {holds : ρ → Prop} {steps : Steps ρ} (asks : Asks allowed holds steps)
    (may : ∀ r, allowed r → code.may origin r) :
    steps.Obeys (code.working heard origin) fun _ result => holds result :=
  (obeys_hearing asks may).mono fun _ _ => And.left

theorem conforms_of_within (within : Within allowed job holds) (may : ∀ r, allowed r → code.may origin r) :
    code.Conforms heard origin job holds := obeys_of_asks within may

theorem conforms_consults (consults : Consults job holds) : code.Conforms heard origin job holds :=
  conforms_of_within consults fun _ => False.elim

theorem conforms_pure {a : α} (h : holds a) : code.Conforms heard origin (pure a) holds := by
  rintro b ⟨⟩
  exact h

theorem Conforms.mono {holds' : α → Prop} (conforms : code.Conforms heard origin job holds)
    (implies : ∀ a, holds a → holds' a) : code.Conforms heard origin job holds' :=
  Obeys.mono conforms fun _ _ good a same => implies a (good a same)

theorem Conforms.bind {f : α → Job β} {holds' : β → Prop} (first : code.Conforms heard origin job holds)
    (next : ∀ a, holds a → code.Conforms heard origin (f a) holds') :
    code.Conforms heard origin (job >>= f) holds' :=
  Obeys.bind_except first (fun _ a good => next a (good a rfl)) fun _ _ _ _ wrong => (nomatch wrong)

/-- The store answers from tables of which the code holds. -/
theorem conforms_store {r : StoreRequest} (may : code.may origin r) :
    code.Conforms heard origin (store r) fun a => ∃ t, code.holds t ∧ a = (t.perform r).1 := by
  refine ⟨may, fun reply ⟨_, comes⟩ => ?_⟩
  rintro a rfl
  exact comes

/-- What holds of all results of a job holds of what there is, where an empty answer means that there is
nothing. -/
theorem Conforms.ifAny (conforms : code.Conforms heard origin job holds) :
    code.Conforms heard origin job.ifAny fun found => ∀ a, found = some a → holds a := by
  refine Obeys.bind conforms fun _ result good => ?_
  split
  next a =>
    rintro found ⟨⟩ b ⟨⟩
    exact good a rfl
  next =>
    rintro found ⟨⟩ b wrong
    cases wrong
  next => exact fun _ wrong => (nomatch wrong)

end Jobs

variable {context : Context} {among : Nat → Prop} (governs : code.Governs heard context among)
include governs

section Logs

variable {log : RawLog} (eligible : among log.height)
include eligible

theorem obeys_dispatch (cache : HeaderCache) :
    (dispatch context cache log).Obeys (code.working heard (some log)) fun _ result =>
      ∀ e, result.1 = .ok e → code.returns e ∧ code.may (some log) (.saveContractEvent e) := by
  unfold dispatch
  cases known : context.registry.atAddress? log.address with
  | none => exact fun _ wrong => (nomatch wrong)
  | some binding =>
    have fetched : (cache.fetch log.height).Obeys (code.working heard (some log)) fun _ _ => True :=
      obeys_of_asks (fetch_asks cache log.height) fun _ => False.elim
    refine Obeys.bind fetched fun _ dated _ => ?_
    obtain ⟨header, cache⟩ := dated
    cases header with
    | error stop => exact fun _ wrong => (nomatch wrong)
    | ok header => exact Obeys.bind (governs.handles binding header log known eligible) fun _ _ good => good

theorem obeys_process (cache : HeaderCache) :
    (process context cache log).Obeys (code.working heard (some log)) fun _ result =>
      ∀ e, result.1 = .ok e → code.returns e := by
  unfold process
  refine (obeys_dispatch governs eligible cache).bind fun _ dispatched good => ?_
  obtain ⟨result, cache⟩ := dispatched
  cases result with
  | error stop => exact fun _ wrong => (nomatch wrong)
  | ok event =>
    obtain ⟨returns, may⟩ := good event rfl
    refine ⟨may, fun reply _ => ?_⟩
    cases reply with
    | error stop => exact fun _ wrong => (nomatch wrong)
    | ok a => exact fun e same => by cases same; exact returns

theorem conforms_recordLog {binding : Binding} (known : context.registry.atAddress? log.address = some binding)
    (header : BlockHeader) :
    code.Conforms heard (some log) (recordLog context binding header log) code.returns := by
  unfold recordLog
  refine (governs.handles binding header log known eligible).bind fun event ⟨returns, may⟩ => ?_
  exact (conforms_store may).bind fun _ _ => conforms_pure returns

end Logs

section Scrapes

variable {logs : List RawLog}

omit governs in
theorem obeys_handling {α : Type} {order : Nat} {log : RawLog} (place : logs[order]? = some log)
    {holds : α → Prop} {steps : Steps α}
    (obeys : steps.Obeys (code.working heard (some log)) fun _ a => holds a) :
    (ScrapeSteps.handling order steps).Obeys (code.scraping heard logs) fun _ a => holds a := by
  refine Obeys.mapRequests (fun r may => ?_) obeys
  refine ⟨⟨log, place, may⟩, fun reply ⟨admitted, comes⟩ => ?_⟩
  rw [place] at comes
  exact ⟨admitted, comes⟩

omit governs in
theorem obeys_offerAll {entries : List (Nat × RawLog)} (among : ∀ e ∈ entries, logs[e.1]? = some e.2) :
    (ScrapeSteps.offerAll entries).Obeys (code.scraping heard logs) fun _ _ => True := by
  induction entries with
  | nil => exact ⟨trivial, fun _ _ => trivial⟩
  | cons entry rest ih =>
    obtain ⟨first, others⟩ := List.forall_mem_cons.1 among
    refine ⟨first, fun accepted _ => ?_⟩
    cases accepted with
    | true => exact ih others
    | false => exact ⟨trivial, fun _ _ => trivial⟩

theorem obeys_handle {order : Nat} {log : RawLog} (place : logs[order]? = some log)
    (eligible : among log.height) : (ScrapeSteps.handle context order log).Obeys (code.scraping heard logs)
      fun _ result => ∀ e, result = .ok e → code.returns e := by
  unfold ScrapeSteps.handle
  cases known : context.registry.atAddress? log.address with
  | none => exact fun _ wrong => (nomatch wrong)
  | some binding =>
    have dated : (ScrapeSteps.header order log.height).Obeys (code.scraping heard logs) fun _ _ => True := by
      refine ⟨trivial, fun kept _ => ?_⟩
      cases kept with
      | some header => trivial
      | none =>
        have asked : (Job.header log.height).outcome.Obeys (code.working heard (some log)) fun _ _ => True :=
          ⟨trivial, fun _ _ => trivial⟩
        refine (obeys_handling place asked).bind fun _ result _ => ?_
        cases result with
        | error stop => trivial
        | ok header => exact ⟨trivial, fun _ _ => trivial⟩
    refine dated.bind fun _ result _ => ?_
    cases result with
    | error stop => exact fun _ wrong => (nomatch wrong)
    | ok header => exact obeys_handling place (conforms_recordLog governs eligible known header)

theorem obeys_worker (eligible : ∀ log ∈ logs, among log.height) (heedsCancel : Bool) (rounds : Nat) :
    (ScrapeSteps.worker context heedsCancel rounds).Obeys (code.scraping heard logs) fun _ _ => True := by
  induction rounds with
  | zero => trivial
  | succ rounds ih =>
    unfold ScrapeSteps.worker
    have stops : (ScrapeSteps.stops heedsCancel).Obeys (code.scraping heard logs) fun _ _ => True := by
      cases heedsCancel with
      | false => trivial
      | true => exact ⟨trivial, fun _ _ => trivial⟩
    refine stops.bind fun _ stopped _ => ?_
    cases stopped with
    | true => trivial
    | false =>
      refine ⟨trivial, fun taken place => ?_⟩
      rcases taken with _ | ⟨order, log⟩
      · trivial
      have place : logs[order]? = some log := place
      refine (obeys_handle governs place (eligible log (List.mem_of_getElem? place))).bind
        fun _ result good => ?_
      rcases result with (failure | _) | event
      · exact ⟨fun _ wrong => (by cases wrong), fun _ _ => ih⟩
      · trivial
      · exact ⟨fun e same => by cases same; exact good event rfl, fun _ _ => ih⟩

theorem obeys_scrape (eligible : ∀ log ∈ logs, among log.height) (plan : ScrapePlan) :
    (plan.parts context logs).Forall₂ (fun d promise => d.Obeys (code.scraping heard logs) promise)
      (List.replicate (plan.crew logs.length + 1) fun _ _ => True) := by
  refine .cons (obeys_offerAll fun e member => Scraping.mem_numbered.1 member) ?_
  have worker := obeys_worker governs eligible plan.heedsCancel (logs.length + 1)
  induction plan.crew logs.length with
  | zero => exact .nil
  | succ n ih => exact .cons worker ih

end Scrapes

section Syncs

omit governs in
theorem performs_plain {α : Type} {holds : α → Prop} {job : Job α} (conforms : code.Conforms heard none job holds) :
    Performs (code.synchronising heard) (Part.plain job) holds := by
  refine Obeys.mapRequests (fun r may => ?_) conforms
  exact ⟨may, fun _ kept => kept⟩

theorem obeys_sync {version : Version} {c : SyncContracts}
    (found : EpochSync.findContracts context version = .ok c) {height : Nat} (eligible : among height)
    (plan : SyncPlan) (time : Instant) : (EpochSync.parts plan c height time).Forall₂
      (fun d promise => d.Obeys (code.synchronising heard) promise)
      (List.replicate (max plan.workers 1 + 2) fun _ result => ∀ a, result = .ok a → True) := by
  have validated := EpochSync.validators_within c.validatorService height EpochSync.allIds 1
  have noded := EpochSync.nodes_saves c.nodes height time EpochSync.allIds 1 (0, ∅)
  refine EpochSync.performs_parts ⟨trivial, trivial, trivial⟩ (performs_plain ?_) (performs_plain ?_)
    fun id => performs_plain ?_
  · exact conforms_of_within validated fun r saves => governs.stores r saves.1.may saves.2
  · exact conforms_of_within noded fun r saves => governs.stores r (.of_beside saves.1.beside) saves.2
  · exact (governs.reads version c id height found eligible).ifAny

end Syncs

section Worlds

omit governs in
/-- The handling of a log is never reminded of a delegation. -/
theorem comes_shared {log : RawLog} (r : SharedRequest) (reply : Request.Answer (.shared r)) :
    code.Comes (some log) (.shared r) reply := by
  cases r with
  | knownDelegation => exact fun wrong => (nomatch wrong)
  | _ => trivial

theorem serves_working (log : RawLog) : Serves (Recording heard.Working)
    (fun s => code.holds s.1 ∧ ∀ r ∈ s.2.filterMap Deed.stored?, code.may (some log) r)
    (code.working heard (some log)) := by
  rintro r ⟨t, past⟩ reply ⟨t', past'⟩ ⟨right, performed⟩ may ⟨⟨answered, admitted⟩, written⟩
  obtain rfl : past' = past ++ [⟨r, reply⟩] := written
  simp only [List.filterMap_append, List.forall_mem_append]
  cases r with
  | chain r =>
    cases answered
    exact ⟨⟨admitted, trivial⟩, right, performed, fun _ wrong => (nomatch wrong)⟩
  | shared r =>
    cases answered
    exact ⟨⟨admitted, comes_shared r reply⟩, right, performed, fun _ wrong => (nomatch wrong)⟩
  | store r =>
    obtain ⟨rfl, same⟩ | ⟨stop, rfl, same⟩ := answered
    · cases same
      exact ⟨⟨trivial, t, right, rfl⟩, governs.keeps _ r may t right, performed,
        List.forall_mem_singleton.2 may⟩
    · cases same
      exact ⟨⟨trivial, trivial⟩, right, performed, fun _ wrong => (nomatch wrong)⟩

/-- What holds while some logs are scraped. -/
structure Scraped (code : Code) (logs : List RawLog)
    (s : ScrapeWorld × List (Exchange ScrapeRequest.Answer)) : Prop where
  holds : code.holds s.1.tables
  waiting : ∀ e ∈ s.1.waiting, logs[e.1]? = some e.2
  delivered : ∀ output ∈ s.1.delivered, ∀ e, output.result = .ok e → code.returns e
  performed : ∀ entry ∈ s.2.filterMap Deed.handled?, code.may logs[entry.1]? entry.2

theorem serves_scraping (logs : List RawLog) : Serves (Recording heard.Scraping) (code.Scraped logs)
    (code.scraping heard logs) := by
  rintro r ⟨w, past⟩ reply ⟨w', past'⟩ ⟨right, waiting, delivered, performed⟩ may
    ⟨⟨⟨off, -, answered⟩, admitted⟩, written⟩
  obtain rfl : past' = past ++ [⟨r, reply⟩] := written
  have same (nothing : ([⟨r, reply⟩] : List (Exchange ScrapeRequest.Answer)).filterMap Deed.handled? = []) :
      ∀ entry ∈ (past ++ [(⟨r, reply⟩ : Exchange _)]).filterMap Deed.handled?, code.may logs[entry.1]? entry.2 := by
    rwa [List.filterMap_append, nothing, List.append_nil]
  cases r with
  | offer order log =>
    obtain ⟨-, rfl, rfl⟩ | ⟨-, rfl, rfl⟩ := answered
    · exact ⟨trivial, right, List.forall_mem_append.2 ⟨waiting, List.forall_mem_singleton.2 may⟩, delivered,
        same rfl⟩
    · exact ⟨trivial, right, waiting, delivered, same rfl⟩
  | close =>
    cases answered
    exact ⟨trivial, right, waiting, delivered, same rfl⟩
  | isCalledOff =>
    obtain ⟨-, rfl⟩ := answered
    exact ⟨trivial, right, waiting, delivered, same rfl⟩
  | take heedsCancel =>
    cases reply with
    | none =>
      obtain ⟨-, rfl⟩ := answered
      exact ⟨trivial, right, waiting, delivered, same rfl⟩
    | some e =>
      obtain ⟨rest, queue, rfl⟩ := answered
      have queue : w.waiting = e :: rest := queue
      rw [queue] at waiting
      obtain ⟨first, others⟩ := List.forall_mem_cons.1 waiting
      exact ⟨first, right, others, delivered, same rfl⟩
  | handling order r =>
    obtain ⟨log, place, may⟩ := may
    have comes (comes : code.Comes (some log) r reply) : code.Comes logs[order]? r reply := by rwa [place]
    cases r with
    | chain r =>
      cases answered
      exact ⟨⟨admitted, trivial⟩, right, waiting, delivered, same rfl⟩
    | shared r =>
      cases answered
      exact ⟨⟨admitted, comes (comes_shared r reply)⟩, right, waiting, delivered, same rfl⟩
    | store r =>
      obtain ⟨rfl, rfl⟩ | ⟨stop, rfl, rfl⟩ := answered
      · refine ⟨⟨trivial, w.tables, right, rfl⟩, governs.keeps _ r may _ right, waiting, delivered, ?_⟩
        rw [List.filterMap_append]
        refine List.forall_mem_append.2 ⟨performed, List.forall_mem_singleton.2 ?_⟩
        rwa [place]
      · exact ⟨⟨trivial, trivial⟩, right, waiting, delivered, same rfl⟩
  | knownHeader height =>
    obtain ⟨-, rfl⟩ := answered
    exact ⟨trivial, right, waiting, delivered, same rfl⟩
  | rememberHeader height header =>
    cases answered
    exact ⟨trivial, right, waiting, delivered, same rfl⟩
  | deliver output =>
    cases answered
    exact ⟨trivial, right, waiting, List.forall_mem_append.2 ⟨delivered, List.forall_mem_singleton.2 may⟩,
      same rfl⟩

theorem serves_synchronising : Serves heard.Synchronising
    (fun w => code.holds w.tables ∧ ∀ r ∈ w.written, code.may none r) (code.synchronising heard) := by
  rintro r w reply w' ⟨right, written⟩ may ⟨answered, admitted⟩
  obtain ⟨⟨asked, rfl⟩, rfl⟩ | ⟨chain, answered⟩ := answered
  · exact ⟨⟨admitted, trivial⟩, right, written⟩
  cases r with
  | plain r =>
    cases r with
    | chain r =>
      obtain ⟨-, rfl⟩ := answered
      exact ⟨⟨admitted, trivial⟩, right, written⟩
    | store r =>
      obtain ⟨rfl, rfl⟩ | ⟨stop, rfl, rfl⟩ := answered
      · exact ⟨⟨trivial, w.tables, right, rfl⟩, governs.keeps none r may _ right,
          List.forall_mem_append.2 ⟨written, List.forall_mem_singleton.2 may⟩⟩
      · exact ⟨⟨trivial, trivial⟩, right, written⟩
    | shared r =>
      cases r with
      | knownDelegation id =>
        obtain ⟨rfl, rfl⟩ := answered
        exact ⟨⟨admitted, fun _ => w'.known.keyed id⟩, right, written⟩
      | _ =>
        cases answered
        exact ⟨⟨admitted, trivial⟩, right, written⟩
  | claimBatch =>
    obtain ⟨-, rfl⟩ := answered
    exact ⟨trivial, right, written⟩
  | isExhausted =>
    obtain ⟨-, rfl⟩ := answered
    exact ⟨trivial, right, written⟩
  | exhaust =>
    cases answered
    exact ⟨trivial, right, written⟩

end Worlds

/-- A deed that asked of the store what the code allows, and returned such events. -/
structure Kept (code : Code) (deed : Deed) : Prop where
  performed : ∀ entry ∈ deed.performed, code.may entry.1 entry.2
  events : ∀ e ∈ deed.events, code.returns e

section Deeds

variable {t t' : Tables}

theorem Governs.returned {version : Version} {plan : SyncPlan} {height : Nat} (eligible : among height)
    {time : Instant} {known : DelegationCache} {result : Except Stop SyncSummary} {w : SyncWorld}
    (returned : EpochSync.Returns heard.Synchronising plan context version height time t known result w)
    (start : code.holds t) : code.holds w.tables ∧ ∀ r ∈ w.written, code.may none r := by
  have begun : code.holds (SyncWorld.start t known).tables ∧
      ∀ r ∈ (SyncWorld.start t known).written, code.may none r := ⟨start, fun _ wrong => (nomatch wrong)⟩
  have serves := serves_synchronising governs
  cases returned with
  | unknown => exact begun
  | stopped found reached =>
    obtain ⟨-, -, -, -, -, -, -, right⟩ :=
      reached.keeps serves (obeys_sync governs found eligible plan time) begun
    exact right
  | closed found run answered =>
    obtain ⟨-, -, -, -, -, -, -, right⟩ :=
      run.fulfils serves (obeys_sync governs found eligible plan time) begun
    exact (serves (.plain (.store _)) _ _ _ right (governs.stores _ (.figures ..) fun _ => nofun) answered).2

/-- A deed at such heights keeps to the code. -/
theorem Governs.acts {deed : Deed} (acts : Acts heard context t deed t')
    (eligible : ∀ height ∈ deed.heights, among height) (start : code.holds t) :
    code.holds t' ∧ code.Kept deed := by
  have ofLog {d : Steps (Except Stop ContractEvent × HeaderCache)} {log : RawLog} {s' : Tables}
      {result : Except Stop ContractEvent × HeaderCache} {past : List (Exchange Request.Answer)}
      (run : Runs (Recording heard.Working) d (t, []) result (s', past))
      (obeys : d.Obeys (code.working heard (some log)) fun _ result =>
        ∀ e, result.1 = .ok e → code.returns e) :
      code.holds s' ∧ code.Kept (.ofLog log past result) := by
    obtain ⟨-, returns, -, right, performed⟩ :=
      run.fulfils (serves_working governs log) obeys ⟨start, fun _ wrong => (nomatch wrong)⟩
    exact ⟨right, List.forall_mem_map.2 performed, fun e member =>
      returns e (eq_ok_of_toOption (Option.mem_toList.1 member))⟩
  cases acts with
  | dispatched run =>
    refine ofLog run ((obeys_dispatch governs (eligible _ (by simp [Deed.ofLog])) _).mono ?_)
    exact fun _ result good e same => (good e same).1
  | processed run => exact ofLog run (obeys_process governs (eligible _ (by simp [Deed.ofLog])) _)
  | @scraped plan logs _ _ _ _ w past reached =>
    have handled : ∀ log ∈ logs, among log.height := fun log member =>
      eligible log.height (List.mem_map_of_mem member)
    obtain ⟨-, -, -, -, -, -, -, right, -, delivered, performed⟩ :=
      reached.keeps (serves_scraping governs logs) (obeys_scrape governs handled plan)
        ⟨start, fun _ wrong => (nomatch wrong), fun _ wrong => (nomatch wrong), fun _ wrong => (nomatch wrong)⟩
    refine ⟨right, List.forall_mem_map.2 performed, fun e member => ?_⟩
    obtain ⟨output, among, same⟩ := List.mem_filterMap.1 member
    exact delivered output among e (eq_ok_of_toOption same)
  | synchronised returned =>
    obtain ⟨right, written⟩ := governs.returned (eligible _ (List.mem_singleton_self _)) returned start
    exact ⟨right, List.forall_mem_map.2 written, fun _ wrong => (nomatch wrong)⟩

/-- A session at such heights keeps to the code. -/
theorem Governs.session {deeds : List Deed} (session : Session heard context t deeds t')
    (eligible : ∀ deed ∈ deeds, ∀ height ∈ deed.heights, among height) (start : code.holds t) :
    code.holds t' ∧ ∀ deed ∈ deeds, code.Kept deed := by
  induction session with
  | nil => exact ⟨start, fun _ wrong => (nomatch wrong)⟩
  | cons acts _ ih =>
    obtain ⟨first, others⟩ := List.forall_mem_cons.1 eligible
    obtain ⟨right, kept⟩ := governs.acts acts first start
    obtain ⟨right', rest⟩ := ih others right
    exact ⟨right', List.forall_mem_cons.2 ⟨kept, rest⟩⟩

end Deeds

end Code

section Undisturbed

variable (chain : ChainAnswers) (context : Context)

/-- Nothing is heard but what a chain answers, whose head may be anywhere. -/
def Hearsay.of : Hearsay
  | .head, _ => True
  | r, reply => reply = chain r

/-- The chain and the store answer at once, and everything is written down. -/
def recording (r : Request) (s : Tables × List (Exchange Request.Answer)) :
    r.Answer × Tables × List (Exchange Request.Answer) :=
  let (reply, t) := answering chain (fun _ => false) r s.1
  (reply, t, s.2 ++ [⟨r, reply⟩])

variable {chain} in
theorem working_iff_allows {r : Request} {t t' : Tables} {reply : r.Answer} :
    (Hearsay.of chain).Working r t reply t' ↔ Allows chain r t reply t' := by
  cases r with
  | chain r =>
    cases r with
    | head => exact ⟨And.left, fun same => ⟨same, .inl trivial⟩⟩
    | _ => rfl
  | store r => exact and_iff_left trivial
  | shared r => exact and_iff_left trivial

theorem recording_working (r : Request) (s : Tables × List (Exchange Request.Answer)) :
    Recording (Hearsay.of chain).Working r s (recording chain r s).1 (recording chain r s).2 :=
  ⟨working_iff_allows.2 (answering_allowed chain (fun _ => false) r s.1), rfl⟩

/-- Some logs are processed one after another. -/
def processed : List RawLog → Tables → List Deed × Tables
  | [], t => ([], t)
  | log :: rest, t =>
    let (result, t', past) := (process context .empty log).run (recording chain) (t, [])
    let (deeds, t'') := processed rest t'
    (.ofLog log past result :: deeds, t'')

theorem session_processed (logs : List RawLog) (t : Tables) :
    Session (.of chain) context t (processed chain context logs t).1 (processed chain context logs t).2 := by
  induction logs generalizing t with
  | nil => exact .nil t
  | cons log rest ih => exact .cons (.processed (runs_of_run (recording_working chain) _ (t, []))) (ih _)

variable {chain} in
theorem synchronising_of_succeeds {height : Nat} {r : PartRequest} {w w' : SyncWorld} {reply : r.Answer}
    (succeeds : Succeeds chain height r w reply w') : (Hearsay.of chain).Synchronising r w reply w' := by
  refine ⟨.inr ⟨chain, succeeds.1⟩, ?_⟩
  cases r with
  | plain r =>
    cases r with
    | chain r =>
      cases r with
      | head => exact .inl trivial
      | _ => exact succeeds.1.1.imp_right fun ⟨fault, same, _⟩ => ⟨fault, same⟩
    | _ => trivial
  | _ => trivial

end Undisturbed

end StakeIndex
