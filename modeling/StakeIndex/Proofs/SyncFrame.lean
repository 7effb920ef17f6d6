import StakeIndex.Proofs.Closing
import StakeIndex.Proofs.SyncReturns

/-!
What a synchronisation leaves as it is. It stores validators, nodes, delegations and figures only, so neither
the settings nor the events of the contracts change, whatever it returns and whatever the chain replies.
-/
namespace StakeIndex

open Dialogue Job

/-- The replies to parts of a synchronisation when the chain may reply anything. -/
def AnyAnswers (r : PartRequest) (w : SyncWorld) (reply : r.Answer) (w' : SyncWorld) : Prop :=
  (∃ asked, r = .plain (.chain asked)) ∧ w' = w ∨ ∃ chain, Answers chain r w reply w'

/-- What a synchronisation may ask of the store. -/
inductive SyncMay : StoreRequest → Prop where
  | validator (v : Validator) : SyncMay (.saveValidator v)
  | nodes (nodes : List Node) : SyncMay (.saveNodes nodes)
  | delegation (d : Delegation) : SyncMay (.saveDelegation d)
  | figures (snapshots : List ValidatorSnapshot) (height : Nat) (time : Instant) :
    SyncMay (.saveValidatorSnapshots snapshots height time)

theorem SyncMay.frame {r : StoreRequest} (may : SyncMay r) (t : Tables) :
    (t.perform r).2.contractEvents = t.contractEvents ∧ (t.perform r).2.settings = t.settings := by
  cases may with
  | figures snapshots height time =>
    exact ⟨Tables.saveSnapshots_frame (·.contractEvents) (fun _ _ _ => rfl) ..,
      Tables.saveSnapshots_frame (·.settings) (fun _ _ _ => rfl) ..⟩
  | _ => exact ⟨rfl, rfl⟩

theorem SyncMay.of_beside {r : StoreRequest} (beside : EpochSync.Beside r) : SyncMay r := by
  cases beside with
  | nodes nodes => exact .nodes nodes
  | delegation d => exact .delegation d

/-- Requests of which those to the store are allowed. -/
def storeMay (allowed : StoreRequest → Prop) : Request → Prop
  | .store r => allowed r
  | _ => True

/-- Parts that make allowed requests, and ask the memory of the workers. -/
def plainly (allowed : Request → Prop) : Protocol PartRequest.Answer where
  asks
    | .plain r => allowed r
    | _ => True
  replies _ _ := True

/-- What allowed requests keep of the tables holds of the world in which the chain may reply anything. -/
theorem serves_storing {allowed : StoreRequest → Prop} (holds : Tables → Prop)
    (keeps : ∀ r, allowed r → ∀ t, holds t → holds (t.perform r).2) :
    Serves AnyAnswers (fun w => holds w.tables) (plainly (storeMay allowed)) := by
  rintro r w reply w' right may (⟨-, rfl⟩ | ⟨chain, answered⟩)
  · exact ⟨trivial, right⟩
  refine ⟨trivial, ?_⟩
  cases r with
  | plain r =>
    cases r with
    | chain r =>
      obtain ⟨-, rfl⟩ := answered
      exact right
    | store r =>
      rcases answered with ⟨-, rfl⟩ | ⟨-, -, rfl⟩
      · exact keeps r may w.tables right
      · exact right
    | shared r =>
      cases r with
      | knownDelegation id =>
        obtain ⟨-, rfl⟩ := answered
        exact right
      | rememberDelegation d =>
        cases answered
        exact right
      | _ =>
        cases answered
        exact right
  | claimBatch =>
    obtain ⟨-, rfl⟩ := answered
    exact right
  | isExhausted =>
    obtain ⟨-, rfl⟩ := answered
    exact right
  | exhaust =>
    cases answered
    exact right

/-- The settings and the events are those of some tables. -/
structure Untouched (t : Tables) (w : SyncWorld) : Prop where
  settings : w.tables.settings = t.settings
  events : w.tables.contractEvents = t.contractEvents

section Parts

variable {α β : Type} {allowed allowed' : Request → Prop}

/-- A job that makes allowed requests, and all of whose results have a property. -/
def Makes (allowed : Request → Prop) (job : Job α) (holds : α → Prop) : Prop :=
  job.run.Obeys ⟨allowed, fun _ _ => True⟩ fun _ result => ∀ a, result = .ok a → holds a

/-- A part that makes allowed requests. -/
def Plain (allowed : Request → Prop) (part : Part α) (holds : α → Prop) : Prop :=
  part.run.Obeys (plainly allowed) fun _ result => ∀ a, result = .ok a → holds a

theorem Job.Within.makes {may : StoreRequest → Prop} {job : Job α} {holds : α → Prop}
    (within : Within may job holds) : Makes (storeMay may) job holds := by
  unfold Makes
  unfold Within at within
  generalize job.run = steps at within ⊢
  induction within with
  | done h => exact h
  | chain _ ih => exact ⟨trivial, fun reply _ => ih reply⟩
  | shared _ ih => exact ⟨trivial, fun reply _ => ih reply⟩
  | store may _ ih => exact ⟨may, fun reply _ => ih reply⟩

theorem Makes.plain {job : Job α} {holds : α → Prop} (makes : Makes allowed job holds) :
    Plain allowed (Part.plain job) holds := by
  unfold Plain Part.plain
  unfold Makes at makes
  rw [ExceptT.run_mk]
  generalize job.run = steps at makes
  induction steps with
  | done result => exact makes
  | ask r next ih =>
    obtain ⟨may, rest⟩ := makes
    exact ⟨may, fun reply _ => ih reply (rest reply trivial)⟩

variable {q : Protocol PartRequest.Answer}

/-- A part that keeps to a protocol, and all of whose results have a property. -/
def Performs (q : Protocol PartRequest.Answer) (part : Part α) (holds : α → Prop) : Prop :=
  part.run.Obeys q fun _ result => ∀ a, result = .ok a → holds a

theorem performs_pure {holds : α → Prop} {a : α} (h : holds a) : Performs q (pure a) holds := fun b same => by
  cases same
  exact h

theorem Performs.bind {part : Part α} {f : α → Part β} {holds : α → Prop} {holds' : β → Prop}
    (first : Performs q part holds) (next : ∀ a, holds a → Performs q (f a) holds') :
    Performs q (part >>= f) holds' := by
  refine Obeys.bind_except first (fun _ a h => ?_) fun _ _ _ _ wrong => (nomatch wrong)
  exact next a (h a rfl)

theorem Performs.map {part : Part α} {holds : α → Prop} (f : α → β) (performs : Performs q part holds) :
    Performs q (f <$> part) fun _ => True := by
  rw [map_eq_pure_bind]
  exact performs.bind fun a _ => performs_pure trivial

theorem performs_ask {r : PartRequest} (may : q.asks r) : Performs q (Part.ask r) fun _ => True :=
  ⟨may, fun _ _ _ _ => trivial⟩

end Parts

namespace EpochSync

/-- Requests that store snapshots at a height. -/
inductive SavesAt (height : Nat) : StoreRequest → Prop where
  | validator {v : Validator} : v.height = height → SavesAt height (.saveValidator v)
  | beside {r : StoreRequest} : BesideAt height r → SavesAt height r

theorem SavesAt.may {height : Nat} {r : StoreRequest} (saves : SavesAt height r) : SyncMay r := by
  cases saves with
  | validator => exact .validator _
  | beside at_ => exact .of_beside at_.beside

/-- The validators are stored at their height, and nothing else. -/
theorem validators_within (c : ViewContract) (height : Nat) (fuel : Nat) (id : Word) :
    Within (fun r => SavesAt height r ∧ ∀ d, r ≠ .saveDelegation d) (validators c height fuel id)
      fun _ => True := by
  induction fuel generalizing id with
  | zero => exact within_pure trivial
  | succ fuel ih =>
    unfold validators
    apply (c.validator_consults height id).ifAny.within.bind
    intro found place
    cases found with
    | none => exact within_pure trivial
    | some v =>
      apply (within_store ⟨.validator (place v rfl).2.1, fun _ wrong => (by cases wrong)⟩).bind
      intro _ _
      cases id.next? with
      | none => exact within_pure trivial
      | some next =>
        apply (ih next).bind
        intro _ _
        exact within_pure trivial

section Workers

/-- A protocol by which the memory of the workers may be asked at any moment. -/
structure SharesMemory (q : Protocol PartRequest.Answer) : Prop where
  claimBatch : q.asks .claimBatch
  isExhausted : q.asks .isExhausted
  exhaust : q.asks .exhaust

variable {q : Protocol PartRequest.Answer} (shares : SharesMemory q) {c : ViewContract} {height : Nat}
  (reads : ∀ id, Performs q (Part.plain (delegation c id height).ifAny) fun found =>
    ∀ d, found = some d → q.asks (.plain (.store (.saveDelegation d))))
include shares reads

theorem performs_batch (left id : Nat) (summed : Nat × StakeByValidator) :
    Performs q (batch c height left id summed) fun _ => True := by
  induction left generalizing id summed with
  | zero => exact performs_pure trivial
  | succ left ih =>
    unfold batch
    apply (reads (.ofNat id)).bind
    intro found may
    cases found with
    | none =>
      apply (performs_ask shares.exhaust).bind
      intro _ _
      exact performs_pure trivial
    | some d =>
      have saves : Performs q (Part.plain (Job.store (.saveDelegation d))) fun _ => True :=
        ⟨may d rfl, fun _ _ _ _ => trivial⟩
      apply saves.bind
      intro _ _
      exact ih _ _

theorem performs_worker (size fuel : Nat) (summed : Nat × StakeByValidator) :
    Performs q (worker c height size fuel summed) fun _ => True := by
  induction fuel generalizing summed with
  | zero => exact fun _ wrong => (nomatch wrong)
  | succ fuel ih =>
    unfold worker
    apply (performs_ask shares.isExhausted).bind
    intro exhausted _
    cases exhausted with
    | true => exact performs_pure trivial
    | false =>
      apply (performs_ask shares.claimBatch).bind
      intro n _
      apply (performs_batch shares reads _ _ summed).bind
      intro summed _
      exact ih summed

end Workers

/-- All workers keep to a protocol if the job does that reads a delegation. -/
theorem performs_workers {q : Protocol PartRequest.Answer} (shares : SharesMemory q) (plan : SyncPlan)
    {c : ViewContract} {height : Nat}
    (reads : ∀ id, Performs q (Part.plain (delegation c id height).ifAny) fun found =>
      ∀ d, found = some d → q.asks (.plain (.store (.saveDelegation d)))) :
    (workers plan c height).Forall₂ (fun d promise => d.Obeys q promise)
      (List.replicate (max plan.workers 1) fun _ result => ∀ a, result = .ok a → True) := by
  have worker : Performs q (PartResult.delegations <$> worker c height
    (max plan.batchSize 1) registerSize (0, ∅)) fun _ => True := (performs_worker shares reads ..).map _
  unfold workers
  exact forall₂_replicate (R := fun d promise => Obeys q d promise) worker _

/-- All parts keep to a protocol if the jobs do that they are made of. -/
theorem performs_parts {q : Protocol PartRequest.Answer} (shares : SharesMemory q) {plan : SyncPlan}
    {c : SyncContracts} {height : Nat} {time : Instant}
    (validated : Performs q (Part.plain (validators c.validatorService height allIds 1)) fun _ => True)
    (noded : Performs q (Part.plain (nodes c.nodes height time allIds 1 (0, ∅))) fun _ => True)
    (reads : ∀ id, Performs q (Part.plain (delegation c.controller id height).ifAny) fun found =>
      ∀ d, found = some d → q.asks (.plain (.store (.saveDelegation d)))) :
    (parts plan c height time).Forall₂ (fun d promise => d.Obeys q promise)
      (List.replicate (max plan.workers 1 + 2) fun _ result => ∀ a, result = .ok a → True) :=
  .cons (validated.map _) (.cons (noded.map _) (performs_workers shares plan reads))

/-- All parts make allowed requests if the jobs do that they are made of. -/
theorem plain_parts {allowed : Request → Prop} {plan : SyncPlan} {c : SyncContracts} {height : Nat}
    {time : Instant}
    (validated : Makes allowed (validators c.validatorService height allIds 1) fun _ => True)
    (noded : Makes allowed (nodes c.nodes height time allIds 1 (0, ∅)) fun _ => True)
    (reads : ∀ id, Makes allowed (delegation c.controller id height).ifAny fun found =>
      ∀ d, found = some d → allowed (.store (.saveDelegation d))) :
    (parts plan c height time).Forall₂ (fun d promise => d.Obeys (plainly allowed) promise)
      (List.replicate (max plan.workers 1 + 2) fun _ result => ∀ a, result = .ok a → True) :=
  performs_parts ⟨trivial, trivial, trivial⟩ validated.plain noded.plain fun id => (reads id).plain

/-- The parts store snapshots at their height. -/
theorem parts_saves (plan : SyncPlan) (c : SyncContracts) (height : Nat) (time : Instant) :
    (parts plan c height time).Forall₂
      (fun d promise => d.Obeys (plainly (storeMay (SavesAt height))) promise)
      (List.replicate (max plan.workers 1 + 2) fun _ result => ∀ a, result = .ok a → True) := by
  have validated := (validators_within c.validatorService height allIds 1).weaken fun _ => And.left
  have noded := (nodes_saves c.nodes height time allIds 1 (0, ∅)).weaken fun _ saves => SavesAt.beside saves.1
  refine plain_parts validated.makes noded.makes fun id => Within.makes ?_
  exact (delegation_consults c.controller id height).ifAny.within.mono fun _ place d some =>
    .beside (.delegation (place d some))

variable {plan : SyncPlan} {context : Context} {version : Version} {height : Nat} {time : Instant}
  {t : Tables} {known : DelegationCache} {w : SyncWorld} {result : Except Stop SyncSummary}

/-- What the storing of snapshots keeps holds of the tables until figures are written to them, if this comes
to pass. -/
theorem Returns.closes (returned : Returns AnyAnswers plan context version height time t known result w)
    (holds : Tables → Prop)
    (keeps : ∀ r, SavesAt height r → ∀ t, holds t → holds (t.perform r).2) (start : holds t) :
    ∃ s, holds s ∧ (w.tables = s ∨
      ∃ snapshots, w.tables = (s.perform (.saveValidatorSnapshots snapshots height time)).2) := by
  cases returned with
  | unknown => exact ⟨t, start, .inl rfl⟩
  | stopped _ reached _ =>
    obtain ⟨-, -, -, -, -, -, -, right⟩ := reached.keeps (serves_storing holds keeps) (parts_saves ..) start
    exact ⟨w.tables, right, .inl rfl⟩
  | @closed _ _ _ _ _ before _ _ run answered =>
    obtain ⟨-, -, -, -, -, -, -, right⟩ := run.fulfils (serves_storing holds keeps) (parts_saves ..) start
    refine ⟨before.tables, right, ?_⟩
    obtain ⟨⟨_, wrong⟩, -⟩ | ⟨_, ⟨-, rfl⟩ | ⟨-, -, rfl⟩⟩ := answered
    · cases wrong
    · exact .inr ⟨_, rfl⟩
    · exact .inl rfl

/-- Whatever a synchronisation returns, the settings and the events of the contracts are as they were. -/
theorem Returns.untouched (returned : Returns AnyAnswers plan context version height time t known result w) :
    Untouched t w := by
  obtain ⟨s, ⟨settings, events⟩, same | ⟨snapshots, after⟩⟩ := returned.closes
    (fun s => s.settings = t.settings ∧ s.contractEvents = t.contractEvents)
    (fun r saves s same => (saves.may.frame s).symm.imp (·.trans same.1) (·.trans same.2)) ⟨rfl, rfl⟩
  · exact ⟨same ▸ settings, same ▸ events⟩
  · obtain ⟨events', settings'⟩ := (SyncMay.figures snapshots height time).frame s
    rw [← after] at events' settings'
    exact ⟨settings'.trans settings, events'.trans events⟩

theorem run_within : Within SyncMay (run context version height time) fun _ => True := by
  unfold run
  apply (ViewContract.find_consults context _ version).within.bind
  intro validatorService _
  apply (ViewContract.find_consults context _ version).within.bind
  intro nodeContract _
  apply (ViewContract.find_consults context _ version).within.bind
  intro controller _
  apply ((validators_within ..).weaken fun _ saves => saves.1.may).bind
  intro ids _
  apply ((nodes_within ..).weaken fun _ => .of_beside).bind
  intro counted _
  apply ((delegations_within ..).weaken fun _ => .of_beside).bind
  intro summed _
  apply (within_store (.figures ..)).bind
  intro _ _
  exact within_pure trivial

theorem run_untouched
    (ran : Runs AnyAnswers (Part.plain (run context version height time)).run (.start t known) result w) :
    Untouched t w := by
  obtain ⟨-, -, -, settings, events⟩ := ran.fulfils
    (serves_storing (fun s => s.settings = t.settings ∧ s.contractEvents = t.contractEvents)
      fun r may s same => (may.frame s).symm.imp (·.trans same.1) (·.trans same.2))
    run_within.makes.plain ⟨rfl, rfl⟩
  exact ⟨settings, events⟩

end EpochSync

end StakeIndex
