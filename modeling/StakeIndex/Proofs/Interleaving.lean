import Mathlib.Data.List.Forall2
import StakeIndex.Proofs.Counters
import StakeIndex.Proofs.Scrape

/-!
Handlings that run side by side. Each of them owes the counters that it has unsettled and not yet set
again. Whatever is interleaved, only counters that some handling owes can be wrong, and a handling that
is completed owes nothing.
-/
namespace StakeIndex

/-- Programs that run side by side: one of them at a time gets an answer to its request. -/
inductive Dialogue.Interleaved {Request : Type} {Answer : Request → Type} {α σ : Type}
    (allows : (r : Request) → σ → Answer r → σ → Prop) :
    List (Dialogue Request Answer α) → σ → List α → σ → Prop where
  | done (results : List α) (s : σ) : Interleaved allows (results.map .done) s results s
  | ask {before after : List (Dialogue Request Answer α)} {r : Request}
    {next : Answer r → Dialogue Request Answer α} {reply : Answer r} {s s' s'' : σ} {results : List α} :
    allows r s reply s' → Interleaved allows (before ++ next reply :: after) s' results s'' →
    Interleaved allows (before ++ .ask r next :: after) s results s''

/-- Programs that run side by side, and what is left of them at some moment. -/
inductive Dialogue.Reached {Request : Type} {Answer : Request → Type} {α σ : Type}
    (allows : (r : Request) → σ → Answer r → σ → Prop) :
    List (Dialogue Request Answer α) → σ → List (Dialogue Request Answer α) → σ → Prop where
  | start (pool : List (Dialogue Request Answer α)) (s : σ) : Reached allows pool s pool s
  | ask {before after pool' : List (Dialogue Request Answer α)} {r : Request}
    {next : Answer r → Dialogue Request Answer α} {reply : Answer r} {s s' s'' : σ} :
    allows r s reply s' → Reached allows (before ++ next reply :: after) s' pool' s'' →
    Reached allows (before ++ .ask r next :: after) s pool' s''

open Job Tables

section Debts

variable {ρ ρ' : Type} {settled : ρ → List Word → Prop} {settled' : ρ' → List Word → Prop}

/-- The validators whose counters are owed after a request. -/
def owedAfter (r : StoreRequest) (owed : List Word) : List Word :=
  match r with
  | .updateCounts id => owed.filter (· ≠ id)
  | r => unsettled r ++ owed

/-- Programs whose results, and what they owe in the end, have a property whatever they are answered. -/
inductive Repairs (settled : ρ → List Word → Prop) : Steps ρ → List Word → Prop where
  | done {result : ρ} {owed : List Word} : settled result owed → Repairs settled (.done result) owed
  | chain {r : ChainRequest} {next : Request.Answer (.chain r) → Steps ρ} {owed : List Word} :
    (∀ reply, Repairs settled (next reply) owed) → Repairs settled (.ask (.chain r) next) owed
  | shared {r : SharedRequest} {next : Request.Answer (.shared r) → Steps ρ} {owed : List Word} :
    (∀ reply, Repairs settled (next reply) owed) → Repairs settled (.ask (.shared r) next) owed
  | store {r : StoreRequest} {next : Request.Answer (.store r) → Steps ρ} {owed : List Word} :
    (∀ a, Repairs settled (next (.ok a)) (owedAfter r owed)) →
    (∀ stop, Repairs settled (next (.error stop)) owed) → Repairs settled (.ask (.store r) next) owed

theorem Repairs.bind {steps : Steps ρ} {f : ρ → Steps ρ'} {owed : List Word}
    (first : Repairs settled steps owed)
    (next : ∀ result owed, settled result owed → Repairs settled' (f result) owed) :
    Repairs settled' (steps >>= f) owed := by
  induction first with
  | done h => exact next _ _ h
  | chain _ ih => exact .chain ih
  | shared _ ih => exact .shared ih
  | store _ _ performed refused => exact .store performed refused

/-- A program that asks nothing of the store owes in the end what it owed before. -/
theorem repairs_of_asks {holds : ρ → Prop} {steps : Steps ρ}
    (asks : Asks (fun _ => False) holds steps) {owed : List Word}
    (next : ∀ result, holds result → settled result owed) : Repairs settled steps owed := by
  induction asks with
  | done h => exact .done (next _ h)
  | chain _ ih => exact .chain ih
  | shared _ ih => exact .shared ih
  | store wrong => exact wrong.elim

end Debts

section Jobs

variable {α β : Type} {job : Job α}

/-- A job that repays what it owes in all, if it is completed. -/
def Repays (owed : List Word) (job : Job α) : Prop :=
  Repairs (fun result after => result.isOk → after = []) job.run owed

theorem repays_pure (a : α) : Repays [] (pure a) := .done fun _ => rfl

theorem repays_throw (owed : List Word) (stop : Stop) : Repays owed (throw stop : Job α) :=
  .done fun wrong => (nomatch wrong)

theorem Repays.bind {f : α → Job β} {owed : List Word} (first : Repays owed job)
    (next : ∀ a, Repays [] (f a)) : Repays owed (job >>= f) := by
  refine Repairs.bind first fun result after repaid => ?_
  cases result with
  | error stop => exact repays_throw after stop
  | ok a =>
    obtain rfl := repaid rfl
    exact next a

theorem Job.Consults.repays_bind {holds : α → Prop} {f : α → Job β} {owed : List Word}
    (consults : Consults job holds) (next : ∀ a, holds a → Repays owed (f a)) :
    Repays owed (job >>= f) := by
  have first : Repairs (fun (result : Except Stop α) after =>
      after = owed ∧ ∀ a, result = .ok a → holds a) job.run owed :=
    repairs_of_asks consults fun result h => ⟨rfl, h⟩
  refine Repairs.bind first fun result after told => ?_
  obtain ⟨rfl, told⟩ := told
  cases result with
  | error stop => exact repays_throw _ stop
  | ok a => exact next a (told a rfl)

theorem repays_store_bind {r : StoreRequest} {f : r.Result → Job β} {owed : List Word}
    (next : ∀ a, Repays (owedAfter r owed) (f a)) : Repays owed (store r >>= f) := by
  apply Repairs.store
  · exact next
  · intro stop
    exact repays_throw owed stop

theorem owedAfter_nil {r : StoreRequest} (nothing : unsettled r = []) : owedAfter r [] = [] := by
  cases r with
  | saveValidator => cases nothing
  | saveValidatorStatistic => cases nothing
  | _ => rfl

theorem repays_harmless {r : StoreRequest} (nothing : unsettled r = []) : Repays [] (store r) := by
  apply Repairs.store
  · intro a
    exact .done fun _ => owedAfter_nil nothing
  · intro stop
    exact repays_throw [] stop

theorem repays_forIn {ι : Type} {turn : ι → PUnit → Job (ForInStep PUnit)} (items : List ι)
    (each : ∀ i, ∃ body : Job PUnit, Repays [] body ∧
      turn i PUnit.unit = do body; pure (.yield PUnit.unit)) :
    Repays [] (forIn items PUnit.unit turn) := by
  induction items with
  | nil => exact repays_pure _
  | cons i rest ih =>
    obtain ⟨body, repays, same⟩ := each i
    rw [List.forIn_cons, same, bind_assoc]
    apply repays.bind
    intro _
    rw [pure_bind]
    exact ih

end Jobs

section Handlers

variable (c : ViewContract) (log : DecodedLog) (e : ContractEvent)

theorem recalculateNodes_repays (at_ : Calculation) : Repays [] (recalculateNodes at_) := by
  unfold recalculateNodes
  apply (repays_harmless (r := .calculate .activeNodes at_) rfl).bind
  intro _
  apply (repays_harmless (r := .calculate .linkedNodes at_) rfl).bind
  intro _
  exact repays_pure _

theorem saveSystemEvents_repays (events : List SystemEvent) :
    Repays [] (forIn events PUnit.unit fun event _ => do
      store (.saveSystemEvent event)
      pure (ForInStep.yield PUnit.unit)) := by
  apply repays_forIn
  intro event
  exact ⟨store (.saveSystemEvent event), repays_harmless rfl, rfl⟩

theorem handleDelegation_repays : Repays [] (handleDelegation c log e) := by
  unfold handleDelegation
  apply (consults_lift fun _ _ => trivial).repays_bind
  intro found (_ : True)
  cases found with
  | none => exact repays_pure e
  | some parsed =>
    apply (c.delegation_consults e.height parsed.delegationId).repays_bind
    intro read _
    apply (repays_harmless (r := .delegations _) rfl).bind
    intro older
    have rest (flagged : Bool) : Repays [] (do
        let _ ← store (.calculate .totalStake (e.calculation read.validatorId))
        for event in parsed.systemEvents { read with txHash := e.txHash } e do
          store (.saveSystemEvent event)
        return ({ e with flagged }.bind .delegation [parsed.delegationId, read.validatorId]
          [read.holder] : ContractEvent)) := by
      apply (repays_harmless (r := .calculate .totalStake _) rfl).bind
      intro _
      apply (saveSystemEvents_repays _).bind
      intro _
      exact repays_pure _
    apply (repays_harmless (r := .saveDelegation _) rfl).bind
    intro _
    apply (c.callUint_consults e.height _ _ _).repays_bind
    intro count _
    dsimp only
    split
    · apply (repays_harmless (r := .saveAccount _) rfl).bind
      intro _
      exact rest _
    · exact rest _

theorem follow_repays (parsed : ValidatorEvent) (v : Validator) : Repays [] (parsed.follow c v e) := by
  have refreshed : Repays [] (do
      let nodes ← (← c.sibling .nodes).validatorNodes parsed.validatorId e.height
      store (.saveNodes (nodes.map fun n => { n with eventTime := e.time, height := e.height }))
      recalculateNodes (e.calculation parsed.validatorId)) := by
    apply (ViewContract.find_consults c.context .nodes c.binding.version).repays_bind
    intro sibling _
    apply (sibling.validatorNodes_consults e.height parsed.validatorId).repays_bind
    intro nodes _
    apply (repays_harmless (r := .saveNodes _) rfl).bind
    intro _
    exact recalculateNodes_repays _
  obtain ⟨id, change⟩ := parsed
  cases change with
  | nodeAddressAdded => exact refreshed
  | nodeAddressRemoved => exact refreshed
  | registered => exact repays_harmless (r := .saveAccount _) rfl
  | addressChanged => exact repays_harmless (r := .saveAccount _) rfl
  | enabled => exact repays_harmless (r := .saveSystemEvent _) rfl
  | disabled => exact repays_harmless (r := .saveSystemEvent _) rfl

theorem handleValidator_repays : Repays [] (handleValidator c log e) := by
  unfold handleValidator
  apply (consults_lift fun _ _ => trivial).repays_bind
  intro found (_ : True)
  cases found with
  | none => exact repays_pure e
  | some parsed =>
    apply (c.validator_consults e.height parsed.validatorId).repays_bind
    rintro v ⟨mine, -⟩
    apply (repays_harmless (r := .validators _) rfl).bind
    intro older
    have rest : Repays [] (do
        parsed.follow c v e
        return (e.bind .validator [parsed.validatorId] [] : ContractEvent)) := by
      apply (follow_repays c e parsed v).bind
      intro _
      exact repays_pure _
    apply repays_store_bind
    intro _
    apply repays_store_bind
    intro _
    have repaid : owedAfter (.updateCounts parsed.validatorId)
        (owedAfter (.saveValidator v) []) = [] := by
      simp [owedAfter, unsettled, mine]
    rw [repaid]
    cases older with
    | nil => exact rest
    | cons previous tail =>
      apply (saveSystemEvents_repays _).bind
      intro _
      exact rest

theorem handleNode_repays : Repays [] (handleNode c log e) := by
  unfold handleNode
  apply (consults_lift fun _ _ => trivial).repays_bind
  intro found (_ : True)
  cases found with
  | none => exact repays_pure e
  | some parsed =>
    apply (c.node_consults e.height parsed.nodeId).repays_bind
    intro n _
    apply (repays_harmless (r := .saveNodes _) rfl).bind
    intro _
    apply (recalculateNodes_repays _).bind
    intro _
    exact repays_pure _

theorem handleDistributor_repays : Repays [] (handleDistributor log e) := by
  unfold handleDistributor
  apply (consults_lift fun _ _ => trivial).repays_bind
  intro found (_ : True)
  rcases found with _ | ⟨holder, validatorId, receiver, amount⟩ | validatorId
  · exact repays_pure e
  · apply (repays_harmless (r := .recordRewardClaim _) rfl).bind
    intro _
    exact repays_pure _
  · exact repays_pure _

theorem handlePunisher_repays : Repays [] (handlePunisher log e) := by
  unfold handlePunisher
  apply (consults_lift fun _ _ => trivial).repays_bind
  intro found (_ : True)
  rcases found with _ | ⟨validatorId, amount⟩ | ⟨wallet, amount⟩
  · exact repays_pure e
  · apply (repays_harmless (r := .saveSystemEvent _) rfl).bind
    intro _
    exact repays_pure _
  · apply (repays_harmless (r := .saveSystemEvent _) rfl).bind
    intro _
    exact repays_pure _

theorem handleToken_repays : Repays [] (handleToken log e) := by
  unfold handleToken
  apply (consults_lift fun _ _ => trivial).repays_bind
  intro found (_ : True)
  cases found with
  | none => exact repays_pure e
  | some parsed =>
    have parties : Repays [] (forIn parsed.parties PUnit.unit fun address _ =>
        if address ≠ .zero then do
          store (.saveAccount ⟨address, .default⟩)
          pure (ForInStep.yield PUnit.unit)
        else pure (ForInStep.yield PUnit.unit)) := by
      apply repays_forIn
      intro address
      split
      · exact ⟨store (.saveAccount ⟨address, .default⟩), repays_harmless rfl, rfl⟩
      · exact ⟨pure PUnit.unit, repays_pure _, rfl⟩
    apply parties.bind
    intro _
    exact repays_pure _

theorem handleEvent_repays (context : Context) (binding : Binding) :
    Repays [] (handleEvent context binding log e) := by
  unfold handleEvent
  dsimp only
  split
  · exact handleValidator_repays ..
  · exact handleNode_repays ..
  · exact handleDelegation_repays ..
  · exact handlePunisher_repays ..
  · exact handleToken_repays ..
  · exact handleDistributor_repays ..
  all_goals exact repays_pure e

/-- The processing of a log, with whatever cache, owes nothing when it is completed. -/
theorem process_repairs (context : Context) (cache : HeaderCache) (log : RawLog) :
    Repairs (fun result owed => result.1.isOk → owed = []) (process context cache log) [] := by
  unfold process
  have dispatched : Repairs (fun result owed => result.1.isOk → owed = [])
      (dispatch context cache log) [] := by
    unfold dispatch
    cases context.registry.atAddress? log.address with
    | none => exact .done fun wrong => (nomatch wrong)
    | some binding =>
      have fetched : Asks (fun _ => False) (fun _ => True) (cache.fetch log.height) := by
        unfold HeaderCache.fetch
        cases cache.get? log.height with
        | some header => exact .done trivial
        | none =>
          apply Asks.chain
          intro reply
          cases reply <;> exact .done trivial
      have nothing : Repairs (fun _ owed => owed = []) (cache.fetch log.height) [] :=
        repairs_of_asks fetched fun _ _ => rfl
      apply nothing.bind
      rintro ⟨header, cache⟩ owed rfl
      cases header with
      | error stop => exact .done fun wrong => (nomatch wrong)
      | ok header =>
        have handled : Repays [] (handleLog context binding header log) := by
          apply (consults_lift fun _ _ => trivial).repays_bind
          intro decoded (_ : True)
          exact handleEvent_repays ..
        apply Repairs.bind handled
        intro result owed repaid
        exact .done repaid
  apply dispatched.bind
  rintro ⟨result, cache⟩ owed repaid
  cases result with
  | error stop => exact .done fun wrong => (nomatch wrong)
  | ok event =>
    obtain rfl := repaid rfl
    apply Repairs.store
    · intro _
      exact .done fun _ => rfl
    · intro stop
      exact .done fun wrong => (nomatch wrong)

end Handlers

section Pools

variable {ρ : Type} {settled : ρ → List Word → Prop} {t t' : Tables}

/-- All counters are right but those that are owed. -/
def CoherentBut (t : Tables) (owed : List (List Word)) : Prop :=
  ∀ id, (∀ debts ∈ owed, id ∉ debts) → ∀ figure, t.ShowsLatest id figure

/-- A request leaves the counters right that were right, when the validators that it unsettles are owed
by the one who made it. -/
theorem CoherentBut.perform {before after : List (List Word)} {debts : List Word} (r : StoreRequest)
    (right : CoherentBut t (before ++ debts :: after)) :
    CoherentBut (t.perform r).2 (before ++ owedAfter r debts :: after) := by
  intro id free figure
  have others : ∀ owed ∈ before ++ after, id ∉ owed := by
    intro owed member
    apply free
    rcases List.mem_append.1 member with member | member
    · exact List.mem_append_left _ member
    · exact List.mem_append_right _ (List.mem_cons_of_mem _ member)
  have mine : id ∉ owedAfter r debts :=
    free _ (List.mem_append_right _ List.mem_cons_self)
  have was (clear : id ∉ debts) : t.ShowsLatest id figure := by
    refine right id (fun owed member => ?_) figure
    rcases List.mem_append.1 member with member | member
    · exact others owed (List.mem_append_left _ member)
    · rcases List.mem_cons.1 member with rfl | member
      · exact clear
      · exact others owed (List.mem_append_right _ member)
  by_cases updated : r = .updateCounts id
  · subst updated
    exact updateCounts_shows t id figure
  · have clear : id ∉ unsettled r ∧ id ∉ debts := by
      cases r with
      | updateCounts other =>
        refine ⟨List.not_mem_nil, fun member => mine ?_⟩
        refine List.mem_filter.2 ⟨member, decide_eq_true ?_⟩
        rintro rfl
        exact updated rfl
      | _ =>
        rw [← not_or, ← List.mem_append]
        exact mine
    exact (was clear.2).perform clear.1

theorem forall₂_append_cons {α β : Type} {R : α → β → Prop} {before after : List α} {a : α}
    {all : List β} (related : List.Forall₂ R (before ++ a :: after) all) :
    ∃ first b rest, all = first ++ b :: rest ∧ List.Forall₂ R before first ∧ R a b ∧
      List.Forall₂ R after rest := by
  induction before generalizing all with
  | nil =>
    cases related with
    | cons head tail => exact ⟨[], _, _, rfl, .nil, head, tail⟩
  | cons x before ih =>
    cases related with
    | cons head tail =>
      obtain ⟨first, b, rest, rfl, left, mine, right⟩ := ih tail
      exact ⟨_ :: first, b, rest, rfl, .cons head left, mine, right⟩

theorem forall₂_replicate {α β : Type} {R : α → β → Prop} {a : α} {b : β} (related : R a b) (n : Nat) :
    List.Forall₂ R (List.replicate n a) (List.replicate n b) := by
  induction n with
  | zero => exact .nil
  | succ n ih => exact .cons related ih

/-- Every step keeps right what is not owed: the program that makes it owes what it unsettles. -/
theorem Dialogue.Interleaved.coherentBut {pool : List (Steps ρ)} {results : List ρ}
    (run : Interleaved AnyAnswer pool t results t') {owed : List (List Word)}
    (repairs : pool.Forall₂ (Repairs settled) owed) (right : CoherentBut t owed) :
    ∃ left : List (List Word), results.Forall₂ settled left ∧ CoherentBut t' left := by
  induction run generalizing owed with
  | done results s =>
    refine ⟨owed, ?_, right⟩
    rw [List.forall₂_map_left_iff] at repairs
    apply repairs.imp
    intro result debts repaired
    cases repaired with
    | done h => exact h
  | @ask before after r next reply s s' _ results answered _ ih =>
    obtain ⟨first, debts, rest, rfl, left, mine, others⟩ := forall₂_append_cons repairs
    have go {debts' : List Word} (mine : Repairs settled (next reply) debts')
        (right : CoherentBut s' (first ++ debts' :: rest)) :
        ∃ left : List (List Word), results.Forall₂ settled left ∧ CoherentBut _ left :=
      ih (List.rel_append left (.cons mine others)) right
    cases mine with
    | chain all =>
      cases answered
      exact go (all reply) right
    | shared all =>
      cases answered
      exact go (all reply) right
    | store performed refused =>
      obtain ⟨rfl, rfl⟩ | ⟨stop, rfl, rfl⟩ := answered
      · exact go (performed _) (right.perform _)
      · exact go (refused stop) right

/-- Whatever logs are handled side by side, with whatever caches and answers, and however their requests
are interleaved: when all handlings are completed, all counters are right if they were at the start. -/
theorem interleaved_coherent {context : Context} {tasks : List (HeaderCache × RawLog)}
    {results : List (Except Stop ContractEvent × HeaderCache)} (coherent : t.Coherent)
    (run : Dialogue.Interleaved AnyAnswer (tasks.map fun (cache, log) => process context cache log) t
      results t') (completed : ∀ result ∈ results, result.1.isOk) : t'.Coherent := by
  have repairs : (tasks.map fun (cache, log) => process context cache log).Forall₂
      (Repairs fun result owed => result.1.isOk → owed = []) (tasks.map fun _ => []) := by
    rw [List.forall₂_map_left_iff, List.forall₂_map_right_iff, List.forall₂_same]
    intro task _
    exact process_repairs context task.1 task.2
  obtain ⟨left, settled, right⟩ := run.coherentBut repairs fun id _ figure => coherent id figure
  have nothing : ∀ debts ∈ left, debts = [] := by
    clear right run
    induction settled with
    | nil => exact fun _ member => (nomatch member)
    | cons head tail ih =>
      obtain ⟨first, others⟩ := List.forall_mem_cons.1 completed
      exact List.forall_mem_cons.2 ⟨head first, ih others⟩
  intro id figure
  refine right id (fun debts member => ?_) figure
  rw [nothing debts member]
  exact List.not_mem_nil

end Pools

section Schedules

variable {Request : Type} {Answer : Request → Type} {α σ : Type}

def Dialogue.result? : Dialogue Request Answer α → Option α
  | done a => some a
  | ask _ _ => none

/-- The programs and the world after the program in some place got its answer, if there is one. -/
def Dialogue.proceed (answer : (r : Request) → σ → Option (Answer r × σ))
    (at_ : List (Dialogue Request Answer α) × σ) (place : Nat) : List (Dialogue Request Answer α) × σ :=
  match at_.1[place]? with
  | some (.ask r next) =>
    match answer r at_.2 with
    | some (reply, s) => (at_.1.set place (next reply), s)
    | none => at_
  | _ => at_

/-- The programs and the world after the program in some place got its answer. -/
def Dialogue.advance (answer : (r : Request) → σ → Answer r × σ)
    (at_ : List (Dialogue Request Answer α) × σ) (place : Nat) : List (Dialogue Request Answer α) × σ :=
  match at_.1[place]? with
  | some (.ask r next) => (at_.1.set place (next (answer r at_.2).1), (answer r at_.2).2)
  | _ => at_

theorem Dialogue.results_of_all {pool : List (Dialogue Request Answer α)}
    (done : pool.all (·.result?.isSome)) : (pool.filterMap result?).map .done = pool := by
  induction pool with
  | nil => rfl
  | cons program rest ih =>
    rw [List.all_cons, Bool.and_eq_true] at done
    cases program with
    | done a => exact congrArg (.done a :: ·) (ih done.2)
    | ask => cases done.1

/-- When all programs are done, what is reached is what they end with. -/
theorem Dialogue.Reached.interleaved {allows : (r : Request) → σ → Answer r → σ → Prop}
    {pool pool' : List (Dialogue Request Answer α)} {s s' : σ} (reached : Reached allows pool s pool' s')
    (done : pool'.all (·.result?.isSome)) : Interleaved allows pool s (pool'.filterMap result?) s' := by
  induction reached with
  | start pool s =>
    have finished : Interleaved allows ((pool.filterMap result?).map .done) s
        (pool.filterMap result?) s := .done ..
    rwa [results_of_all done] at finished
  | ask answered _ ih => exact .ask answered (ih done)

/-- Turns taken in some order lead to some moment of an interleaving. A program that gets no answer waits. -/
theorem Dialogue.reached_of_moves {allows : (r : Request) → σ → Answer r → σ → Prop}
    {answer : (r : Request) → σ → Option (Answer r × σ)}
    (allowed : ∀ r s reply s', answer r s = some (reply, s') → allows r s reply s') (turns : List Nat)
    (pool : List (Dialogue Request Answer α)) (s : σ) :
    Reached allows pool s (turns.foldl (proceed answer) (pool, s)).1
      (turns.foldl (proceed answer) (pool, s)).2 := by
  induction turns generalizing pool s with
  | nil => exact .start pool s
  | cons place turns ih =>
    rw [List.foldl_cons]
    generalize moved : proceed answer (pool, s) place = at_
    unfold proceed at moved
    dsimp only at moved
    cases found : pool[place]? with
    | none =>
      rw [found] at moved
      exact moved ▸ ih pool s
    | some program =>
      rw [found] at moved
      cases program with
      | done a => exact moved ▸ ih pool s
      | ask r next =>
        cases replied : answer r s with
        | none =>
          simp only [replied] at moved
          exact moved ▸ ih pool s
        | some reply =>
          simp only [replied] at moved
          obtain ⟨inside, same⟩ := List.getElem?_eq_some_iff.1 found
          rw [List.set_eq_take_append_cons_drop, if_pos inside] at moved
          subst moved
          conv => arg 2; rw [← List.take_append_drop place pool, List.drop_eq_getElem_cons inside, same]
          exact .ask (allowed r s _ _ replied) (ih _ _)

theorem Dialogue.reached_of_turns {allows : (r : Request) → σ → Answer r → σ → Prop}
    {answer : (r : Request) → σ → Answer r × σ}
    (allowed : ∀ r s, allows r s (answer r s).1 (answer r s).2) (turns : List Nat)
    (pool : List (Dialogue Request Answer α)) (s : σ) :
    Reached allows pool s (turns.foldl (advance answer) (pool, s)).1
      (turns.foldl (advance answer) (pool, s)).2 := by
  have same : advance (α := α) answer = proceed fun r s => some (answer r s) := rfl
  rw [same]
  refine reached_of_moves (fun r s reply s' replied => ?_) turns pool s
  have answered := allowed r s
  rwa [Option.some.inj replied] at answered

/-- Turns taken in some order are an interleaving, when all programs are done after them. -/
theorem Dialogue.interleaved_of_moves {allows : (r : Request) → σ → Answer r → σ → Prop}
    {answer : (r : Request) → σ → Option (Answer r × σ)}
    (allowed : ∀ r s reply s', answer r s = some (reply, s') → allows r s reply s') (turns : List Nat)
    (pool : List (Dialogue Request Answer α)) (s : σ)
    (done : (turns.foldl (proceed answer) (pool, s)).1.all (·.result?.isSome)) :
    Interleaved allows pool s ((turns.foldl (proceed answer) (pool, s)).1.filterMap result?)
      (turns.foldl (proceed answer) (pool, s)).2 :=
  (reached_of_moves allowed turns pool s).interleaved done

theorem Dialogue.interleaved_of_turns {allows : (r : Request) → σ → Answer r → σ → Prop}
    {answer : (r : Request) → σ → Answer r × σ}
    (allowed : ∀ r s, allows r s (answer r s).1 (answer r s).2) (turns : List Nat)
    (pool : List (Dialogue Request Answer α)) (s : σ)
    (done : (turns.foldl (advance answer) (pool, s)).1.all (·.result?.isSome)) :
    Interleaved allows pool s ((turns.foldl (advance answer) (pool, s)).1.filterMap result?)
      (turns.foldl (advance answer) (pool, s)).2 :=
  (reached_of_turns allowed turns pool s).interleaved done

end Schedules

section Side

def validatorBinding : Binding where
  name := .validatorService
  version := ⟨"1.0.0"⟩
  address := .ofWord 1
  interface := ⟨[
    .function ⟨"getValidator", [⟨"validatorId", .uint 256, false⟩],
      [⟨"name", .string, false⟩, ⟨"validatorAddress", .address, false⟩,
        ⟨"requestedAddress", .address, false⟩, ⟨"description", .string, false⟩,
        ⟨"feeRate", .uint 256, false⟩, ⟨"registrationTime", .uint 256, false⟩,
        ⟨"minimumDelegationAmount", .uint 256, false⟩, ⟨"acceptNewRequests", .bool, false⟩]⟩,
    .function ⟨"isAuthorizedValidator", [⟨"validatorId", .uint 256, false⟩],
      [⟨"", .bool, false⟩]⟩]⟩

/-- The contracts of delegations and of validators, and an event of each. -/
def pairContext : Context where
  mode := .archive
  registry := {
    byAddress := (Table.empty.insert .zero delegationBinding).insert (.ofWord 1) validatorBinding
    byVersion := ∅
    events := delegationContext.registry.events.insert (.ofWord 8)
      ⟨"ValidatorRegistered", [⟨"validatorId", .uint 256, true⟩], false⟩ }

/-- A chain that answers for delegations as before, and for validators with zeros and no names. -/
def pairChain : ChainAnswers
  | .call block contract input =>
    if contract = .zero then evenChain (.call block contract input)
    else .ok ((List.replicate 9 (0 : Nat)).flatMap Abi.wordOf)
  | r => evenChain r

def registeredLog (id height : Nat) : RawLog :=
  ⟨.ofWord 1, [.ofWord 8, .ofWord (.ofNat id)], [], height, .zero, 1, false⟩

theorem answering_anyAnswer (chain : ChainAnswers) (refused : StoreRequest → Bool) (r : Request)
    (t : Tables) : AnyAnswer r t (answering chain refused r t).1 (answering chain refused r t).2 :=
  (answering_allowed chain refused r t).anyAnswer

/-- The snapshot of the validator is stored with counters of zero first; then the other handling computes
the stake, from its beginning to its end; and then the counters are updated. -/
theorem interleaved_coherent_registered :
    let tasks := [(HeaderCache.empty, registeredLog 1 20), (.empty, proposedLog 1 20)]
    let pool := tasks.map fun (cache, log) => process pairContext cache log
    let turns := List.replicate 5 0 ++ List.replicate 10 1 ++ List.replicate 3 0
    let finish := turns.foldl (Dialogue.advance (answering pairChain fun _ => false)) (pool, Tables.empty)
    Tables.empty.Coherent ∧ (∀ result ∈ finish.1.filterMap Dialogue.result?, result.1.isOk) ∧
      Dialogue.Interleaved AnyAnswer pool Tables.empty (finish.1.filterMap Dialogue.result?) finish.2 ∧
      finish.2.Coherent ∧ (finish.2.latest? 1).map (·.2.staked) = some 100 := by
  intro tasks pool turns finish
  have coherent : Tables.empty.Coherent := fun _ _ _ _ none => (nomatch none)
  have run : Dialogue.Interleaved AnyAnswer pool Tables.empty
      (finish.1.filterMap Dialogue.result?) finish.2 :=
    Dialogue.interleaved_of_turns (answering_anyAnswer _ _) turns pool Tables.empty (by decide +kernel)
  have completed : ∀ result ∈ finish.1.filterMap Dialogue.result?, result.1.isOk := by
    decide +kernel
  have shown : (finish.2.latest? 1).map (·.2.staked) = some 100 := by decide +kernel
  exact ⟨coherent, completed, run, interleaved_coherent coherent run completed, shown⟩

end Side

end StakeIndex
