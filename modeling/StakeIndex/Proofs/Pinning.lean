import StakeIndex.Proofs.SyncFrame
import StakeIndex.Proofs.SyncTotals
import StakeIndex.Proofs.ViewCalls

/-!
Reading at one height. On a node that keeps all states every view call is for the block of the log, or of the
synchronisation, so what a chain tells of other blocks does not matter. On a node that keeps recent states
only every view call follows a look at the head, and the first look that finds the head beyond the block ends
the handling at once.
-/
namespace StakeIndex

open Dialogue Job

section Histories

variable {Request : Type} {Answer : Request → Type} {α : Type}

/-- The world that replies anything and remembers what was exchanged. -/
def Remembers (r : Request) (past : List (Exchange Answer)) (reply : Answer r)
    (past' : List (Exchange Answer)) : Prop :=
  past' = past ++ [⟨r, reply⟩]

/-- What programs that run side by side may have exchanged at some moment, whatever the replies, and what is
left of them then. -/
abbrev Exchanged (pool : List (Dialogue Request Answer α)) (past : List (Exchange Answer))
    (rest : List (Dialogue Request Answer α)) : Prop :=
  Reached Remembers pool [] rest past

variable {allowed : Request → Prop} {pool rest : List (Dialogue Request Answer α)}
  {past : List (Exchange Answer)}

theorem Exchanged.asks (exchanged : Exchanged pool past rest) {p : Protocol Answer}
    (relies : ∀ r reply, p.replies r reply) {promises : List (Promise Answer α)}
    (obeys : pool.Forall₂ (fun d promise => d.Obeys p promise) promises) : ∀ e ∈ past, p.asks e.1 := by
  have serves : Serves Remembers (fun past : List (Exchange Answer) => ∀ e ∈ past, p.asks e.1) p := by
    rintro r past reply _ asked may rfl
    refine ⟨relies r reply, fun e member => ?_⟩
    rcases List.mem_append.1 member with member | member
    · exact asked e member
    · exact List.mem_singleton.1 member ▸ may
  obtain ⟨-, -, -, -, -, -, -, asked⟩ :=
    Reached.keeps serves exchanged obeys fun _ member => (nomatch member)
  exact asked

section Worlds

variable {σ : Type} {d : Dialogue Request Answer α} {promise : Promise Answer α}
  (obeys : d.Obeys ⟨allowed, fun _ _ => True⟩ promise)
include obeys

/-- Worlds that answer alike what a program may ask cannot be told apart by it. -/
theorem Dialogue.Obeys.runs_congr {allows allows' : (r : Request) → σ → Answer r → σ → Prop}
    (alike : ∀ r, allowed r → ∀ s reply s', allows r s reply s' ↔ allows' r s reply s') {s s' : σ} {a : α} :
    Runs allows d s a s' ↔ Runs allows' d s a s' := by
  induction d generalizing promise s with
  | done b => constructor <;> rintro ⟨⟩ <;> exact .done ..
  | ask r next ih =>
    obtain ⟨may, rest⟩ := obeys
    constructor
    · rintro ⟨⟩
      next answered run => exact .ask ((alike r may ..).1 answered) ((ih _ (rest _ trivial)).1 run)
    · rintro ⟨⟩
      next answered run => exact .ask ((alike r may ..).2 answered) ((ih _ (rest _ trivial)).2 run)

theorem Dialogue.Obeys.run_congr {answer answer' : (r : Request) → σ → Answer r × σ}
    (alike : ∀ r, allowed r → answer r = answer' r) (s : σ) : d.run answer s = d.run answer' s := by
  induction d generalizing promise s with
  | done b => rfl
  | ask r next ih =>
    obtain ⟨may, rest⟩ := obeys
    rw [Dialogue.run, Dialogue.run, alike r may]
    exact ih _ (rest _ trivial) _

end Worlds

end Histories

section Pinned

/-- What may be asked at a height. On a node that keeps recent states only, `ready` tells that the head was
just read and was not beyond the height. -/
def MayAsk (mode : NodeMode) (height : Nat) (ready : Bool) : Request → Prop
  | .chain (.call block _ _) =>
    match mode with
    | .archive => block = .number height
    | .recent => block = .latest ∧ ready
  | .chain (.header k) => k = height
  | .chain .head => mode = .recent
  | .chain (.logs _ _ _) => False
  | .store _ => True
  | .shared _ => True

/-- Where the head is, if this was asked and answered. -/
def headRead? : (r : Request) → r.Answer → Option Nat
  | .chain .head, .ok n => some n
  | _, _ => none

variable {ρ ρ' : Type} {mode : NodeMode} {height : Nat} {refused : ρ → Prop} {refused' : ρ' → Prop}

/-- Programs that ask only what they may at a height. A head beyond it ends them with a refusal. -/
inductive Pinned (mode : NodeMode) (height : Nat) (refused : ρ → Prop) : Bool → Steps ρ → Prop where
  | done (ready : Bool) (result : ρ) : Pinned mode height refused ready (.done result)
  | ask {ready : Bool} {r : Request} {next : r.Answer → Steps ρ} : MayAsk mode height ready r →
    (∀ reply, (∀ n, headRead? r reply = some n → n ≤ height) →
      Pinned mode height refused (headRead? r reply).isSome (next reply)) →
    (∀ reply n, headRead? r reply = some n → height < n →
      ∃ result, refused result ∧ next reply = .done result) →
    Pinned mode height refused ready (.ask r next)

theorem MayAsk.mono {ready : Bool} {r : Request} (may : MayAsk mode height false r) :
    MayAsk mode height ready r := by
  cases r with
  | chain r =>
    cases r with
    | call block contract input =>
      cases mode with
      | archive => exact may
      | recent => exact nomatch may.2
    | _ => exact may
  | _ => trivial

theorem Pinned.mono {ready : Bool} {steps : Steps ρ} (pinned : Pinned mode height refused false steps) :
    Pinned mode height refused ready steps := by
  cases pinned with
  | done => exact .done ..
  | ask may rest ends => exact .ask may.mono rest ends

/-- What is no look at the head may be asked at any time. -/
theorem pinned_ask {ready : Bool} {r : Request} {next : r.Answer → Steps ρ}
    (may : MayAsk mode height ready r) (other : ∀ reply, headRead? r reply = none)
    (rest : ∀ reply, Pinned mode height refused false (next reply)) :
    Pinned mode height refused ready (.ask r next) := by
  refine .ask may (fun reply _ => ?_) fun reply n read => ?_
  · rw [other reply]
    exact rest reply
  · rw [other reply] at read
    cases read

theorem Pinned.bind {ready : Bool} {steps : Steps ρ} {f : ρ → Steps ρ'}
    (pinned : Pinned mode height refused ready steps)
    (next : ∀ result, Pinned mode height refused' false (f result))
    (ends : ∀ result, refused result → ∃ result', refused' result' ∧ f result = .done result') :
    Pinned mode height refused' ready (steps >>= f) := by
  induction pinned with
  | done ready result => exact (next result).mono
  | ask may _ last ih =>
    refine .ask may ih fun reply n read beyond => ?_
    obtain ⟨result, refusal, same⟩ := last reply n read beyond
    obtain ⟨result', refusal', same'⟩ := ends result refusal
    exact ⟨result', refusal', (congrArg (·.andThen f) same).trans same'⟩

/-- Whatever was read of the head, such a program asks nothing else. -/
theorem Pinned.obeys {ready : Bool} {steps : Steps ρ} (pinned : Pinned mode height refused ready steps) :
    steps.Obeys ⟨MayAsk mode height true, fun _ _ => True⟩ fun _ _ => True := by
  induction pinned with
  | done => trivial
  | @ask ready r next may _ ends ih =>
    refine ⟨?_, fun reply _ => ?_⟩
    · cases ready with
      | true => exact may
      | false => exact may.mono
    · by_cases inside : ∀ n, headRead? r reply = some n → n ≤ height
      · exact ih reply inside
      · push Not at inside
        obtain ⟨n, read, beyond⟩ := inside
        obtain ⟨result, -, same⟩ := ends reply n read beyond
        rw [same]
        trivial

/-- A job that was refused because the state it needs is not kept. -/
def Refused {α : Type} (result : Except Stop α) : Prop :=
  ∃ text, result = .error (.failed (.notSupported text))

variable {α β : Type}

theorem pinned_lift_bind {ready : Bool} {value : Except Failure α} {f : α → Job β}
    (next : ∀ a, Pinned mode height Refused ready (f a).run) :
    Pinned mode height Refused ready (lift value >>= f).run := by
  cases value with
  | ok a => exact next a
  | error failure => exact .done ..

theorem pinned_chain {ready : Bool} {what : String} {r : ChainRequest} (other : r ≠ .head)
    (may : MayAsk mode height ready (.chain r)) :
    Pinned mode height Refused ready (chain what r).run := by
  refine pinned_ask may (fun reply => ?_) fun reply => .done ..
  cases r with
  | head => exact absurd rfl other
  | _ => rfl

theorem Pinned.bind_job {ready : Bool} {job : Job α} {f : α → Job β}
    (pinned : Pinned mode height Refused ready job.run)
    (next : ∀ a, Pinned mode height Refused false (f a).run) :
    Pinned mode height Refused ready (job >>= f).run := by
  refine Pinned.bind pinned (fun result => ?_) fun result refusal => ?_
  · cases result with
    | ok a => exact next a
    | error stop => exact .done ..
  · obtain ⟨text, rfl⟩ := refusal
    exact ⟨_, ⟨text, rfl⟩, rfl⟩

theorem stateAt_recent (registry : Registry) (positive : 0 < height) : ∃ text : Nat → String,
    Context.stateAt ⟨registry, .recent⟩ height = (do
      let head ← Job.head
      if height < head then fail (.notSupported (text head)) else return .latest) := by
  obtain ⟨height, rfl⟩ := Nat.exists_eq_add_one_of_ne_zero positive.ne'
  exact ⟨_, rfl⟩

/-- The state to read is that of the block, or the latest one after a look at the head; or the head is beyond
the block. -/
theorem pinned_stateAt_bind {context : Context} (positive : 0 < height) {f : BlockRef → Job α}
    (next : ∀ block ready,
      (∀ contract input, MayAsk context.mode height ready (.chain (.call block contract input))) →
      Pinned context.mode height Refused ready (f block).run) :
    Pinned context.mode height Refused false (context.stateAt height >>= f).run := by
  obtain ⟨registry, mode⟩ := context
  cases mode with
  | archive =>
    have state : Context.stateAt ⟨registry, .archive⟩ height = pure (.number height) := by
      obtain ⟨height, rfl⟩ := Nat.exists_eq_add_one_of_ne_zero positive.ne'
      rfl
    rw [state, pure_bind]
    exact next (.number height) false fun _ _ => rfl
  | recent =>
    obtain ⟨text, state⟩ := stateAt_recent registry positive
    rw [state, bind_assoc]
    refine .ask rfl (fun reply inside => ?_) fun reply n read beyond => ?_
    · cases reply with
      | error fault => exact .done ..
      | ok n =>
        have within : ¬ height < n := Nat.not_lt.2 (inside n rfl)
        change Pinned _ _ _ true ((if height < n then fail (.notSupported (text n)) else pure .latest) >>= f).run
        rw [if_neg within, pure_bind]
        exact next .latest true fun _ _ => ⟨rfl, rfl⟩
    · cases reply with
      | error fault => cases read
      | ok head =>
        cases read
        refine ⟨.error (.failed (.notSupported (text n))), ⟨_, rfl⟩, ?_⟩
        change ((if height < n then fail (.notSupported (text n)) else pure .latest) >>= f).run = _
        rw [if_pos beyond]
        rfl

theorem pinned_call (c : ViewContract) (positive : 0 < height) (method : String)
    (arguments : List Abi.Value) :
    Pinned c.context.mode height Refused false (c.call height method arguments).run := by
  unfold ViewContract.call
  refine pinned_stateAt_bind positive fun block ready may => pinned_lift_bind fun f => ?_
  dsimp only
  split
  · rw [pure_bind]
    refine (pinned_chain (by simp) (may ..)).bind_job fun output => ?_
    split
    · exact .done ..
    · split <;> exact .done ..
  · exact .done ..

/-- Jobs that ask the chain by view calls at a height ask what they may there. -/
theorem CallsAt.pinned {context : Context} {job : Job α} (calls : CallsAt context height job)
    (positive : 0 < height) : Pinned context.mode height Refused false job.run := by
  induction calls with
  | pure a => exact .done ..
  | throw stop => exact .done ..
  | store r => exact pinned_ask trivial (fun _ => rfl) fun reply => .done ..
  | shared r => exact pinned_ask trivial (fun _ => rfl) fun reply => .done ..
  | call binding method arguments => exact pinned_call ⟨context, binding⟩ positive method arguments
  | bind _ _ first next => exact first.bind_job next
  | ifAny _ pinned =>
    refine pinned.bind (fun result => ?_) fun result refusal => ?_
    · split <;> exact .done ..
    · obtain ⟨text, rfl⟩ := refusal
      exact ⟨_, ⟨text, rfl⟩, rfl⟩

/-- The processing of a log that ends with such a refusal. -/
def RefusedLog (result : Except Stop ContractEvent × HeaderCache) : Prop := Refused result.1

theorem process_pinned (context : Context) (cache : HeaderCache) {log : RawLog} (positive : 0 < log.height) :
    Pinned context.mode log.height RefusedLog false (process context cache log) := by
  unfold process
  have dispatched : Pinned context.mode log.height RefusedLog false (dispatch context cache log) := by
    unfold dispatch
    cases context.registry.atAddress? log.address with
    | none => exact .done ..
    | some binding =>
      have fetched : Pinned context.mode log.height (fun _ => False) false (cache.fetch log.height) := by
        unfold HeaderCache.fetch
        cases cache.get? log.height with
        | some header => exact .done ..
        | none =>
          refine pinned_ask rfl (fun _ => rfl) fun reply => ?_
          cases reply <;> exact .done ..
      refine fetched.bind (fun fetched => ?_) fun _ => False.elim
      obtain ⟨header, cache⟩ := fetched
      cases header with
      | error stop => exact .done ..
      | ok header =>
        refine ((handleLog_callsAt context binding header log).pinned positive).bind
          (fun result => .done ..) fun result refusal => ?_
        exact ⟨(result, cache), refusal, rfl⟩
  refine dispatched.bind (fun dispatched => ?_) fun dispatched refusal => ?_
  · obtain ⟨result, cache⟩ := dispatched
    cases result with
    | error stop => exact .done ..
    | ok event =>
      refine pinned_ask trivial (fun _ => rfl) fun reply => ?_
      cases reply <;> exact .done ..
  · obtain ⟨result, cache⟩ := dispatched
    obtain ⟨text, same⟩ := refusal
    cases same
    exact ⟨_, ⟨text, rfl⟩, rfl⟩

theorem Pinned.makes {job : Job α} (pinned : Pinned mode height Refused false job.run) :
    Makes (MayAsk mode height true) job fun _ => True :=
  pinned.obeys.mono fun _ _ _ _ _ => trivial

namespace EpochSync

variable {context : Context} {version : Version} {c : SyncContracts}

theorem findContracts_context : ∀ c, findContracts context version = .ok c →
    c.validatorService.context = context ∧ c.nodes.context = context ∧ c.controller.context = context := by
  unfold findContracts
  dsimp only
  repeat refine ViewContract.ok_bind fun _ => ?_
  rintro c ⟨⟩
  exact ⟨rfl, rfl, rfl⟩

/-- The parts of a synchronisation ask what they may at its height. -/
theorem parts_pinned (found : findContracts context version = .ok c) (positive : 0 < height)
    (plan : SyncPlan) (time : Instant) : (parts plan c height time).Forall₂
      (fun d promise => d.Obeys (plainly (MayAsk context.mode height true)) promise)
      (List.replicate (max plan.workers 1 + 2) fun _ result => ∀ a, result = .ok a → True) := by
  obtain ⟨service, nodes, controller⟩ := findContracts_context c found
  refine plain_parts ?_ ?_ fun id => ?_
  · have calls := validators_callsAt c.validatorService height allIds 1
    rw [service] at calls
    exact (calls.pinned positive).makes
  · have calls := nodes_callsAt c.nodes height time allIds 1 (0, ∅)
    rw [nodes] at calls
    exact (calls.pinned positive).makes
  · have calls := delegation_callsAt c.controller height id
    rw [controller] at calls
    exact (calls.ifAny.pinned positive).makes.mono fun _ _ _ _ _ _ _ => trivial

end EpochSync

end Pinned

section Looking

variable {ρ : Type} {height : Nat} {refused : ρ → Prop} {ready : Bool}
  {past : List (Exchange Request.Answer)} {pool : List (Steps ρ)}

theorem reached_done {Request : Type} {Answer : Request → Type} {α σ : Type}
    {allows : (r : Request) → σ → Answer r → σ → Prop} {a : α} {s s' : σ}
    {pool : List (Dialogue Request Answer α)} (reached : Reached allows [.done a] s pool s') :
    pool = [.done a] ∧ s' = s := by
  generalize start : [Dialogue.done a] = programs at reached
  cases reached with
  | start => exact ⟨rfl, rfl⟩
  | @ask before after =>
    cases before with
    | nil => cases start
    | cons first before => cases before <;> cases start

/-- Every view call is for the latest state and comes right after a look that found the head at a height or
below. A look that finds it beyond is the last thing that is asked, and ends in a refusal. When `ready`, such
a look came before. -/
structure LooksFirst (height : Nat) (refused : ρ → Prop) (ready : Bool)
    (past : List (Exchange Request.Answer)) (pool : List (Steps ρ)) : Prop where
  calls : ∀ before block contract input reply after,
    past = before ++ ⟨.chain (.call block contract input), reply⟩ :: after → block = .latest ∧
      (before = [] ∧ ready = true ∨ ∃ earlier n, n ≤ height ∧ before = earlier ++ [⟨.chain .head, .ok n⟩])
  beyond : ∀ before n after, past = before ++ ⟨.chain .head, .ok n⟩ :: after → height < n →
    after = [] ∧ ∃ result, refused result ∧ pool = [.done result]

theorem looksFirst_nil : LooksFirst height refused ready [] pool where
  calls before _ _ _ _ _ split := by cases before <;> cases split
  beyond before _ _ split := by cases before <;> cases split

theorem headRead?_eq_some {r : Request} {reply : r.Answer} {n : Nat} (read : headRead? r reply = some n) :
    (⟨r, reply⟩ : Exchange Request.Answer) = ⟨.chain .head, .ok n⟩ := by
  cases r with
  | chain r =>
    cases r with
    | head =>
      cases reply with
      | ok m =>
        cases read
        rfl
      | error fault => cases read
    | _ => cases read
  | _ => cases read

theorem LooksFirst.cons {r : Request} {reply : r.Answer} (may : MayAsk .recent height ready r)
    (inside : ∀ n, headRead? r reply = some n → n ≤ height)
    (looks : LooksFirst height refused (headRead? r reply).isSome past pool) :
    LooksFirst height refused ready (⟨r, reply⟩ :: past) pool where
  calls before block contract input reply' after split := by
    cases before with
    | nil =>
      cases split
      exact ⟨may.1, .inl ⟨rfl, may.2⟩⟩
    | cons first before =>
      obtain ⟨rfl, rfl⟩ := List.cons.inj split
      obtain ⟨latest, ⟨rfl, read⟩ | ⟨earlier, n, within, rfl⟩⟩ := looks.calls _ _ _ _ _ _ rfl
      · obtain ⟨n, read⟩ := Option.isSome_iff_exists.1 read
        exact ⟨latest, .inr ⟨[], n, inside n read, congrArg ([·]) (headRead?_eq_some read)⟩⟩
      · exact ⟨latest, .inr ⟨_ :: earlier, n, within, rfl⟩⟩
  beyond before n after split above := by
    cases before with
    | nil =>
      cases split
      exact absurd (inside n rfl) (Nat.not_le.2 above)
    | cons first before =>
      obtain ⟨rfl, rfl⟩ := List.cons.inj split
      exact looks.beyond _ n after rfl above

/-- A program that is pinned to a height looks first, at every moment of its run. -/
theorem Pinned.looksFirst {steps : Steps ρ} (pinned : Pinned .recent height refused ready steps)
    {start : List (Exchange Request.Answer)} (reached : Reached Remembers [steps] start pool past) :
    ∃ later, past = start ++ later ∧ LooksFirst height refused ready later pool := by
  generalize alone : [steps] = programs at reached
  induction reached generalizing steps ready with
  | start pool past => exact ⟨[], (List.append_nil past).symm, looksFirst_nil⟩
  | @ask before after pool' r next reply s s' s'' remembered reached ih =>
    cases before with
    | cons first before => cases before <;> cases alone
    | nil =>
    cases alone
    cases remembered
    cases pinned with
    | ask may rest ends =>
      by_cases inside : ∀ n, headRead? r reply = some n → n ≤ height
      · obtain ⟨later, rfl, looks⟩ := ih (rest reply inside) rfl
        exact ⟨⟨r, reply⟩ :: later, List.append_assoc .., looks.cons may inside⟩
      · push Not at inside
        obtain ⟨n, read, above⟩ := inside
        obtain ⟨result, refusal, same⟩ := ends reply n read above
        rw [List.nil_append, same] at reached
        obtain ⟨rfl, rfl⟩ := reached_done reached
        refine ⟨[⟨r, reply⟩], rfl, ⟨?_, ?_⟩⟩
        · intro before block contract input reply' after split
          rw [headRead?_eq_some read] at split
          cases before with
          | nil => cases split
          | cons first before => cases before <;> cases split
        · intro before m after split _
          cases before with
          | nil =>
            cases split
            exact ⟨rfl, result, refusal, rfl⟩
          | cons first before => cases before <;> cases split

end Looking

/-- On a node that keeps all states every view call of a log and of a synchronisation is for their block, and
two chains that agree on that block are not told apart. On a node that keeps recent states only every view call
of a log comes right after a look at the head, and the first look that finds it beyond the block is the end. -/
theorem reads_pinned_to_height (context : Context) :
    (context.mode = .archive →
      (∀ cache log past pool, 0 < log.height → Exchanged [process context cache log] past pool →
        ∀ block contract input reply,
          ⟨.chain (.call block contract input), reply⟩ ∈ past → block = .number log.height) ∧
      (∀ plan version c height time past pool, 0 < height → EpochSync.findContracts context version = .ok c →
        Exchanged (EpochSync.parts plan c height time) past pool →
        ∀ block contract input reply,
          ⟨.plain (.chain (.call block contract input)), reply⟩ ∈ past → block = .number height) ∧
      ∀ cache log (chain chain' : ChainAnswers), 0 < log.height →
        chain (.header log.height) = chain' (.header log.height) →
        (∀ contract input, chain (.call (.number log.height) contract input) =
          chain' (.call (.number log.height) contract input)) →
        (∀ t result t', Runs (Allows chain) (process context cache log) t result t' ↔
          Runs (Allows chain') (process context cache log) t result t') ∧
        ∀ refused t, (process context cache log).run (answering chain refused) t =
          (process context cache log).run (answering chain' refused) t) ∧
    (context.mode = .recent →
      ∀ cache log past pool, 0 < log.height → Exchanged [process context cache log] past pool →
        LooksFirst log.height RefusedLog false past pool) := by
  refine ⟨fun archive => ⟨?_, ?_, ?_⟩, fun recent cache log past pool positive exchanged => ?_⟩
  · intro cache log past pool positive exchanged block contract input reply member
    have pinned := process_pinned context cache positive
    rw [archive] at pinned
    exact exchanged.asks (fun _ _ => trivial) (.cons pinned.obeys .nil) _ member
  · intro plan version c height time past pool positive found exchanged block contract input reply member
    have parts := EpochSync.parts_pinned found positive plan time
    rw [archive] at parts
    exact exchanged.asks (fun _ _ => trivial) parts _ member
  · intro cache log chain chain' positive dated agree
    have pinned := process_pinned context cache positive
    rw [archive] at pinned
    have told (r : ChainRequest) (may : MayAsk .archive log.height true (.chain r)) :
        chain r = chain' r := by
      cases r with
      | call block contract input =>
        cases may
        exact agree contract input
      | header k =>
        cases may
        exact dated
      | head => cases may
      | logs => cases may
    refine ⟨fun t result t' => pinned.obeys.runs_congr fun r may s reply s' => ?_, fun refused t =>
      pinned.obeys.run_congr (fun r may => funext fun s => ?_) t⟩
    · cases r with
      | chain r =>
        cases r with
        | head => rfl
        | _ => simp only [Allows, told _ may]
      | _ => rfl
    · cases r with
      | chain r =>
        cases r with
        | head => rfl
        | _ => simp only [answering, told _ may]
      | store r => rfl
      | shared r => cases r <;> rfl
  · have pinned := process_pinned context cache positive
    rw [recent] at pinned
    obtain ⟨later, rfl, looks⟩ := pinned.looksFirst exchanged
    exact looks

section Turns

variable {Request : Type} {Answer : Request → Type} {α : Type}

/-- Programs that take turns and get fixed replies: what is left of them, and what was exchanged. -/
def exchanging (answer : (r : Request) → Answer r) (turns : List Nat)
    (at_ : List (Dialogue Request Answer α) × List (Exchange Answer)) :
    List (Dialogue Request Answer α) × List (Exchange Answer) :=
  turns.foldl (advance fun r past => (answer r, past ++ [⟨r, answer r⟩])) at_

theorem reached_exchanging (answer : (r : Request) → Answer r) (turns : List Nat)
    (pool : List (Dialogue Request Answer α)) (past : List (Exchange Answer)) :
    Reached Remembers pool past (exchanging answer turns (pool, past)).1
      (exchanging answer turns (pool, past)).2 :=
  reached_of_turns (fun _ _ => rfl) turns pool past

end Turns

section Side

/-- The state that a view call reads. -/
def stateRead? : Exchange Request.Answer → Option BlockRef
  | ⟨.chain (.call block _ _), _⟩ => some block
  | _ => none

def partStateRead? : Exchange PartRequest.Answer → Option BlockRef
  | ⟨.plain (.chain (.call block _ _)), _⟩ => some block
  | _ => none

/-- The replies of a chain whose head is somewhere. -/
def withHead (head : Nat) (chain : ChainAnswers) (r : Request) : r.Answer :=
  match r with
  | .chain .head => .ok head
  | r => (answering chain (fun _ => false) r Tables.empty).1

/-- A chain that tells of one block only. -/
def onlyAt (height : Nat) (chain : ChainAnswers) : ChainAnswers
  | .call block contract input =>
    if block = .number height then chain (.call block contract input) else .error .silent
  | .header k => if k = height then chain (.header k) else .error .silent
  | _ => .error .silent

def recentContext : Context := { pairContext with mode := .recent }

/-- A delegation that is proposed in block 20 takes three view calls, and a synchronisation at block 20 many. A
node with recent states only makes them while its head is at block 20, and none when it is at block 21. -/
theorem reads_pinned_to_height_proposed :
    let handling := fun context => [process context HeaderCache.empty (proposedLog 1 20)]
    let archive := exchanging (withHead 30 pairChain) (.replicate 20 0) (handling pairContext, [])
    let parts := exchanging (fun r => (replying (holding 1 1 1) r (.start .empty .empty)).1)
      ((List.range 30).map (· % 3)) (EpochSync.parts ⟨1, 1⟩ holdingContracts 20 (.ofSeconds 20), [])
    let inTime := exchanging (withHead 20 pairChain) (.replicate 20 0) (handling recentContext, [])
    let late := exchanging (withHead 21 pairChain) (.replicate 20 0) (handling recentContext, [])
    (archive.2.filterMap stateRead? = .replicate 3 (.number 20) ∧
      ∀ block contract input reply, ⟨.chain (.call block contract input), reply⟩ ∈ archive.2 →
        block = .number 20) ∧
    (parts.2.filterMap partStateRead? ≠ [] ∧
      ∀ block contract input reply, ⟨.plain (.chain (.call block contract input)), reply⟩ ∈ parts.2 →
        block = .number 20) ∧
    (∀ t, (process pairContext .empty (proposedLog 1 20)).run (answering pairChain fun _ => false) t =
      (process pairContext .empty (proposedLog 1 20)).run
        (answering (onlyAt 20 pairChain) fun _ => false) t) ∧
    (inTime.2.filterMap stateRead? = .replicate 3 .latest ∧
      LooksFirst 20 RefusedLog false inTime.2 inTime.1) ∧
    late.2.length = 2 ∧ LooksFirst 20 RefusedLog false late.2 late.1 := by
  intro handling archive parts inTime late
  have found : EpochSync.findContracts holdingContext ⟨"1.0.0"⟩ = .ok holdingContracts := rfl
  have pair := (reads_pinned_to_height pairContext).1 rfl
  have held := (reads_pinned_to_height holdingContext).1 rfl
  have recent := (reads_pinned_to_height recentContext).2 rfl
  refine ⟨⟨by decide +kernel, ?_⟩, ⟨by decide +kernel, ?_⟩, ?_, ⟨by decide +kernel, ?_⟩, by decide +kernel, ?_⟩
  · exact pair.1 .empty (proposedLog 1 20) _ _ (by decide) (reached_exchanging ..)
  · exact held.2.1 ⟨1, 1⟩ _ _ 20 _ _ _ (by decide) found (reached_exchanging ..)
  · exact (pair.2.2 .empty (proposedLog 1 20) pairChain (onlyAt 20 pairChain) (by decide) rfl
      fun _ _ => rfl).2 _
  · exact recent .empty (proposedLog 1 20) _ _ (by decide) (reached_exchanging ..)
  · exact recent .empty (proposedLog 1 20) _ _ (by decide) (reached_exchanging ..)

end Side

end StakeIndex
