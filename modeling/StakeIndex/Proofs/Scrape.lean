import StakeIndex.Proofs.Process
import StakeIndex.Proofs.Stake

/-!
The stake that a scrape ends with. Each log of a contract of delegations observes one delegation at its
own block, and logs may be handled in any order. The series of a validator is right in the end if the last
log of its greatest block was handled last; otherwise it may keep a stake that later logs changed.
-/
namespace StakeIndex

open Job Tables

section Observing

variable {chain : ChainAnswers} {context : Context} {binding : Binding}

/-- What the chain tells of a delegation at a height, if it tells of it. -/
def ViewContract.told? (c : ViewContract) (chain : ChainAnswers) (id : Word) (height : Nat) :
    Option Delegation :=
  ((c.delegation id height).run.run (answering chain fun _ => false) Tables.empty).1.toOption

theorem ViewContract.told?_place {c : ViewContract} {id : Word} {height : Nat} {d : Delegation}
    (told : c.told? chain id height = some d) : d.id = id ∧ d.height = height :=
  (c.delegation_consults height id).told told

/-- The delegation that a log makes known, as the chain has it at the log's block. -/
def observed? (chain : ChainAnswers) (context : Context) (binding : Binding) (log : RawLog) :
    Option Delegation :=
  match DecodedLog.ofLog context.registry log with
  | .error _ => none
  | .ok decoded =>
    match DelegationEvent.read? decoded with
    | .ok (some parsed) =>
      (ViewContract.told? ⟨context, binding⟩ chain parsed.delegationId log.height).map fun told =>
        { told with txHash := log.txHash }
    | _ => none

/-- The writes about a delegation record it. -/
theorem records_writes (parsed : DelegationEvent) {d : Delegation} (count : Word) {e : ContractEvent}
    (place : d.height = e.height) (t : Tables) :
    Records (some d) t (t.performAll (parsed.writes d count e)) := by
  set accounts : List StoreRequest :=
    if count ≠ 0 then [.saveAccount ⟨d.holder, .delegator⟩] else [] with lifted
  set stored := t.performAll (.saveDelegation d :: accounts) with first
  set figured := (stored.perform (.calculate .totalStake (e.calculation d.validatorId))).2 with second
  set events := (parsed.systemEvents d e).map StoreRequest.saveSystemEvent with told
  have split : t.performAll (parsed.writes d count e) = figured.performAll events := by
    rw [second, first, ← performAll_cons, ← performAll_append]
    rfl
  have rows : stored.delegations = t.delegations.insert (d.id, d.height) d ∧
      stored.validatorStatistics = t.validatorStatistics := by
    rw [first, lifted]
    split <;> exact ⟨rfl, rfl⟩
  have kept : (figured.performAll events).delegations = stored.delegations ∧
      (figured.performAll events).validatorStatistics = figured.validatorStatistics := by
    refine performAll_invariant (fun s => s.delegations = stored.delegations ∧
      s.validatorStatistics = figured.validatorStatistics) ⟨?_, rfl⟩ fun r member s same => ?_
    · exact calculate_frame Tables.delegations (fun _ _ _ => rfl) ..
    · obtain ⟨event, -, rfl⟩ := List.mem_map.1 member
      exact same
  have series : figured.validatorStatistics =
      (t.saveValidatorStatistic (stored.calculated .totalStake
        (e.calculation d.validatorId))).validatorStatistics := by
    rw [second, performed_calculate]
    exact saveAll_congr [_] rows.2
  rw [split]
  refine ⟨kept.1.trans rows.1, e.time, ?_⟩
  rw [kept.1, kept.2, series, calculated_totalStake, place]
  rfl

/-- The handling of a log of a contract of delegations records what the log makes known. -/
theorem handleLog_records {log : RawLog} {header : BlockHeader} {t t' : Tables} {e : ContractEvent}
    (role : binding.name = .delegationController)
    (attempt : AttemptAt chain (handleLog context binding header log) t (.ok e) t') :
    Records (observed? chain context binding log) t t' := by
  unfold handleLog at attempt
  unfold observed?
  cases decoding : DecodedLog.ofLog context.registry log with
  | error failure =>
    rw [decoding] at attempt
    exact absurd attempt (never_throw _ |>.bind _ _ _)
  | ok decoded =>
    rw [decoding] at attempt
    obtain ⟨_, _, done, attempt⟩ := completed_bind attempt
    obtain ⟨same, rfl⟩ := attempt_pure_iff.1 done
    cases same
    unfold handleEvent at attempt
    simp only [role] at attempt
    obtain never | ⟨nothing, does⟩ | ⟨parsed, read, d, count, known, told, -, rfl, does⟩ :=
      handleDelegation_cases chain ⟨context, binding⟩ decoded (.ofLog binding header log decoded)
    · exact absurd attempt (never _ _ _)
    · obtain ⟨-, rfl⟩ := (does _).unique attempt
      simp only [nothing]
      exact ⟨rfl, rfl⟩
    · obtain ⟨-, rfl⟩ := (does _).unique attempt
      have told : ViewContract.told? ⟨context, binding⟩ chain parsed.delegationId log.height =
          some read := told
      obtain ⟨-, place⟩ := ViewContract.told?_place told
      simp only [known, told, Option.map_some]
      exact records_writes parsed count place _

/-- A completed attempt at a log of a contract of delegations records what the log makes known. -/
theorem process_records {log : RawLog} {cache after : HeaderCache} {t t' : Tables} {e : ContractEvent}
    (role : binding.name = .delegationController)
    (found : context.registry.atAddress? log.address = some binding)
    (faithful : cache.Faithful chain log.height)
    (attempt : ProcessAttempt chain context log cache t (.ok e) after t') :
    Records (observed? chain context binding log) t t' := by
  obtain ⟨stop, wrong, -⟩ | ⟨binding', header, found', dated, attempt⟩ :=
    attempt_of_process faithful attempt
  · cases wrong
  cases found.symm.trans found'
  obtain ⟨s, handling, stored⟩ := recordLog_completed attempt
  refine (handleLog_records role handling).silent ?_
  obtain ⟨-, rfl⟩ := (does_store s (.saveContractEvent e)).unique stored
  exact ⟨saveContractEvent_frame Tables.delegations (fun _ _ _ => rfl) e s,
    saveContractEvent_frame validatorStatistics (fun _ _ _ => rfl) e s⟩

end Observing

section Scraping

/-- Logs handled one after another, each with some cache and without error. -/
inductive Handled (chain : ChainAnswers) (context : Context) : List RawLog → Tables → Tables → Prop where
  | nil (t : Tables) : Handled chain context [] t t
  | cons {log : RawLog} {logs : List RawLog} {cache after : HeaderCache} {t t' t'' : Tables}
    {e : ContractEvent} : cache.Faithful chain log.height →
    ProcessAttempt chain context log cache t (.ok e) after t' → Handled chain context logs t' t'' →
    Handled chain context (log :: logs) t t''

variable {chain : ChainAnswers} {context : Context} {binding : Binding} {home : Word → Word}
  {logs : List RawLog} {t t' : Tables}

/-- The tables after some logs when all questions are answered. -/
def afterLogs (chain : ChainAnswers) (context : Context) (logs : List RawLog) (t : Tables) : Tables :=
  logs.foldl (fun t log => ((process context .empty log).run (answering chain fun _ => false) t).2) t

/-- Whether all of some logs are handled without error when all questions are answered. -/
def allHandled (chain : ChainAnswers) (context : Context) : List RawLog → Tables → Bool
  | [], _ => true
  | log :: logs, t =>
    let done := (process context .empty log).run (answering chain fun _ => false) t
    done.1.1.isOk && allHandled chain context logs done.2

theorem handled_afterLogs (done : allHandled chain context logs t) :
    Handled chain context logs t (afterLogs chain context logs t) := by
  induction logs generalizing t with
  | nil => exact .nil t
  | cons log logs ih =>
    obtain ⟨completed, others⟩ := Bool.and_eq_true_iff.1 done
    have run := Dialogue.runs_of_run (answering_allowed chain fun _ => false)
      (process context .empty log) t
    cases result : ((process context .empty log).run (answering chain fun _ => false) t).1.1 with
    | error stop =>
      rw [result] at completed
      cases completed
    | ok e =>
      rw [← Prod.eta ((process context .empty log).run _ t).1, result] at run
      exact .cons (HeaderCache.faithful_empty chain log.height) run (ih others)

theorem Handled.split {earlier later : List RawLog} {log : RawLog}
    (handled : Handled chain context (earlier ++ log :: later) t t') :
    ∃ s s', Handled chain context earlier t s ∧ Handled chain context [log] s s' ∧
      Handled chain context later s' t' := by
  induction earlier generalizing t with
  | nil =>
    cases handled with
    | cons faithful attempt rest =>
      exact ⟨t, _, .nil t, .cons faithful attempt (.nil _), rest⟩
  | cons first earlier ih =>
    cases handled with
    | cons faithful attempt rest =>
      obtain ⟨s, s', before, one, after⟩ := ih rest
      exact ⟨s, s', .cons faithful attempt before, one, after⟩

theorem Handled.recorded (role : binding.name = .delegationController)
    (handled : Handled chain context logs t t')
    (mine : ∀ log ∈ logs, context.registry.atAddress? log.address = some binding) :
    Recorded (observed? chain context binding) logs t t' := by
  induction handled with
  | nil => exact .nil _
  | cons faithful attempt _ ih =>
    obtain ⟨found, others⟩ := List.forall_mem_cons.1 mine
    exact .cons (process_records role found faithful attempt) (ih others)

/-- A delegation stays with one validator at all heights, as the chain tells. -/
def ViewContract.Stays (c : ViewContract) (chain : ChainAnswers) (home : Word → Word) : Prop :=
  ∀ id height d, c.told? chain id height = some d → d.validatorId = home id

theorem observed?_steady (stays : ViewContract.Stays ⟨context, binding⟩ chain home) {log : RawLog}
    {d : Delegation} (seen : observed? chain context binding log = some d) :
    d.validatorId = home d.id ∧ d.height = log.height := by
  unfold observed? at seen
  split at seen
  · cases seen
  split at seen
  · obtain ⟨told, known, rfl⟩ := Option.map_eq_some_iff.1 seen
    obtain ⟨same, place⟩ := ViewContract.told?_place known
    exact ⟨(stays _ _ _ known).trans (congrArg home same.symm), place⟩
  · cases seen

/-- Logs of one contract of delegations are handled in some order, on a chain where a delegation stays
with its validator. A validator without logs has no stake and no rows. For any other one, take the last
log of its greatest block: the amount that its handling computed stays on top of the series. The series
ends with the stake exactly if that amount is the stake in the end; or, where the row was left out since
the rows below carried that amount already, if what stands below in the end is. So it does when no log of
the validator came later, as when logs are handled in the order of their blocks. -/
theorem latest_stake_iff (role : binding.name = .delegationController)
    (mine : ∀ log ∈ logs, context.registry.atAddress? log.address = some binding)
    (stays : ViewContract.Stays ⟨context, binding⟩ chain home)
    (handled : Handled chain context logs Tables.empty t) (id : Word) :
    ((∀ log ∈ logs, ∀ d, observed? chain context binding log = some d → d.validatorId ≠ id) ∧
        t.latestAmount id .totalStake = 0 ∧ t.stake id = 0 ∨
      ∃ earlier log later d s s', logs = earlier ++ log :: later ∧ d.validatorId = id ∧
        LastOfGreatest (observed? chain context binding) earlier log later d ∧
        Handled chain context earlier Tables.empty s ∧ Handled chain context [log] s s' ∧
        Handled chain context later s' t ∧
        (t.latestAmount id .totalStake = t.stake id ↔
          (if s.amountBelow? id .totalStake log.height = some (s'.stake id) then
            (t.amountBelow? id .totalStake log.height).getD 0
          else s'.stake id) = t.stake id) ∧
        ((∀ other ∈ later, ∀ d, observed? chain context binding other = some d →
          d.validatorId ≠ id) → t.latestAmount id .totalStake = t.stake id)) ∧
      (logs.Pairwise (·.height ≤ ·.height) → t.latestAmount id .totalStake = t.stake id) := by
  have steady : ∀ log ∈ logs, ∀ d, observed? chain context binding log = some d →
      d.validatorId = home d.id := fun log _ d seen => (observed?_steady stays seen).1
  obtain absent | ⟨earlier, log, later, d, rfl, rfl, last⟩ :=
    exists_lastOfGreatest (observed? chain context binding) id logs
  · have nothing := (handled.recorded role mine).unseen steady absent
    exact ⟨.inl ⟨absent, nothing⟩, fun _ => nothing.1.trans nothing.2.symm⟩
  obtain ⟨s, s', before, one, after⟩ := handled.split
  simp only [List.forall_mem_append, List.forall_mem_cons] at mine
  obtain ⟨mine, mine', mine''⟩ := mine
  have step : Records (observed? chain context binding log) s s' := by
    cases one with
    | cons faithful attempt rest =>
      cases rest
      exact process_records role mine' faithful attempt
  have run : RecordedAround (observed? chain context binding) home earlier log later d s s' t :=
    ⟨last, steady, before.recorded role mine, step, after.recorded role mine''⟩
  have place := (observed?_steady stays last.seen).2
  refine ⟨.inr ⟨earlier, log, later, d, s, s', rfl, rfl, last, before, one, after, ?_,
    run.latestAmount_of_last⟩, fun ordered => ?_⟩
  · rw [run.latestAmount_eq, place]
  · refine run.latestAmount_of_last fun other member d' seen same => ?_
    have above := (List.pairwise_cons.1 (List.pairwise_append.1 ordered).2.1).1 other member
    have below := last.after other member d' seen same
    have place' := (observed?_steady stays seen).2
    omega

/-- A log of a proposed delegation in a block. -/
def proposedLog (id height : Nat) : RawLog :=
  ⟨.zero, [.ofWord 7, .ofWord (.ofNat id)], [], height, .zero, 0, false⟩

/-- A contract of delegations with the views that the handling calls. -/
def delegationBinding : Binding where
  name := .delegationController
  version := ⟨"1.0.0"⟩
  address := .zero
  interface := ⟨[
    .function ⟨"getDelegation", [⟨"delegationId", .uint 256, false⟩],
      [⟨"holder", .address, false⟩, ⟨"validatorId", .uint 256, false⟩,
        ⟨"amount", .uint 256, false⟩, ⟨"delegationPeriod", .uint 256, false⟩,
        ⟨"created", .uint 256, false⟩, ⟨"started", .uint 256, false⟩,
        ⟨"finished", .uint 256, false⟩, ⟨"info", .string, false⟩]⟩,
    .function ⟨"getState", [⟨"delegationId", .uint 256, false⟩], [⟨"state", .uint 8, false⟩]⟩,
    .function ⟨"getDelegationsByHolderLength", [⟨"holder", .address, false⟩],
      [⟨"", .uint 256, false⟩]⟩]⟩

/-- That contract alone, and its event under a selector. -/
def delegationContext : Context where
  mode := .archive
  registry := {
    byAddress := Table.empty.insert .zero delegationBinding
    byVersion := ∅
    events := Table.empty.insert (.ofWord 7)
      ⟨"DelegationProposed", [⟨"delegationId", .uint 256, true⟩], false⟩ }

/-- A chain that answers all calls alike: with the holder of number 4, validator 1 and an amount of 100.
The first word is also the stage of a delegation, which counts towards the stake. -/
def evenChain : ChainAnswers
  | .header height => .ok ⟨height, .zero, height⟩
  | .logs .. => .ok []
  | .head => .ok 0
  | .call .. => .ok ([4, 1, 100, 0, 0, 0, 0, 256, 0].flatMap Abi.wordOf)

set_option maxRecDepth 100000 in
theorem told?_evenChain (id : Word) (height : Nat) :
    ViewContract.told? ⟨delegationContext, delegationBinding⟩ evenChain id height =
      some ⟨id, .ofWord 4, 1, 100, 0, .ofSeconds 0, 0, 0, "", .delegated, height, .zero⟩ := by
  cases height <;> rfl

theorem stays_evenChain : ViewContract.Stays ⟨delegationContext, delegationBinding⟩ evenChain
    fun _ => 1 := by
  intro id height d told
  rw [told?_evenChain] at told
  cases told
  rfl

theorem proposedLog_address (id height : Nat) :
    delegationContext.registry.atAddress? (proposedLog id height).address = some delegationBinding :=
  rfl

/-- Two delegations in the order of their blocks. -/
theorem latest_stake_by_block :
    let logs := [proposedLog 1 10, proposedLog 2 20]
    let t := afterLogs evenChain delegationContext logs Tables.empty
    Handled evenChain delegationContext logs Tables.empty t ∧
      t.latestAmount 1 .totalStake = t.stake 1 := by
  intro logs t
  have handled : Handled evenChain delegationContext logs Tables.empty t :=
    handled_afterLogs (by decide +kernel)
  have mine : ∀ log ∈ logs, delegationContext.registry.atAddress? log.address =
      some delegationBinding := by
    intro log member
    simp only [logs, List.mem_cons, List.not_mem_nil, or_false] at member
    obtain rfl | rfl := member
    · exact proposedLog_address ..
    · exact proposedLog_address ..
  exact ⟨handled, (latest_stake_iff rfl mine stays_evenChain handled 1).2 (by decide)⟩

/-- The same two the other way round: the row of the greater block has the one delegation only. -/
theorem not_latest_stake :
    let first := proposedLog 1 10
    let second := proposedLog 2 20
    let t := afterLogs evenChain delegationContext [second, first] Tables.empty
    let t' := afterLogs evenChain delegationContext [first, second] Tables.empty
    delegationBinding.name = .delegationController ∧
      (∀ log ∈ [first, second], 0 < log.height ∧
        delegationContext.registry.atAddress? log.address = some delegationBinding) ∧
      ViewContract.Stays ⟨delegationContext, delegationBinding⟩ evenChain (fun _ => 1) ∧
      Handled evenChain delegationContext [second, first] Tables.empty t ∧
      Handled evenChain delegationContext [first, second] Tables.empty t' ∧
      t.latestAmount 1 .totalStake = 100 ∧ t.stake 1 = 200 ∧
      t'.latestAmount 1 .totalStake = 200 ∧ t'.stake 1 = 200 := by
  refine ⟨rfl, ?_, stays_evenChain, handled_afterLogs ?_, handled_afterLogs ?_, ?_⟩
  · intro log member
    simp only [List.mem_cons, List.not_mem_nil, or_false] at member
    obtain rfl | rfl := member
    · exact ⟨by decide, proposedLog_address ..⟩
    · exact ⟨by decide, proposedLog_address ..⟩
  all_goals decide +kernel

end Scraping

end StakeIndex
