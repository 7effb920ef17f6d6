import StakeIndex.Proofs.ScrapeReports

/-!
Completeness of a scrape. However its workers take turns and whenever it is called off, each log that was
taken has one output, the report shows it, and the report is clean just when the events of all logs are
stored. To run the workers one after another is one of the orders.
-/
namespace StakeIndex.Scraping

open Dialogue Job ScrapeSteps

section Numbers

variable {logs : List RawLog}

theorem mem_numbered {order : Nat} {log : RawLog} :
    (order, log) ∈ numbered logs ↔ logs[order]? = some log := by
  unfold numbered
  rw [List.mem_iff_getElem?]
  constructor
  · rintro ⟨place, found⟩
    obtain ⟨at_, there⟩ := List.getElem?_zip_eq_some.1 found
    obtain ⟨inside, rfl⟩ := List.getElem?_eq_some_iff.1 at_
    rwa [List.getElem_range]
  · intro there
    obtain ⟨inside, -⟩ := List.getElem?_eq_some_iff.1 there
    refine ⟨order, List.getElem?_zip_eq_some.2 ⟨?_, there⟩⟩
    exact List.getElem?_range inside

theorem orders_numbered (logs : List RawLog) : (numbered logs).map (·.1) = List.range logs.length := by
  unfold numbered
  exact List.map_fst_zip (by simp)

theorem length_numbered (logs : List RawLog) : (numbered logs).length = logs.length := by
  simp [numbered]

end Numbers

variable {heedsCancel : Bool} {logs : List RawLog} {t : Tables} {w : ScrapeWorld}

theorem Ended.orders (ended : Ended heedsCancel logs t w) : (w.delivered.map (·.order)).Nodup := by
  have all : ((w.taken ++ w.waiting).map (·.1)).Nodup := by
    rw [ended.queue, orders_numbered]
    exact List.nodup_range
  rw [List.map_append] at all
  have same : (w.taken.map (·.1)).Perm (w.delivered.map (·.order)) := by
    have places := ended.taken.map (·.1)
    rwa [List.map_map] at places
  exact same.nodup_iff.1 (List.nodup_append.1 all).1

theorem Ended.own (ended : Ended heedsCancel logs t w) {output : ScrapeOutput}
    (member : output ∈ w.delivered) : logs[output.order]? = some output.log := by
  have taken : (output.order, output.log) ∈ w.taken :=
    ended.taken.mem_iff.2 (List.mem_map_of_mem member)
  rw [← mem_numbered, ← ended.queue]
  exact List.mem_append_left _ taken

theorem Ended.of_order (ended : Ended heedsCancel logs t w) {output output' : ScrapeOutput}
    (member : output ∈ w.delivered) (member' : output' ∈ w.delivered)
    (same : output.order = output'.order) : output = output' :=
  List.inj_on_of_nodup_map ended.orders member member' same

theorem Ended.length_le (ended : Ended heedsCancel logs t w) : w.delivered.length ≤ logs.length := by
  have taken := ended.taken.length_eq
  have queue := congrArg List.length ended.queue
  rw [List.length_map] at taken
  rw [List.length_append, length_numbered] at queue
  omega

/-- All logs have been taken just when there is an output for each. -/
theorem Ended.complete_iff (ended : Ended heedsCancel logs t w) :
    w.delivered.length = logs.length ↔ w.waiting = [] := by
  have taken := ended.taken.length_eq
  have queue := congrArg List.length ended.queue
  rw [List.length_map] at taken
  rw [List.length_append, length_numbered] at queue
  rw [← List.length_eq_zero_iff]
  omega

theorem Ended.mem_saved (ended : Ended heedsCancel logs t w) {order : Nat} {e : ContractEvent} :
    (order, e) ∈ w.saved ↔ ∃ output ∈ w.delivered, output.order = order ∧ output.result = .ok e := by
  rw [ended.saved.mem_iff, List.mem_filterMap]
  exact exists_congr fun output => and_congr_right fun _ => saved?_eq_some_iff

theorem orders_saved (outputs : List ScrapeOutput) :
    ((outputs.filterMap saved?).map (·.1)).Sublist (outputs.map (·.order)) := by
  induction outputs with
  | nil => exact .refl _
  | cons output rest ih =>
    rw [List.map_cons]
    cases stored : saved? output with
    | none =>
      rw [List.filterMap_cons_none stored]
      exact ih.cons _
    | some entry =>
      obtain ⟨same, -⟩ := saved?_eq_some_iff.1 stored
      rw [List.filterMap_cons_some stored, List.map_cons, same]
      exact ih.cons_cons _

theorem Ended.saved_once (ended : Ended heedsCancel logs t w) : (w.saved.map (·.1)).Nodup := by
  rw [(ended.saved.map _).nodup_iff]
  exact ended.orders.sublist (orders_saved _)

/-- All events are stored just when there is an output for each log and none of them is a failure. -/
theorem Ended.all_saved_iff (ended : Ended heedsCancel logs t w) :
    (∀ order < logs.length, ∃ e, (order, e) ∈ w.saved) ↔
      w.delivered.length = logs.length ∧ ∀ output ∈ w.delivered, output.result.isOk := by
  constructor
  · intro all
    have covered : List.range logs.length ⊆ w.delivered.map (·.order) := by
      intro order inside
      obtain ⟨e, saved⟩ := all order (List.mem_range.1 inside)
      obtain ⟨output, member, rfl, -⟩ := ended.mem_saved.1 saved
      exact List.mem_map_of_mem member
    have enough := (List.subperm_of_subset List.nodup_range covered).length_le
    rw [List.length_range, List.length_map] at enough
    refine ⟨Nat.le_antisymm ended.length_le enough, fun output member => ?_⟩
    obtain ⟨inside, -⟩ := List.getElem?_eq_some_iff.1 (ended.own member)
    obtain ⟨e, saved⟩ := all output.order inside
    obtain ⟨output', member', same, well⟩ := ended.mem_saved.1 saved
    rw [ended.of_order member member' same.symm, well]
    rfl
  · rintro ⟨complete, well⟩ order inside
    have queue := ended.queue
    rw [ended.complete_iff.1 complete, List.append_nil] at queue
    have taken : (order, logs[order]) ∈ w.taken := by
      rw [queue, mem_numbered]
      exact List.getElem?_eq_getElem inside
    obtain ⟨output, member, same⟩ := List.mem_map.1 (ended.taken.mem_iff.1 taken)
    cases result : output.result with
    | error failure =>
      have wrong := well output member
      rw [result] at wrong
      cases wrong
    | ok e => exact ⟨e, ended.mem_saved.2 ⟨output, member, congrArg Prod.fst same, result⟩⟩

/-- Outputs by height and then by place in the block. -/
def InOrder (outputs : List ScrapeOutput) : Prop :=
  outputs.Pairwise fun a b =>
    a.log.height < b.log.height ∨ a.log.height = b.log.height ∧ a.log.logIndex ≤ b.log.logIndex

theorem notAfter_iff {a b : ScrapeOutput} : a.notAfter b = true ↔
    a.log.height < b.log.height ∨ a.log.height = b.log.height ∧ a.log.logIndex ≤ b.log.logIndex := by
  simp [ScrapeOutput.notAfter]

theorem inOrder_mergeSort (outputs : List ScrapeOutput) :
    InOrder (outputs.mergeSort ScrapeOutput.notAfter) := by
  have sorted : (outputs.mergeSort ScrapeOutput.notAfter).Pairwise fun a b => a.notAfter b :=
    List.pairwise_mergeSort
    (fun a b c first second => by
      rw [notAfter_iff] at first second ⊢
      omega)
    (fun a b => by
      rw [Bool.or_eq_true, notAfter_iff, notAfter_iff]
      omega) outputs
  exact sorted.imp notAfter_iff.1

/-- The report on some logs and what has been done with them. -/
structure Complete (heedsCancel : Bool) (logs : List RawLog) (t : Tables) (w : ScrapeWorld)
    (report : ScrapeReport) : Prop where
  total : report.total = logs.length
  once : (report.outputs.map (·.order)).Nodup
  handled : ∀ order log, (order, log) ∈ w.taken ↔
    ∃ output ∈ report.outputs, output.order = order ∧ output.log = log
  own : ∀ output ∈ report.outputs, logs[output.order]? = some output.log
  sorted : InOrder report.outputs
  cancelled : report.cancelled = true ↔ report.outputs.length < logs.length
  uncancelled : heedsCancel = false ∨ w.calledOff = false → report.outputs.length = logs.length
  saved : ∀ order e, (order, e) ∈ w.saved ↔
    ∃ output ∈ report.outputs, output.order = order ∧ output.result = .ok e
  savedOnce : (w.saved.map (·.1)).Nodup
  ofLog : ∀ output ∈ report.outputs, ∀ e, output.result = .ok e → e.IsOf output.log
  clean : report.isClean = true ↔ ∀ order < logs.length, ∃ e, (order, e) ∈ w.saved
  events : eventRows w.tables = withEvents (eventRows t) (w.saved.map (·.2.unnumbered))

theorem failures_isEmpty_iff (report : ScrapeReport) :
    report.failures.isEmpty = true ↔ ∀ output ∈ report.outputs, output.result.isOk := by
  unfold ScrapeReport.failures
  rw [List.isEmpty_iff, List.filterMap_eq_nil_iff]
  refine forall₂_congr fun output _ => ?_
  cases output.result with
  | ok e => simp [Except.isOk, Except.toBool]
  | error failure => simp [Except.isOk, Except.toBool]

theorem Ended.complete (ended : Ended heedsCancel logs t w) (range : BlockRange) :
    Complete heedsCancel logs t w ⟨range, w.delivered.mergeSort ScrapeOutput.notAfter, logs.length,
      decide (w.delivered.length < logs.length)⟩ := by
  have order := List.mergeSort_perm w.delivered ScrapeOutput.notAfter
  have complete := ended.complete_iff
  constructor
  case total => rfl
  case once => exact (order.map _).nodup_iff.2 ended.orders
  case handled =>
    intro order log
    rw [ended.taken.mem_iff, List.mem_map]
    simp
  case own =>
    intro output member
    exact ended.own (order.mem_iff.1 member)
  case sorted => exact inOrder_mergeSort _
  case cancelled => simp
  case uncancelled =>
    intro never
    simp only [List.length_mergeSort]
    apply complete.2
    rcases ended.waiting with nothing | ⟨heeds, off⟩
    · exact nothing
    · rcases never with never | never
      · cases never.symm.trans heeds
      · cases never.symm.trans off
  case saved =>
    intro order e
    rw [ended.mem_saved]
    simp
  case savedOnce => exact ended.saved_once
  case ofLog =>
    intro output member e well
    exact ended.sound output (order.mem_iff.1 member) e well
  case clean =>
    rw [ended.all_saved_iff]
    have few := ended.length_le
    simp only [ScrapeReport.isClean, Bool.and_eq_true, failures_isEmpty_iff, List.mem_mergeSort,
      List.length_mergeSort, Bool.not_eq_true', decide_eq_false_iff_not, beq_iff_eq]
    constructor
    · rintro ⟨⟨-, all⟩, well⟩
      exact ⟨all, well⟩
    · rintro ⟨all, well⟩
      exact ⟨⟨by omega, all⟩, well⟩
  case events => exact ended.stores.events

/-- However the workers of a scrape take turns and whenever it is called off, it ends with a complete report,
if no worker is lost. -/
theorem scrape_complete {plan : ScrapePlan} {context : Context} {logs : List RawLog} {t : Tables}
    {off : Bool} {results : List (Except Stop Unit)} {w : ScrapeWorld} (range : BlockRange)
    (run : Interleaved Answers (plan.parts context logs) (.start t off) results w)
    (none : lostWorkers results = 0) :
    ∃ report, ScrapeReport.conclude range logs.length w.delivered (lostWorkers results) = .ok report ∧
      Complete plan.heedsCancel logs t w report := by
  refine ⟨_, ?_, (ended_of_run run none).complete range⟩
  rw [none]
  rfl

/-- A world in which the chain and the store answer, and the work is called off at some moment. A worker
waits while the queue is empty. -/
def replying (chain : ChainAnswers) (calledOff : ScrapeWorld → Bool) :
    (r : ScrapeRequest) → ScrapeWorld → Option (r.Answer × ScrapeWorld)
  | .offer order log, w =>
    some (if w.closed then (false, w) else (true, { w with waiting := w.waiting ++ [(order, log)] }))
  | .close, w => some ((), { w with closed := true })
  | .isCalledOff, w => some (w.calledOff || calledOff w, { w with calledOff := w.calledOff || calledOff w })
  | .take heedsCancel, w =>
    match w.waiting with
    | entry :: rest => some (some entry, { w with waiting := rest, taken := w.taken ++ [entry] })
    | [] => if w.closed || (heedsCancel && w.calledOff) then some (none, w) else none
  | .handling order (.store r), w => some (.ok (w.tables.perform r).1, w.perform order r)
  | .handling _ (.chain r), w => some ((answering chain (fun _ => false) (.chain r) w.tables).1, w)
  | .handling _ (.shared r), w => some ((answering chain (fun _ => false) (.shared r) w.tables).1, w)
  | .knownHeader height, w => some (w.headers.get? height, w)
  | .rememberHeader height h, w =>
    some ((), { w with headers := w.headers.insert ⟨height, height⟩ (some h) })
  | .deliver output, w => some ((), { w with delivered := w.delivered ++ [output] })

theorem replying_answers (chain : ChainAnswers) (calledOff : ScrapeWorld → Bool) (r : ScrapeRequest)
    (w : ScrapeWorld) (reply : r.Answer) (w' : ScrapeWorld)
    (replied : replying chain calledOff r w = some (reply, w')) : Answers r w reply w' := by
  cases r with
  | offer order log =>
    simp only [replying, Option.some.injEq] at replied
    split at replied
    next closed =>
      cases replied
      exact ⟨w.calledOff, id, .inr ⟨closed, rfl, rfl⟩⟩
    next open_ =>
      cases replied
      exact ⟨w.calledOff, id, .inl ⟨by simpa using open_, rfl, rfl⟩⟩
  | isCalledOff =>
    cases replied
    exact ⟨_, fun off => by rw [off], rfl, rfl⟩
  | take heedsCancel =>
    simp only [replying] at replied
    split at replied
    next entry rest waiting =>
      cases replied
      exact ⟨w.calledOff, id, rest, waiting, rfl⟩
    next waiting =>
      split at replied
      next empty =>
        cases replied
        exact ⟨w.calledOff, id, by simpa [waiting] using empty, rfl⟩
      next => cases replied
  | handling order r =>
    cases r with
    | store r =>
      cases replied
      exact ⟨w.calledOff, id, .inl ⟨rfl, rfl⟩⟩
    | _ =>
      cases replied
      exact ⟨w.calledOff, id, rfl⟩
  | knownHeader =>
    cases replied
    exact ⟨w.calledOff, id, rfl, rfl⟩
  | _ =>
    cases replied
    exact ⟨w.calledOff, id, rfl⟩

/-- Three logs and two workers. The work is called off while both handle a log: one of them comes to an event,
the other one finds no contract. The last log is not taken. -/
theorem scrape_complete_called_off :
    let plan : ScrapePlan := ⟨2, true⟩
    let strange : RawLog := { proposedLog 1 21 with address := .ofWord 9 }
    let logs := [strange, proposedLog 1 20, proposedLog 2 22]
    let turns := [0, 0, 0, 0] ++ [1, 1, 2, 2] ++ List.replicate 16 2 ++ List.replicate 4 1
    let finish := turns.foldl (proceed (replying evenChain fun w => w.taken.length == 2))
      (plan.parts delegationContext logs, .start .empty false)
    Interleaved Answers (plan.parts delegationContext logs) (.start .empty false)
        (finish.1.filterMap result?) finish.2 ∧
      lostWorkers (finish.1.filterMap result?) = 0 ∧
      ∃ report, ScrapeReport.conclude ⟨20, 22⟩ 3 finish.2.delivered 0 = .ok report ∧
        Complete true logs .empty finish.2 report ∧ report.cancelled = true ∧
        finish.2.delivered.map (·.order) = [1, 0] ∧ finish.2.saved.map (·.1) = [1] := by
  intro plan strange logs turns finish
  have run : Interleaved Answers (plan.parts delegationContext logs) (.start .empty false)
      (finish.1.filterMap result?) finish.2 :=
    interleaved_of_moves (replying_answers _ _) turns _ _ (by decide +kernel)
  have none : lostWorkers (finish.1.filterMap result?) = 0 := by decide +kernel
  have shown : finish.2.delivered.map (·.order) = [1, 0] ∧ finish.2.saved.map (·.1) = [1] := by
    decide +kernel
  obtain ⟨report, concluded, complete⟩ := scrape_complete ⟨20, 22⟩ run none
  rw [none] at concluded
  have cancelled : report.cancelled = true := by
    have few := congrArg List.length shown.1
    rw [List.length_map] at few
    rw [complete.cancelled]
    cases concluded
    rw [List.length_mergeSort, few]
    decide
  exact ⟨run, none, report, concluded, complete, cancelled, shown⟩

end StakeIndex.Scraping
