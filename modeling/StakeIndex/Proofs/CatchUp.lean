import StakeIndex.Proofs.Checkpoint
import StakeIndex.Proofs.Traces

/-!
Requests to catch up with the head. A call scrapes batch after batch up to the head and stops behind the first
one that is not clean. What it returns is the last block of its last clean batch, so calls that go on from there
scrape all blocks cleanly once, without a gap.
-/
namespace StakeIndex.CatchingUp

open Dialogue Following

section Calls

variable {σ : Type}

/-- A range that was scraped, and what came of it. -/
structure Batch where
  range : BlockRange
  outcome : Except Stop ScrapeReport

/-- Whether all logs of a batch were handled well. -/
def Batch.clean (b : Batch) : Bool :=
  match b.outcome with
  | .ok report => report.isClean
  | .error _ => false

/-- The batch that was scraped in an exchange. -/
def batch? : Exchange TurnRequest.Answer → Option Batch
  | ⟨.scrape _ range _, outcome⟩ => some ⟨range, outcome⟩
  | _ => none

/-- The ranges of the batches that are clean. -/
def cleanRanges (batches : List Batch) : List BlockRange := (batches.filter Batch.clean).map (·.range)

/-- A moment at which a call is made: the head of the chain, and a world that answers. -/
structure Occasion (σ : Type) where
  head : Nat
  world : σ
  answer : (r : TurnRequest) → σ → r.Answer × σ

/-- A call: after which height it was to scrape, the head, what it scraped, and what it returned. -/
structure Call where
  lastHeight : Nat
  head : Nat
  batches : List Batch
  result : Except Stop CatchUpOutcome

/-- How far a call got. -/
def Call.reached (c : Call) : Nat :=
  match c.result with
  | .ok (.completed report) => report.lastHeight
  | _ => c.lastHeight

/-- The call for a request at some moment. -/
def Occasion.call (i : Indexer) (request : CatchUpRequest) (o : Occasion σ) : Call :=
  let (result, _, past) := (i.answerCatchUp request).run.run (noting o.answer) (o.world, [])
  ⟨request.lastHeight, o.head, past.filterMap batch?, result⟩

/-- Calls at some moments, each of them for what is after the height that the one before it returned; and the
request that is next. -/
def callAll (i : Indexer) : List (Occasion σ) → CatchUpRequest → List Call × CatchUpRequest
  | [], request => ([], request)
  | o :: rest, request =>
    let call := o.call i request
    let (calls, next) := callAll i rest { request with lastHeight := call.reached }
    (call :: calls, next)

end Calls

section Batches

/-- What batches after a height come to, up to a head. -/
structure Progress (i : Indexer) (head lastHeight : Nat) (batches : List Batch) (report : CatchUpReport) :
    Prop where
  consecutive : ∃ next, Consecutive (lastHeight + 1) (batches.map (·.range)) next
  sized : ∀ b ∈ batches, 1 ≤ b.range.last + 1 - b.range.first ∧
    b.range.last + 1 - b.range.first ≤ i.options.batchSize ∧ b.range.last ≤ head
  clean : ∀ b ∈ batches.dropLast, b.clean
  reached : report.lastHeight = ((cleanRanges batches).getLast?.map (·.last)).getD lastHeight
  covered : Consecutive (lastHeight + 1) (cleanRanges batches) (report.lastHeight + 1)
  forward : lastHeight ≤ report.lastHeight
  failed : report.error.isSome ↔ ∃ b, batches.getLast? = some b ∧ ¬b.clean
  caughtUp : report.error = none → report.lastHeight = max lastHeight head

variable {i : Indexer} {head lastHeight : Nat} {outcome : Except Stop ScrapeReport}

theorem progress_end (reached : head ≤ lastHeight) : Progress i head lastHeight [] ⟨lastHeight, none⟩ where
  consecutive := ⟨_, rfl⟩
  sized _ among := (nomatch among)
  clean _ among := (nomatch among)
  reached := rfl
  covered := rfl
  forward := Nat.le_refl _
  failed := by simp
  caughtUp _ := (Nat.max_eq_left reached).symm

/-- The next batch after a height. -/
def nextBatch (i : Indexer) (head lastHeight : Nat) (outcome : Except Stop ScrapeReport) : Batch :=
  ⟨⟨lastHeight + 1, i.batchEnd lastHeight head⟩, outcome⟩

variable (positive : 1 ≤ i.options.batchSize) (low : head ≤ topHeight) (behind : lastHeight < head)
include positive low behind

theorem lt_batchEnd : lastHeight < i.batchEnd lastHeight head := by
  unfold Indexer.batchEnd
  omega

theorem nextBatch_sized : 1 ≤ i.batchEnd lastHeight head + 1 - (lastHeight + 1) ∧
    i.batchEnd lastHeight head + 1 - (lastHeight + 1) ≤ i.options.batchSize ∧
    i.batchEnd lastHeight head ≤ head := by
  unfold Indexer.batchEnd
  omega

theorem progress_stopped {message : String} (unclean : ¬(nextBatch i head lastHeight outcome).clean) :
    Progress i head lastHeight [nextBatch i head lastHeight outcome] ⟨lastHeight, some message⟩ := by
  have none_ : cleanRanges [nextBatch i head lastHeight outcome] = [] := by
    unfold cleanRanges
    rw [List.filter_cons_of_neg unclean]
    rfl
  constructor
  case consecutive => exact ⟨_, rfl, lt_batchEnd positive low behind, rfl⟩
  case sized => exact List.forall_mem_singleton.2 (nextBatch_sized positive low behind)
  case clean => exact fun _ among => (nomatch among)
  case reached => rw [none_]; rfl
  case covered => rw [none_]; rfl
  case forward => exact Nat.le_refl _
  case failed => simpa using unclean
  case caughtUp => exact fun wrong => (nomatch wrong)

theorem Progress.advance {batches : List Batch} {report : CatchUpReport}
    (clean : (nextBatch i head lastHeight outcome).clean)
    (rest : Progress i head (i.batchEnd lastHeight head) batches report) :
    Progress i head lastHeight (nextBatch i head lastHeight outcome :: batches) report := by
  have one : cleanRanges (nextBatch i head lastHeight outcome :: batches) =
      ⟨lastHeight + 1, i.batchEnd lastHeight head⟩ :: cleanRanges batches := by
    unfold cleanRanges
    rw [List.filter_cons_of_pos clean]
    rfl
  have above := lt_batchEnd positive low behind
  constructor
  case consecutive =>
    obtain ⟨next, rest⟩ := rest.consecutive
    exact ⟨next, rfl, above, rest⟩
  case sized => exact List.forall_mem_cons.2 ⟨nextBatch_sized positive low behind, rest.sized⟩
  case clean =>
    cases batches with
    | nil => exact fun _ among => (nomatch among)
    | cons b batches => exact List.forall_mem_cons.2 ⟨clean, rest.clean⟩
  case reached =>
    rw [one, rest.reached, List.getLast?_cons]
    cases (cleanRanges batches).getLast? <;> rfl
  case covered =>
    rw [one]
    exact ⟨rfl, above, rest.covered⟩
  case forward => exact Nat.le_trans (Nat.le_of_lt above) rest.forward
  case failed =>
    rw [rest.failed, List.getLast?_cons]
    cases batches.getLast? with
    | none => simpa using clean
    | some b => simp
  case caughtUp =>
    intro well
    have ahead := rest.caughtUp well
    have short := (nextBatch_sized positive low behind).2.2
    omega

end Batches

section Program

/-- The replies to a call that is let in, when the chain has some head. A scrape ends well or fails. -/
def Replies (head : Nat) : (r : TurnRequest) → r.Answer → Prop
  | .plain (.chain .head), reply => reply = .ok head
  | .plain (.shared .beginCatchUp), reply => reply = none
  | .scrape .., reply => reply ≠ .error .crashed
  | _, _ => True

abbrev protocol (head : Nat) : Protocol TurnRequest.Answer := ⟨fun _ => True, Replies head⟩

variable {i : Indexer} {head lastHeight fuel : Nat} {addresses : List Address}

/-- Batch after batch is scraped, up to the head or to the first one that is not clean. -/
theorem catchUpFrom_obeys (positive : 1 ≤ i.options.batchSize) (low : head ≤ topHeight)
    (enough : head ≤ lastHeight + fuel) :
    (i.catchUpFrom addresses head fuel lastHeight).run.Obeys (protocol head) fun past result =>
      ∃ report, result = .ok report ∧ Progress i head lastHeight (past.filterMap batch?) report := by
  induction fuel generalizing lastHeight with
  | zero => exact ⟨_, rfl, progress_end enough⟩
  | succ fuel ih =>
    unfold Indexer.catchUpFrom
    split
    next reached => exact ⟨_, rfl, progress_end reached⟩
    next behind =>
      have behind : lastHeight < head := Nat.lt_of_not_le behind
      have above := lt_batchEnd positive low behind
      refine ⟨trivial, fun outcome well => ?_⟩
      rcases outcome with (failure | _) | report
      · exact ⟨_, rfl, progress_stopped positive low behind Bool.false_ne_true⟩
      · exact absurd rfl well
      · change Obeys _ (ite (report.isClean = true) _ _ : TurnJob CatchUpReport).run _
        split
        next clean =>
          refine ⟨trivial, fun _ _ => (ih (by omega)).mono ?_⟩
          rintro past result ⟨final, ended, rest⟩
          exact ⟨final, ended, rest.advance positive low behind clean⟩
        next unclean => exact ⟨_, rfl, progress_stopped positive low behind unclean⟩

theorem catchUp_obeys (positive : 1 ≤ i.options.batchSize) (low : head ≤ topHeight) :
    (i.catchUp addresses lastHeight).run.Obeys (protocol head) fun past result =>
      ∃ report, result = .ok report ∧ Progress i head lastHeight (past.filterMap batch?) report := by
  refine ⟨trivial, fun reply same => ?_⟩
  obtain rfl : reply = .ok head := same
  exact ⟨trivial, fun _ _ => catchUpFrom_obeys positive low (by omega)⟩

theorem steps_obeys {α : Type} {p : Protocol TurnRequest.Answer} {promise : Promise TurnRequest.Answer α}
    {d : TurnSteps α} (obeys : d.Obeys p promise) :
    (TurnJob.steps d).run.Obeys p fun past result => ∃ a, result = .ok a ∧ promise past a := by
  refine obeys.bind fun past a promised => ⟨a, rfl, ?_⟩
  rwa [List.append_nil]

theorem answerCatchUp_obeys {request : CatchUpRequest} (positive : 1 ≤ i.options.batchSize)
    (low : head ≤ topHeight) (meant : i.target request = .ok addresses) :
    (i.answerCatchUp request).run.Obeys (protocol head) fun past result =>
      ∃ report, result = .ok (.completed report) ∧
        Progress i head request.lastHeight (past.filterMap batch?) report := by
  unfold Indexer.answerCatchUp
  rw [meant]
  refine ⟨trivial, fun reply free => ?_⟩
  obtain rfl : reply = none := free
  change (TurnJob.steps _ >>= _ : TurnJob _).run.Obeys _ _
  refine (steps_obeys (catchUp_obeys positive low)).bind_except ?_ ?_
  · rintro past _ ⟨_, same, report, rfl, progress⟩
    cases same
    refine ⟨trivial, fun _ _ => ⟨report, rfl, ?_⟩⟩
    rw [List.filterMap_cons_none rfl, List.filterMap_append, List.filterMap_cons_none rfl]
    exact (List.append_nil (past.filterMap batch?)).symm ▸ progress
  · rintro past stop ⟨_, wrong, -⟩
    cases wrong

/-- With enough fuel, more fuel makes no difference. -/
theorem catchUpFrom_fuel {fuel' : Nat} (positive : 1 ≤ i.options.batchSize) (low : head ≤ topHeight)
    (enough : head ≤ lastHeight + fuel) (enough' : head ≤ lastHeight + fuel') :
    i.catchUpFrom addresses head fuel lastHeight = i.catchUpFrom addresses head fuel' lastHeight := by
  have ended (fuel lastHeight : Nat) (reached : head ≤ lastHeight) :
      i.catchUpFrom addresses head fuel lastHeight = pure ⟨lastHeight, none⟩ := by
    cases fuel with
    | zero => rfl
    | succ fuel => exact if_pos reached
  induction fuel generalizing lastHeight fuel' with
  | zero => rw [ended 0 lastHeight enough, ended fuel' lastHeight enough]
  | succ fuel ih =>
    cases fuel' with
    | zero => rw [ended _ lastHeight enough', ended 0 lastHeight enough']
    | succ fuel' =>
      unfold Indexer.catchUpFrom
      split
      next => rfl
      next behind =>
        have above := lt_batchEnd positive low (Nat.lt_of_not_le behind)
        have same : i.catchUpFrom addresses head fuel (i.batchEnd lastHeight head) =
            i.catchUpFrom addresses head fuel' (i.batchEnd lastHeight head) := ih (by omega) (by omega)
        refine congrArg (TurnJob.steps _ >>= ·) (funext fun outcome => ?_)
        rcases outcome with (failure | _) | report
        · rfl
        · rfl
        · rw [same]

end Program

section Steps

variable {σ : Type} {i : Indexer} {head : Nat} {answer : (r : Request) → σ → r.Answer × σ}

/-- A call that is let in at a moment at which the chain has the head of it. -/
structure Occasion.Admits (o : Occasion σ) : Prop where
  low : o.head ≤ topHeight
  replies : ∀ r w, Replies o.head r (o.answer r w).1

/-- A scrape of one step after another that stops has failed. -/
theorem scrape_fails {allows : (r : Request) → σ → r.Answer → σ → Prop} {plan : ScrapePlan}
    {context : Context} {range : BlockRange} {addresses : List Address} {s s' : σ} {stop : Stop}
    (ran : Runs allows (plan.scrape context range addresses).run s (.error stop) s') :
    ∃ failure, stop = .failed failure := by
  obtain ⟨_, asked, same⟩ | ⟨logs, s₁, -, handled⟩ := runs_except_iff.1 ran
  · cases same
    cases asked with
    | @ask _ _ _ _ _ reply _ _ rest =>
      cases reply with
      | error fault =>
        cases rest
        exact ⟨_, rfl⟩
      | ok logs => cases rest
  obtain ⟨_, handling, -⟩ | ⟨⟨outputs, lost⟩, s₂, -, concluded⟩ := runs_except_iff.1 handled
  · obtain ⟨pair, s₃, -, wrong⟩ := runs_bind_iff.1 handling
    cases wrong
  · obtain ⟨conclusion, -⟩ := lifted concluded
    cases result : ScrapeReport.conclude range logs.length outputs lost with
    | error failure =>
      rw [result] at conclusion
      cases conclusion
      exact ⟨failure, rfl⟩
    | ok report =>
      rw [result] at conclusion
      cases conclusion

theorem scrape_not_crashed (plan : ScrapePlan) (context : Context) (range : BlockRange)
    (addresses : List Address) (w : σ) :
    ((plan.scrape context range addresses).run.run answer w).1 ≠ .error .crashed := by
  intro crashed
  let job := (plan.scrape context range addresses).run
  have ran : Runs (fun r s reply s' => answer r s = (reply, s')) job w (job.run answer w).1
      (job.run answer w).2 := runs_of_run (fun _ _ => rfl) job w
  rw [crashed] at ran
  obtain ⟨failure, wrong⟩ := scrape_fails ran
  cases wrong

/-- The moment at which a world answers one step after another. -/
def Occasion.ofSteps (i : Indexer) (head : Nat) (answer : (r : Request) → σ → r.Answer × σ) (world : σ) :
    Occasion σ :=
  ⟨head, world, fun r => (i.meet r).run answer⟩

theorem ofSteps_admits (low : head ≤ topHeight) (tells : ∀ w, (answer (.chain .head) w).1 = .ok head)
    (free : ∀ w, (answer (.shared .beginCatchUp) w).1 = none) (world : σ) :
    (Occasion.ofSteps i head answer world).Admits where
  low := low
  replies r w := by
    rcases r with (r | r | r) | ⟨plan, range, addresses⟩ | _
    · cases r with
      | head => exact tells w
      | _ => exact trivial
    · exact trivial
    · cases r with
      | beginCatchUp => exact free w
      | _ => exact trivial
    · exact scrape_not_crashed plan i.context range addresses w
    · exact trivial

/-- One step after another is one way to answer a call. -/
theorem run_scrapeLatest (i : Indexer) (request : CatchUpRequest) (head : Nat)
    (answer : (r : Request) → σ → r.Answer × σ) (world : σ) :
    ((i.scrapeLatest request).run.run answer world).1 =
      ((Occasion.ofSteps i head answer world).call i request).result := by
  refine (congrArg Prod.fst (run_mapRequests answer world)).trans ?_
  exact (run_noting _ (world, [])).symm

end Steps

section Gapless

variable {σ : Type} {i : Indexer}

/-- A call returns how far it got, which is as far as its batches were clean. -/
def Call.Completes (i : Indexer) (c : Call) : Prop :=
  ∃ report, c.result = .ok (.completed report) ∧ Progress i c.head c.lastHeight c.batches report

theorem Call.Completes.covered {c : Call} (completes : c.Completes i) :
    Consecutive (c.lastHeight + 1) (cleanRanges c.batches) (c.reached + 1) := by
  obtain ⟨report, same, progress⟩ := completes
  unfold Call.reached
  rw [same]
  exact progress.covered

theorem Occasion.Admits.completes {o : Occasion σ} {request : CatchUpRequest} {addresses : List Address}
    (admits : o.Admits) (positive : 1 ≤ i.options.batchSize) (meant : i.target request = .ok addresses) :
    (o.call i request).Completes i := by
  obtain ⟨past, ran, promised, -⟩ :=
    (answerCatchUp_obeys positive admits.low meant).noted (fun r w _ => admits.replies r w) o.world []
  unfold Occasion.call Call.Completes
  rw [ran]
  exact promised

/-- Calls that go on from each other are all completed, and the ranges of their clean batches follow each
other. -/
theorem callAll_completes {request : CatchUpRequest} {addresses : List Address} {occasions : List (Occasion σ)}
    (positive : 1 ≤ i.options.batchSize) (meant : i.target request = .ok addresses)
    (admitted : ∀ o ∈ occasions, o.Admits) :
    (callAll i occasions request).1.map (·.head) = occasions.map (·.head) ∧
      (∀ c ∈ (callAll i occasions request).1, c.Completes i) ∧
      Consecutive (request.lastHeight + 1)
        ((callAll i occasions request).1.flatMap fun c => cleanRanges c.batches)
        ((callAll i occasions request).2.lastHeight + 1) := by
  induction occasions generalizing request with
  | nil => exact ⟨rfl, fun _ among => (nomatch among), rfl⟩
  | cons o rest ih =>
    obtain ⟨admits, admitted⟩ := List.forall_mem_cons.1 admitted
    have completes := admits.completes positive meant
    have next : i.target { request with lastHeight := (o.call i request).reached } = .ok addresses := meant
    obtain ⟨heads, others, covered⟩ := ih next admitted
    exact ⟨congrArg (o.head :: ·) heads, List.forall_mem_cons.2 ⟨completes, others⟩,
      consecutive_append completes.covered covered⟩

/-- Calls for what is after a height, each of which goes on from where the one before it got. Each of them
returns; its batches follow each other from the height on and stay below the head, none is larger than it may
be, and all are clean but for the last one at most. It has reached the end of the last clean batch, with an
error if the last one is not clean, and otherwise the head. So the clean batches of all calls follow each other
without a gap, up to what the last call has reached. No call ends for want of fuel, and one step after another is
one way to answer a call. -/
theorem catch_ups_gapless {request : CatchUpRequest} {addresses : List Address}
    {occasions : List (Occasion σ)} (positive : 1 ≤ i.options.batchSize)
    (meant : i.target request = .ok addresses) (admitted : ∀ o ∈ occasions, o.Admits) :
    let calls := (callAll i occasions request).1
    let next := (callAll i occasions request).2
    calls.map (·.head) = occasions.map (·.head) ∧ (∀ c ∈ calls, c.Completes i) ∧
      Consecutive (request.lastHeight + 1) (calls.flatMap fun c => cleanRanges c.batches)
        (next.lastHeight + 1) ∧
      (∀ head fuel lastHeight, head ≤ topHeight → head ≤ lastHeight + fuel →
        i.catchUpFrom addresses head fuel lastHeight =
          i.catchUpFrom addresses head (head - lastHeight) lastHeight) ∧
      ∀ (head : Nat) (answer : (r : Request) → σ → r.Answer × σ) (world : σ),
        ((i.scrapeLatest request).run.run answer world).1 =
          ((Occasion.ofSteps i head answer world).call i request).result := by
  obtain ⟨heads, completes, covered⟩ := callAll_completes positive meant admitted
  refine ⟨heads, completes, covered, fun head fuel lastHeight low enough => ?_, run_scrapeLatest i request⟩
  exact catchUpFrom_fuel positive low enough (by omega)

/-- A chain without logs, which keeps silent on the logs of some blocks. -/
def quietChain (silent : Nat → Bool) : ChainAnswers
  | .logs first .. => if silent first then .error .silent else .ok []
  | _ => .error .silent

/-- A moment at which the store is empty and the chain has no logs. -/
def quietMoment (head : Nat) (silent : Nat → Bool) : Occasion StepWorld :=
  .ofSteps blockwise head (stepping head (quietChain silent) fun _ => false) ⟨.empty, .empty, false⟩

/-- Two calls: the first one stops at a block whose logs are not told, and the second one takes that block
again. -/
theorem catch_ups_gapless_retried :
    let occasions := [quietMoment 21 (· == 21), quietMoment 22 fun _ => false]
    let calls := (callAll blockwise occasions ⟨"", none, none, 19⟩).1
    (calls.map fun c => c.batches.map fun b => (b.range, b.clean)) =
      [[(⟨20, 20⟩, true), (⟨21, 21⟩, false)], [(⟨21, 21⟩, true), (⟨22, 22⟩, true)]] ∧
    calls.map (·.reached) = [20, 22] ∧ (∀ c ∈ calls, c.Completes blockwise) ∧
    Consecutive 20 (calls.flatMap fun c => cleanRanges c.batches) 23 := by
  intro occasions calls
  have admits (head : Nat) (silent : Nat → Bool) (low : head ≤ topHeight) :
      (quietMoment head silent).Admits := ofSteps_admits low (fun _ => rfl) (fun _ => rfl) _
  have admitted : ∀ o ∈ occasions, o.Admits := by
    simp only [occasions, List.forall_mem_cons]
    exact ⟨admits _ _ (by decide), admits _ _ (by decide), List.forall_mem_nil _⟩
  have last : (callAll blockwise occasions ⟨"", none, none, 19⟩).2.lastHeight = 22 := by decide +kernel
  obtain ⟨-, completes, covered, -, -⟩ :=
    @catch_ups_gapless _ blockwise ⟨"", none, none, 19⟩ _ occasions (by decide) rfl admitted
  rw [last] at covered
  exact ⟨by decide +kernel, by decide +kernel, completes, covered⟩

end Gapless

end StakeIndex.CatchingUp
