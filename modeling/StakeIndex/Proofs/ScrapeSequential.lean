import StakeIndex.Proofs.ScrapeOutputs

/-!
A scrape that handles one log after another is one way to run the programs of it: all logs are offered first,
one worker handles them until it is lost, the next one goes on, and the others find nothing left to do.
-/
namespace StakeIndex

open Dialogue Job ScrapeSteps

/-- A world in which a log was handled. -/
def ScrapeWorld.handled (w : ScrapeWorld) (s : Tables × Bool) (headers : HeaderCache)
    (saved : List (Nat × ContractEvent)) : ScrapeWorld :=
  { w with tables := s.1, calledOff := s.2, headers, saved }

namespace Scraping

/-- The replies to a job while the work may be called off at any moment. -/
def Serial : (r : Request) → Tables × Bool → r.Answer → Tables × Bool → Prop
  | .chain _, s, _, s' => s' = s
  | .store r, s, reply, s' =>
    reply = .ok (s.1.perform r).1 ∧ s' = ((s.1.perform r).2, s.2) ∨ ∃ stop, reply = .error stop ∧ s' = s
  | .shared .isCancelled, s, reply, s' => (s.2 = true → reply = true) ∧ s' = (s.1, reply)
  | .shared _, s, _, s' => s' = s

section Handling

variable {α : Type} {w : ScrapeWorld} {s s' : Tables × Bool} {context : Context} {log : RawLog}

theorem answers_serial {r : Request} {reply : r.Answer} (answered : Serial r s reply s') (order : Nat)
    (headers : HeaderCache) (saved : List (Nat × ContractEvent)) :
    ∃ saved', Answers (.handling order r) (w.handled s headers saved) reply (w.handled s' headers saved') := by
  cases r with
  | chain r =>
    cases answered
    exact ⟨saved, s.2, id, rfl⟩
  | store r =>
    obtain ⟨rfl, rfl⟩ | ⟨stop, rfl, rfl⟩ := answered
    · exact ⟨_, s.2, id, .inl ⟨rfl, rfl⟩⟩
    · exact ⟨saved, s'.2, id, .inr ⟨stop, rfl, rfl⟩⟩
  | shared r =>
    cases r with
    | isCancelled =>
      obtain ⟨later, rfl⟩ := answered
      exact ⟨saved, reply, later, rfl⟩
    | _ =>
      cases answered
      exact ⟨saved, s.2, id, rfl⟩

theorem runs_handling {d : Steps α} {a : α} (run : Runs Serial d s a s') (order : Nat)
    (headers : HeaderCache) (saved : List (Nat × ContractEvent)) :
    ∃ saved', Runs Answers (handling order d) (w.handled s headers saved) a
      (w.handled s' headers saved') := by
  induction run generalizing saved with
  | done a s => exact ⟨saved, .done a _⟩
  | ask answered _ ih =>
    obtain ⟨saved', answered'⟩ := answers_serial answered order headers saved
    obtain ⟨saved'', rest⟩ := ih saved'
    exact ⟨saved'', .ask answered' rest⟩

theorem answers_known (headers : HeaderCache) (saved : List (Nat × ContractEvent)) (height : Nat) :
    Answers (.knownHeader height) (w.handled s headers saved) (headers.get? height)
      (w.handled s headers saved) := ⟨s.2, id, rfl, rfl⟩

theorem answers_remember (headers : HeaderCache) (saved : List (Nat × ContractEvent)) (height : Nat)
    (header : BlockHeader) : Answers (.rememberHeader height header) (w.handled s headers saved) ()
      (w.handled s (headers.insert ⟨height, height⟩ (some header)) saved) := ⟨s.2, id, rfl⟩

theorem runs_header {headers headers' : HeaderCache} {height : Nat} {result : Except Stop BlockHeader}
    (run : Runs Serial (headers.fetch height) s (result, headers') s') (order : Nat)
    (saved : List (Nat × ContractEvent)) :
    ∃ saved', Runs Answers (header order height) (w.handled s headers saved) result
      (w.handled s' headers' saved') := by
  have known := answers_known (w := w) (s := s) headers saved height
  unfold HeaderCache.fetch at run
  cases found : headers.get? height with
  | some h =>
    rw [found] at run known
    cases run
    exact ⟨saved, .ask known (.done _ _)⟩
  | none =>
    rw [found] at run known
    obtain ⟨reply, s₁, asked, rest⟩ := runs_bind_iff.1 run
    obtain ⟨saved', asked⟩ := runs_handling (w := w) asked order headers saved
    cases reply with
    | error stop =>
      cases rest
      refine ⟨saved', .ask known ?_⟩
      change Runs Answers (handling order (Job.header height).outcome >>= _) _ _ _
      exact runs_bind_iff.2 ⟨_, _, asked, .done _ _⟩
    | ok h =>
      cases rest
      refine ⟨saved', .ask known ?_⟩
      change Runs Answers (handling order (Job.header height).outcome >>= _) _ _ _
      exact runs_bind_iff.2 ⟨_, _, asked, .ask (answers_remember headers saved' height h) (.done _ _)⟩

/-- To handle a log and to store its event comes to the same in either way. -/
theorem runs_handle {headers headers' : HeaderCache} {result : Except Stop ContractEvent}
    (run : Runs Serial (process context headers log) s (result, headers') s') (order : Nat)
    (saved : List (Nat × ContractEvent)) :
    ∃ saved', Runs Answers (handle context order log) (w.handled s headers saved) result
      (w.handled s' headers' saved') := by
  unfold process at run
  obtain ⟨⟨dispatched, cached⟩, s₁, dispatching, storing⟩ := runs_bind_iff.1 run
  unfold dispatch at dispatching
  unfold handle
  cases found : context.registry.atAddress? log.address with
  | none =>
    rw [found] at dispatching
    cases dispatching
    cases storing
    exact ⟨saved, .done _ _⟩
  | some binding =>
    rw [found] at dispatching
    obtain ⟨⟨dated, cached'⟩, s₂, fetching, rest⟩ := runs_bind_iff.1 dispatching
    obtain ⟨saved₂, fetched⟩ := runs_header (w := w) fetching order saved
    cases dated with
    | error stop =>
      cases rest
      cases storing
      exact ⟨saved₂, runs_bind_iff.2 ⟨_, _, fetched, .done _ _⟩⟩
    | ok h =>
      obtain ⟨handled, s₃, attempt, rest⟩ := runs_bind_iff.1 rest
      cases rest
      have recording : Runs Serial (recordLog context binding h log).outcome s₂ result s' ∧
          cached = headers' := by
        have unfold_bind : (recordLog context binding h log).outcome =
            (handleLog context binding h log).run >>= ExceptT.bindCont fun event => do
              store (.saveContractEvent event)
              return event := rfl
        rw [unfold_bind, runs_bind_iff]
        cases dispatched with
        | error stop =>
          cases storing
          exact ⟨⟨_, _, attempt, .done _ _⟩, rfl⟩
        | ok event =>
          obtain ⟨reply, s₄, stored, rest⟩ := runs_bind_iff.1 storing
          cases reply with
          | error stop =>
            cases rest
            exact ⟨⟨_, _, attempt, runs_bind_iff.2 ⟨_, _, stored, .done _ _⟩⟩, rfl⟩
          | ok a =>
            cases rest
            exact ⟨⟨_, _, attempt, runs_bind_iff.2 ⟨_, _, stored, .done _ _⟩⟩, rfl⟩
      obtain ⟨recording, rfl⟩ := recording
      obtain ⟨saved₃, recorded⟩ := runs_handling (w := w) recording order cached saved₂
      exact ⟨saved₃, runs_bind_iff.2 ⟨_, _, fetched, recorded⟩⟩

end Handling

section Working

variable {w : ScrapeWorld} {context : Context} {heedsCancel : Bool}

theorem runs_offerAll (entries : List (Nat × RawLog)) (open_ : w.closed = false) :
    Runs Answers (offerAll entries) w (.ok ())
      { w with waiting := w.waiting ++ entries, closed := true } := by
  induction entries generalizing w with
  | nil =>
    have closing : Answers .close w () { w with waiting := w.waiting ++ [], closed := true } := by
      rw [List.append_nil]
      exact ⟨w.calledOff, id, rfl⟩
    exact .ask closing (.done _ _)
  | cons entry rest ih =>
    have offering : Answers (.offer entry.1 entry.2) w true { w with waiting := w.waiting ++ [entry] } :=
      ⟨w.calledOff, id, .inl ⟨open_, rfl, rfl⟩⟩
    have later := @ih { w with waiting := w.waiting ++ [entry] } open_
    rw [List.append_assoc] at later
    exact .ask offering later

/-- There is nothing left to do, or the work is called off. -/
def Idle (heedsCancel : Bool) (w : ScrapeWorld) : Prop :=
  w.waiting = [] ∧ w.closed = true ∨ heedsCancel = true ∧ w.calledOff = true

theorem runs_idle (idle : Idle heedsCancel w) (rounds : Nat) :
    Runs Answers (worker context heedsCancel rounds) w (.ok ()) w := by
  have taking : Answers (.take heedsCancel) w none w := ⟨w.calledOff, id, idle, rfl⟩
  have asking : Answers .isCalledOff w w.calledOff w := ⟨w.calledOff, id, rfl, rfl⟩
  cases rounds with
  | zero => exact .done _ _
  | succ rounds =>
    cases heedsCancel with
    | false => exact .ask taking (.done _ _)
    | true =>
      apply Runs.ask asking
      cases w.calledOff with
      | true => exact .done _ _
      | false => exact .ask taking (.done _ _)

theorem interleaved_idle (idle : Idle heedsCancel w) (crew : List Nat) :
    Interleaved Answers (crew.map (worker context heedsCancel)) w (crew.map fun _ => .ok ()) w := by
  induction crew with
  | nil => exact .done [] w
  | cons rounds rest ih => exact (runs_idle idle rounds).interleaved ih

theorem lostWorkers_idle (crew : List Nat) : lostWorkers (crew.map fun _ => .ok ()) = 0 := by
  induction crew with
  | nil => rfl
  | cons _ rest ih => exact ih

theorem runs_stops {plan : ScrapePlan} {s s' : Tables × Bool} {stopped : Bool}
    (run : Runs Serial plan.stops s stopped s') (headers : HeaderCache)
    (saved : List (Nat × ContractEvent)) :
    Runs Answers (stops plan.heedsCancel) (w.handled s headers saved) stopped
        (w.handled s' headers saved) ∧
      (stopped = true → plan.heedsCancel = true ∧ s'.2 = true) := by
  obtain ⟨crew, heedsCancel⟩ := plan
  cases heedsCancel with
  | false =>
    cases run
    exact ⟨.done _ _, fun wrong => (nomatch wrong)⟩
  | true =>
    cases run with
    | ask answered run =>
      obtain ⟨later, rfl⟩ := answered
      cases run
      have asking : Answers .isCalledOff (w.handled s headers saved) stopped
          (w.handled (s.1, stopped) headers saved) := ⟨stopped, later, rfl, rfl⟩
      exact ⟨.ask asking (.done _ _), fun off => ⟨rfl, off⟩⟩

/-- What the workers that are left make of the logs that are left. -/
theorem interleaved_of_handleAll {plan : ScrapePlan} {entries : List (Nat × RawLog)} {crew : List Nat}
    {s s' : Tables × Bool} {headers : HeaderCache} {outputs : List ScrapeOutput} {lost : Nat}
    {saved : List (Nat × ContractEvent)}
    (run : Runs Serial (plan.handleAll context crew.length headers entries) s (outputs, lost) s')
    (waiting : w.waiting = entries) (closed : w.closed = true)
    (enough : ∀ rounds ∈ crew, entries.length < rounds) :
    ∃ results w', Interleaved Answers (crew.map (worker context plan.heedsCancel))
        (w.handled s headers saved) results w' ∧
      w'.delivered = w.delivered ++ outputs ∧ lostWorkers results = lost ∧ w'.tables = s'.1 ∧
      w'.calledOff = s'.2 := by
  induction entries generalizing crew headers w s saved outputs lost with
  | nil =>
    have idle : Idle plan.heedsCancel (w.handled s headers saved) := .inl ⟨waiting, closed⟩
    unfold ScrapePlan.handleAll at run
    cases run
    exact ⟨_, _, interleaved_idle idle crew, (List.append_nil _).symm, lostWorkers_idle crew, rfl, rfl⟩
  | cons entry rest ih =>
    obtain ⟨order, log⟩ := entry
    cases crew with
    | nil =>
      unfold ScrapePlan.handleAll at run
      cases run
      exact ⟨[], _, .done [] _, (List.append_nil _).symm, rfl, rfl, rfl⟩
    | cons rounds others =>
      obtain ⟨rounds, rfl⟩ : ∃ n, rounds = n + 1 := ⟨rounds - 1, by
        have := enough rounds List.mem_cons_self
        omega⟩
      have fewer : ∀ n ∈ rounds :: others, rest.length < n := by
        have more := List.forall_mem_cons.1 enough
        simp only [List.length_cons] at more
        exact List.forall_mem_cons.2 ⟨by omega, fun n member => by have := more.2 n member; omega⟩
      unfold ScrapePlan.handleAll at run
      obtain ⟨stopped, s₁, stopping, run⟩ := runs_bind_iff.1 run
      obtain ⟨stopping, off⟩ := runs_stops (w := w) stopping headers saved
      rw [List.map_cons, worker]
      cases stopped with
      | true =>
        obtain ⟨heeds, called⟩ := off rfl
        cases run
        have idle : Idle plan.heedsCancel (w.handled s' headers saved) := .inr ⟨heeds, called⟩
        exact ⟨_, _, stopping.interleaved_bind ((interleaved_idle idle others).cons_done (.ok ())),
          (List.append_nil _).symm, lostWorkers_idle others, rfl, rfl⟩
      | false =>
        obtain ⟨⟨result, cache⟩, s₂, handling, run⟩ := runs_bind_iff.1 run
        -- The log is taken from the queue before it is handled.
        let after : ScrapeWorld := { w with waiting := rest, taken := w.taken ++ [(order, log)] }
        have taking : Answers (.take plan.heedsCancel) (w.handled s₁ headers saved) (some (order, log))
            (after.handled s₁ headers saved) := ⟨s₁.2, id, rest, waiting, rfl⟩
        have took : Runs Answers (ask (.take plan.heedsCancel)) (w.handled s₁ headers saved)
            (some (order, log)) (after.handled s₁ headers saved) := .ask taking (.done _ _)
        obtain ⟨saved', handled⟩ := runs_handle (w := after) handling order saved
        -- It delivers an output and goes on with what is left.
        have deliver (output : ScrapeOutput) {later : List ScrapeOutput}
            (run : Runs Serial (plan.handleAll context (others.length + 1) cache rest) s₂ (later, lost) s') :
            ∃ results w', Interleaved Answers
                ((ask (.deliver output) >>= fun _ => worker context plan.heedsCancel rounds) ::
                  others.map (worker context plan.heedsCancel))
                (after.handled s₂ cache saved') results w' ∧
              w'.delivered = w.delivered ++ output :: later ∧ lostWorkers results = lost ∧
              w'.tables = s'.1 ∧ w'.calledOff = s'.2 := by
          let put : ScrapeWorld := { after with delivered := w.delivered ++ [output] }
          obtain ⟨results, w', going, delivered, same⟩ := @ih put (rounds :: others) s₂ cache later
            lost saved' run rfl closed fewer
          have delivering : Answers (.deliver output) (after.handled s₂ cache saved') ()
              (put.handled s₂ cache saved') := ⟨s₂.2, id, rfl⟩
          have gave : Runs Answers (ask (.deliver output)) (after.handled s₂ cache saved') ()
              (put.handled s₂ cache saved') := .ask delivering (.done _ _)
          refine ⟨results, w', gave.interleaved_bind going, ?_, same⟩
          rw [delivered, List.append_assoc]
          rfl
        rcases result with (failure | _) | event
        · obtain ⟨⟨later, lost'⟩, _, handling, run⟩ := runs_bind_iff.1 run
          cases run
          obtain ⟨results, w', going, ended⟩ := deliver ⟨order, log, .error failure⟩ handling
          refine ⟨results, w', stopping.interleaved_bind (took.interleaved_bind ?_), ended⟩
          exact handled.interleaved_bind going
        · obtain ⟨⟨later, lost'⟩, _, handling, run⟩ := runs_bind_iff.1 run
          cases run
          obtain ⟨results, w', going, delivered, counted, same⟩ := @ih after others s₂ cache outputs lost'
            saved' handling rfl closed (List.forall_mem_cons.1 fewer).2
          refine ⟨.error .crashed :: results, w', stopping.interleaved_bind (took.interleaved_bind ?_),
            delivered, ?_, same⟩
          · exact handled.interleaved_bind (going.cons_done _)
          · rw [← counted]
            exact List.countP_cons_of_pos rfl
        · obtain ⟨⟨later, lost'⟩, _, handling, run⟩ := runs_bind_iff.1 run
          cases run
          obtain ⟨results, w', going, ended⟩ := deliver ⟨order, log, .ok event⟩ handling
          refine ⟨results, w', stopping.interleaved_bind (took.interleaved_bind ?_), ended⟩
          exact handled.interleaved_bind going

/-- A scrape of one log after another is one of the interleavings of its programs. -/
theorem interleaved_of_scrape {plan : ScrapePlan} {context : Context} {logs : List RawLog} {t t' : Tables}
    {off off' : Bool} {outputs : List ScrapeOutput} {lost : Nat}
    (run : Runs Serial (plan.handleAll context (plan.crew logs.length) .empty (numbered logs)) (t, off)
      (outputs, lost) (t', off')) :
    ∃ results w, Interleaved Answers (plan.parts context logs) (.start t off) results w ∧
      w.delivered = outputs ∧ lostWorkers results = lost ∧ w.tables = t' ∧ w.calledOff = off' := by
  let offered : ScrapeWorld := { ScrapeWorld.start t off with waiting := numbered logs, closed := true }
  let crew := List.replicate (plan.crew logs.length) (logs.length + 1)
  have offering : Runs Answers (offerAll (numbered logs)) (.start t off) (.ok ()) offered :=
    runs_offerAll (numbered logs) rfl
  have enough : ∀ rounds ∈ crew, (numbered logs).length < rounds := by
    intro rounds member
    rw [List.eq_of_mem_replicate member]
    simp [numbered]
  have size : crew.length = plan.crew logs.length := List.length_replicate
  rw [← size] at run
  obtain ⟨results, w, going, delivered, counted, same⟩ :=
    @interleaved_of_handleAll offered context plan _ crew _ _ _ _ _ [] run rfl rfl enough
  rw [List.map_replicate] at going
  refine ⟨_, w, offering.interleaved going, delivered, ?_, same⟩
  exact counted

end Working

end Scraping

end StakeIndex
