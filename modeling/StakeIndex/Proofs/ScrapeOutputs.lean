import StakeIndex.Proofs.ScrapeWorld

/-!
What a worker of a scrape does, whatever the others do. It takes a log, stores its event once if the handling
succeeds, and delivers one output for it, before it takes the next log or stops.
-/
namespace StakeIndex.Scraping

open Dialogue Job ScrapeSteps

/-- What a worker may ask. It neither offers logs nor closes the queue. -/
def workerProtocol : Protocol ScrapeRequest.Answer where
  asks
    | .offer .. => False
    | .close => False
    | .handling _ (.store r) => HandlerMay r ∨ ∃ e, r = .saveContractEvent e
    | _ => True
  replies _ _ := True

section Handling

variable {α β ρ : Type} {order : Nat}

theorem handling_bind (order : Nat) (d : Steps α) (f : α → Steps β) :
    handling order (d >>= f) = handling order d >>= fun a => handling order (f a) :=
  mapRequests_bind ..

theorem quiet_request {r : StoreRequest} (may : HandlerMay r) (order : Nat)
    (reply : Request.Answer (.store r)) : marks [⟨.handling order (.store r), reply⟩] = [] := by
  cases reply with
  | error stop => exact mark_refused order r stop
  | ok a =>
    rw [mark_stored]
    cases may <;> rfl

/-- A handler shows nothing. -/
theorem obeys_handling {holds : ρ → Prop} {steps : Steps ρ} (asks : Asks HandlerMay holds steps) :
    (handling order steps).Obeys workerProtocol fun past result => marks past = [] ∧ holds result := by
  induction asks with
  | done h => exact ⟨rfl, h⟩
  | @chain r next _ ih =>
    refine ⟨trivial, fun reply _ => (ih reply).mono ?_⟩
    rintro past result ⟨nothing, h⟩
    exact ⟨nothing, h⟩
  | @shared r next _ ih =>
    refine ⟨trivial, fun reply _ => (ih reply).mono ?_⟩
    rintro past result ⟨nothing, h⟩
    exact ⟨nothing, h⟩
  | @store r next may _ ih =>
    refine ⟨.inl may, fun reply _ => (ih reply).mono ?_⟩
    rintro past result ⟨nothing, h⟩
    refine ⟨?_, h⟩
    have both := marks_append [⟨.handling order (.store r), reply⟩] past
    rwa [quiet_request may, nothing] at both

/-- What is shown of an event that was stored. -/
def savedBy {ε : Type} (order : Nat) : Except ε ContractEvent → List Mark
  | .ok e => [.saved order e]
  | .error _ => []

/-- A log is handled: its event is stored once, and only if this is what comes out. -/
def Handles (order : Nat) (log : RawLog) : Promise ScrapeRequest.Answer (Except Stop ContractEvent) :=
  fun past result => marks past = savedBy order result ∧ ∀ e, result = .ok e → e.IsOf log

theorem obeys_recordLog (context : Context) (binding : Binding) (header : BlockHeader) (log : RawLog) :
    (handling order (recordLog context binding header log).outcome).Obeys workerProtocol
      (Handles order log) := by
  have unfold_bind : (recordLog context binding header log).outcome =
      (handleLog context binding header log).run >>= ExceptT.bindCont fun event => do
        store (.saveContractEvent event)
        return event := rfl
  rw [unfold_bind, handling_bind]
  apply (obeys_handling (handleLog_within context binding header log)).bind
  rintro past result ⟨nothing, of⟩
  cases result with
  | error stop =>
    apply obeys_done
    exact ⟨nothing, fun _ wrong => (nomatch wrong)⟩
  | ok event =>
    refine ⟨.inr ⟨event, rfl⟩, fun reply _ => ?_⟩
    have shown := marks_append past [⟨.handling order (.store (.saveContractEvent event)), reply⟩]
    cases reply with
    | error stop =>
      rw [nothing, mark_refused] at shown
      exact ⟨shown, fun _ wrong => (nomatch wrong)⟩
    | ok a =>
      rw [nothing, mark_stored] at shown
      refine ⟨shown, fun e same => ?_⟩
      cases same
      exact of event rfl

theorem obeys_header (order height : Nat) : (header order height).Obeys workerProtocol
    fun past _ => marks past = [] := by
  refine ⟨trivial, fun known _ => ?_⟩
  cases known with
  | some h => rfl
  | none =>
    refine ⟨trivial, fun reply _ => ?_⟩
    cases reply with
    | error fault => rfl
    | ok h => exact ⟨trivial, fun _ _ => rfl⟩

theorem obeys_handle (context : Context) (order : Nat) (log : RawLog) :
    (handle context order log).Obeys workerProtocol (Handles order log) := by
  unfold handle
  cases context.registry.atAddress? log.address with
  | none => exact ⟨rfl, fun _ wrong => (nomatch wrong)⟩
  | some binding =>
    apply (obeys_header order log.height).bind
    intro past dated nothing
    cases dated with
    | error stop =>
      apply obeys_done
      exact ⟨nothing, fun _ wrong => (nomatch wrong)⟩
    | ok header =>
      apply (obeys_recordLog context binding header log).mono
      rintro later result ⟨shown, of⟩
      exact ⟨by rw [marks_append, nothing, shown, List.nil_append], of⟩

end Handling

/-- What is shown of a log that was taken and handled, and of its output. -/
def shown (output : ScrapeOutput) : List Mark :=
  .took (output.order, output.log) :: (savedBy output.order output.result ++ [.delivered output])

/-- An output whose event, if there is one, is of its log. -/
def Sound (output : ScrapeOutput) : Prop := ∀ e, output.result = .ok e → e.IsOf output.log

/-- A worker that is not lost has delivered an output for each log that it took, and stopped when there was
no log left, or the work was called off, or it had gone through all its rounds. -/
def Works (heedsCancel : Bool) (rounds : Nat) : Promise ScrapeRequest.Answer (Except Stop Unit) :=
  fun past result => result = .ok () → ∃ outputs : List ScrapeOutput, (∀ output ∈ outputs, Sound output) ∧
    (marks past = outputs.flatMap shown ++ [.ended heedsCancel] ∨
      outputs.length = rounds ∧ marks past = outputs.flatMap shown)

theorem works_next {heedsCancel : Bool} {rounds : Nat} {output : ScrapeOutput}
    {past later : List (Exchange ScrapeRequest.Answer)} {result : Except Stop Unit} (sound : Sound output)
    (first : marks past = shown output) (works : Works heedsCancel rounds later result) :
    Works heedsCancel (rounds + 1) (past ++ later) result := by
  intro well
  obtain ⟨outputs, sounds, ended⟩ := works well
  refine ⟨output :: outputs, List.forall_mem_cons.2 ⟨sound, sounds⟩, ?_⟩
  rw [marks_append, first, List.flatMap_cons, List.length_cons]
  rcases ended with ended | ⟨all, ended⟩
  · exact .inl (by rw [ended, List.append_assoc])
  · exact .inr ⟨by rw [all], by rw [ended]⟩

theorem works_ended {heedsCancel : Bool} {rounds : Nat} {past : List (Exchange ScrapeRequest.Answer)}
    (ended : marks past = [.ended heedsCancel]) : Works heedsCancel rounds past (.ok ()) :=
  fun _ => ⟨[], by simp, .inl ended⟩

theorem obeys_stops (heedsCancel : Bool) : (stops heedsCancel).Obeys workerProtocol
    fun past stopped => marks past = if stopped then [.ended heedsCancel] else [] := by
  cases heedsCancel with
  | false => rfl
  | true =>
    refine ⟨trivial, fun reply _ => ?_⟩
    cases reply <;> rfl

theorem obeys_worker (context : Context) (heedsCancel : Bool) (rounds : Nat) :
    (worker context heedsCancel rounds).Obeys workerProtocol (Works heedsCancel rounds) := by
  induction rounds with
  | zero => exact fun _ => ⟨[], by simp, .inr ⟨rfl, rfl⟩⟩
  | succ rounds ih =>
    unfold worker
    apply (obeys_stops heedsCancel).bind
    intro asked stopped seen
    cases stopped with
    | true =>
      apply obeys_done
      exact works_ended seen
    | false =>
      refine ⟨trivial, fun taken _ => ?_⟩
      rcases taken with _ | ⟨order, log⟩
      · apply works_ended
        rw [marks_append, seen]
        rfl
      · let took : Exchange ScrapeRequest.Answer := ⟨.take heedsCancel, some (order, log)⟩
        change (handle context order log >>= _).Obeys workerProtocol
          fun later result => Works heedsCancel (rounds + 1) (asked ++ took :: later) result
        apply (obeys_handle context order log).bind
        rintro handled result ⟨saved, of⟩
        -- What is delivered completes the round, whatever came of the log.
        have deliver (output : ScrapeOutput) (sound : Sound output)
            (same : shown output = .took (order, log) :: (savedBy order result ++ [.delivered output])) :
            (ask (.deliver output) >>= fun _ => worker context heedsCancel rounds).Obeys workerProtocol
              fun later result =>
                Works heedsCancel (rounds + 1) (asked ++ took :: (handled ++ later)) result := by
          refine ⟨trivial, fun reply _ => ih.mono fun later result works => ?_⟩
          have first : marks (asked ++ took :: (handled ++ [⟨.deliver output, reply⟩])) = shown output := by
            rw [marks_append, seen, same, ← saved]
            exact congrArg (Mark.took (order, log) :: ·) (marks_append handled _)
          have next := works_next sound first works
          simpa using next
        rcases result with (failure | _) | event
        · exact deliver ⟨order, log, .error failure⟩ (fun _ wrong => (nomatch wrong)) rfl
        · exact fun wrong => (nomatch wrong)
        · exact deliver ⟨order, log, .ok event⟩ (fun e same => by cases same; exact of event rfl) rfl

end StakeIndex.Scraping
