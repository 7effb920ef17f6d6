import StakeIndex.Index.Dispatch
import StakeIndex.Proofs.Handling

/-!
From the handling of an event to the processing of a log: the contract is looked up, the block is dated
by the cache or the chain, and the event is stored when its handling succeeded.
-/
namespace StakeIndex

open Job

section Processing

variable {chain : ChainAnswers} {context : Context} {log : RawLog}

/-- A cache that knows of a block nothing but what the chain says. -/
def HeaderCache.Faithful (cache : HeaderCache) (chain : ChainAnswers) (height : Nat) : Prop :=
  ∀ header, cache.get? height = some header → chain (.header height) = .ok header

theorem HeaderCache.faithful_empty (chain : ChainAnswers) (height : Nat) :
    HeaderCache.empty.Faithful chain height := by
  intro header known
  cases known

/-- An attempt to turn a log into an event and to store it, and the tables before and after it. -/
abbrev ProcessAttempt (chain : ChainAnswers) (context : Context) (log : RawLog) (cache : HeaderCache)
    (t : Tables) (result : Except Stop ContractEvent) (after : HeaderCache) (t' : Tables) : Prop :=
  Dialogue.Runs (Allows chain) (process context cache log) t (result, after) t'

/-- What a cache answers for the block of a log, or the chain if it does not know it. -/
theorem fetch_attempt {cache after : HeaderCache} {height : Nat} {t t' : Tables}
    {result : Except Stop BlockHeader} (faithful : cache.Faithful chain height)
    (run : Dialogue.Runs (Allows chain) (cache.fetch height) t (result, after) t') :
    t' = t ∧ ((∃ stop, result = .error stop) ∨
      ∃ header, result = .ok header ∧ chain (.header height) = .ok header) := by
  unfold HeaderCache.fetch at run
  cases known : cache.get? height with
  | some header =>
    rw [known] at run
    cases run
    exact ⟨rfl, .inr ⟨header, rfl, faithful header known⟩⟩
  | none =>
    rw [known] at run
    obtain ⟨reply, s, asked, rest⟩ := Dialogue.runs_bind_iff.1 run
    obtain ⟨rfl, same⟩ := (attempt_chain_iff (by simp)).1 asked
    cases reply with
    | error stop =>
      cases rest
      exact ⟨rfl, .inl ⟨stop, rfl⟩⟩
    | ok header =>
      cases rest
      refine ⟨rfl, .inr ⟨header, rfl, ?_⟩⟩
      obtain same | ⟨fault, wrong⟩ := same
      · cases answer : chain (.header height) with
        | error fault =>
          rw [answer] at same
          cases same
        | ok header' =>
          rw [answer] at same
          cases same
          rfl
      · cases wrong

theorem attempt_of_process {cache after : HeaderCache} {t t' : Tables}
    {result : Except Stop ContractEvent} (faithful : cache.Faithful chain log.height)
    (attempt : ProcessAttempt chain context log cache t result after t') :
    (∃ stop, result = .error stop ∧ t' = t) ∨
      ∃ binding header, context.registry.atAddress? log.address = some binding ∧
        chain (.header log.height) = .ok header ∧
        AttemptAt chain (recordLog context binding header log) t result t' := by
  unfold ProcessAttempt process at attempt
  obtain ⟨⟨dispatched, cached⟩, s, dispatching, storing⟩ := Dialogue.runs_bind_iff.1 attempt
  unfold dispatch at dispatching
  cases found : context.registry.atAddress? log.address with
  | none =>
    rw [found] at dispatching
    cases dispatching
    cases storing
    exact .inl ⟨_, rfl, rfl⟩
  | some binding =>
    rw [found] at dispatching
    obtain ⟨⟨fetched, cached'⟩, s', fetching, handling⟩ := Dialogue.runs_bind_iff.1 dispatching
    obtain ⟨rfl, ⟨stop, rfl⟩ | ⟨header, rfl, dated⟩⟩ := fetch_attempt faithful fetching
    · cases handling
      cases storing
      exact .inl ⟨stop, rfl, rfl⟩
    · obtain ⟨handled, s', attempt, rest⟩ := Dialogue.runs_bind_iff.1 handling
      cases rest
      refine .inr ⟨binding, header, rfl, dated, attempt_bind_iff.2 ?_⟩
      cases dispatched with
      | error stop =>
        cases storing
        exact .inl ⟨stop, attempt, rfl⟩
      | ok event =>
        obtain ⟨reply, s', stored, rest⟩ := Dialogue.runs_bind_iff.1 storing
        refine .inr ⟨event, s, attempt, attempt_bind_iff.2 ?_⟩
        cases reply with
        | error stop =>
          cases rest
          exact .inl ⟨stop, stored, rfl⟩
        | ok =>
          cases rest
          exact .inr ⟨_, _, stored, .done ..⟩

/-- A completed log was handled, and its event was stored then. -/
theorem recordLog_completed {binding : Binding} {header : BlockHeader} {t t' : Tables}
    {e : ContractEvent}
    (attempt : AttemptAt chain (recordLog context binding header log) t (.ok e) t') :
    ∃ s, AttemptAt chain (handleLog context binding header log) t (.ok e) s ∧
      AttemptAt chain (Job.store (.saveContractEvent e)) s (.ok ⟨⟩) t' := by
  obtain ⟨event, s, handling, storing⟩ := completed_bind attempt
  obtain ⟨_, s', stored, rest⟩ := completed_bind storing
  cases rest
  exact ⟨s, handling, stored⟩

theorem process_of_attempt {cache : HeaderCache} {t t' : Tables} {e : ContractEvent}
    {binding : Binding} {header : BlockHeader} (faithful : cache.Faithful chain log.height)
    (found : context.registry.atAddress? log.address = some binding)
    (dated : chain (.header log.height) = .ok header)
    (attempt : AttemptAt chain (recordLog context binding header log) t (.ok e) t') :
    ∃ after, ProcessAttempt chain context log cache t (.ok e) after t' := by
  obtain ⟨s, handling, stored⟩ := recordLog_completed attempt
  obtain ⟨after, fetching⟩ : ∃ after, Dialogue.Runs (Allows chain) (cache.fetch log.height) t
      (.ok header, after) t := by
    unfold HeaderCache.fetch
    cases known : cache.get? log.height with
    | some header' =>
      have same := faithful header' known
      rw [dated] at same
      cases same
      exact ⟨cache, .done ..⟩
    | none =>
      have asked : AttemptAt chain (Job.header log.height) t (.ok header) t :=
        (attempt_chain_iff (by simp)).2 ⟨rfl, .inl (by rw [dated]; rfl)⟩
      exact ⟨_, Dialogue.runs_bind_iff.2 ⟨_, _, asked, .done ..⟩⟩
  have dispatching : Dialogue.Runs (Allows chain) (dispatch context cache log) t (.ok e, after) s := by
    unfold dispatch
    rw [found]
    refine Dialogue.runs_bind_iff.2 ⟨_, _, fetching, ?_⟩
    exact Dialogue.runs_bind_iff.2 ⟨_, _, handling, .done ..⟩
  exact ⟨after, Dialogue.runs_bind_iff.2 ⟨_, _, dispatching,
    Dialogue.runs_bind_iff.2 ⟨_, _, stored, .done ..⟩⟩⟩

end Processing

end StakeIndex
