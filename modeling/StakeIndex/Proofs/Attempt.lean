import StakeIndex.Job
import StakeIndex.Proofs.Perform

/-!
Attempts at a job against tables and a chain whose answers are fixed, where any request may fail instead.
A job that asks the chain only is done with one result or never; a job that writes leaves a prefix of its
writes when it is cut.
-/
namespace StakeIndex

/-- The runs of a program in a world that may answer a request in several ways. -/
inductive Dialogue.Runs {Request : Type} {Answer : Request → Type} {α σ : Type}
    (allows : (r : Request) → σ → Answer r → σ → Prop) :
    Dialogue Request Answer α → σ → α → σ → Prop where
  | done (a : α) (s : σ) : Runs allows (.done a) s a s
  | ask {r : Request} {next : Answer r → Dialogue Request Answer α} {s s' s'' : σ}
      {reply : Answer r} {a : α} : allows r s reply s' → Runs allows (next reply) s' a s'' →
      Runs allows (.ask r next) s a s''

theorem Dialogue.runs_bind_iff {Request : Type} {Answer : Request → Type} {α β σ : Type}
    {allows : (r : Request) → σ → Answer r → σ → Prop} {d : Dialogue Request Answer α}
    {f : α → Dialogue Request Answer β} {s s'' : σ} {b : β} :
    Runs allows (d >>= f) s b s'' ↔ ∃ a s', Runs allows d s a s' ∧ Runs allows (f a) s' b s'' := by
  constructor
  · intro run
    induction d generalizing s with
    | done a => exact ⟨a, s, .done a s, run⟩
    | ask r next ih =>
      cases run with
      | ask allowed rest =>
        obtain ⟨a, s', first, second⟩ := ih _ rest
        exact ⟨a, s', .ask allowed first, second⟩
  · rintro ⟨a, s', first, second⟩
    induction first with
    | done => exact second
    | ask allowed _ ih => exact .ask allowed (ih second)

/-- The first program stops early, or it ends well and the second one runs. -/
theorem Dialogue.runs_except_iff {Request : Type} {Answer : Request → Type} {α β ε σ : Type}
    {allows : (r : Request) → σ → Answer r → σ → Prop} {d : ExceptT ε (Dialogue Request Answer) α}
    {f : α → ExceptT ε (Dialogue Request Answer) β} {s s'' : σ} {result : Except ε β} :
    Runs allows (d >>= f).run s result s'' ↔
      (∃ stop, Runs allows d.run s (.error stop) s'' ∧ result = .error stop) ∨
      ∃ a s', Runs allows d.run s (.ok a) s' ∧ Runs allows (f a).run s' result s'' := by
  have unfold_bind : (d >>= f).run = d.run >>= ExceptT.bindCont fun a => f a := rfl
  rw [unfold_bind, runs_bind_iff]
  constructor
  · rintro ⟨first, s', run, rest⟩
    cases first with
    | ok a => exact .inr ⟨a, s', run, rest⟩
    | error stop =>
      cases rest
      exact .inl ⟨stop, run, rfl⟩
  · rintro (⟨stop, run, rfl⟩ | ⟨a, s', run, rest⟩)
    · exact ⟨_, _, run, .done ..⟩
    · exact ⟨_, _, run, rest⟩

theorem Dialogue.Runs.weaken {Request : Type} {Answer : Request → Type} {α σ : Type}
    {allows allows' : (r : Request) → σ → Answer r → σ → Prop} {d : Dialogue Request Answer α} {s s' : σ}
    {a : α} (run : Runs allows d s a s')
    (weaker : ∀ {r s reply s'}, allows r s reply s' → allows' r s reply s') : Runs allows' d s a s' := by
  induction run with
  | done a s => exact .done a s
  | ask answered _ ih => exact .ask (weaker answered) ih

/-- A world that always answers gives a run. -/
theorem Dialogue.runs_of_run {Request : Type} {Answer : Request → Type} {α σ : Type}
    {allows : (r : Request) → σ → Answer r → σ → Prop} {answer : (r : Request) → σ → Answer r × σ}
    (allowed : ∀ r s, allows r s (answer r s).1 (answer r s).2) (d : Dialogue Request Answer α) (s : σ) :
    Runs allows d s (d.run answer s).1 (d.run answer s).2 := by
  induction d generalizing s with
  | done a => exact .done a s
  | ask r next ih => exact .ask (allowed r s) (ih _ _)

/-- What the chain answers to each question. -/
abbrev ChainAnswers := (r : ChainRequest) → Except ChainFault r.Result

/-- The chain answers as it does or fails, and its head may be anywhere; the store performs a request or
refuses it and stays as it is. -/
def Allows (chain : ChainAnswers) : (r : Request) → Tables → r.Answer → Tables → Prop
  | .chain .head, t, _, t' => t' = t
  | .chain r, t, reply, t' => t' = t ∧ (reply = chain r ∨ ∃ fault, reply = .error fault)
  | .store r, t, reply, t' =>
    reply = .ok (t.perform r).1 ∧ t' = (t.perform r).2 ∨ ∃ stop, reply = .error stop ∧ t' = t
  | .shared _, t, _, t' => t' = t

/-- The store performs a request or refuses it and stays as it is. All other requests are answered in any
way. -/
def AnyAnswer : (r : Request) → Tables → r.Answer → Tables → Prop
  | .store r, t, reply, t' =>
    reply = .ok (t.perform r).1 ∧ t' = (t.perform r).2 ∨ ∃ stop, reply = .error stop ∧ t' = t
  | _, t, _, t' => t' = t

theorem Allows.anyAnswer {chain : ChainAnswers} {r : Request} {t t' : Tables} {reply : r.Answer}
    (allowed : Allows chain r t reply t') : AnyAnswer r t reply t' := by
  cases r with
  | chain r =>
    cases r with
    | head => exact allowed
    | _ => exact allowed.1
  | store r => exact allowed
  | shared r => exact allowed

/-- The world in which all questions are answered, and the store refuses some requests. -/
def answering (chain : ChainAnswers) (refused : StoreRequest → Bool) :
    (r : Request) → Tables → r.Answer × Tables
  | .chain .head, t => (.ok 0, t)
  | .chain (.header height), t => (chain (.header height), t)
  | .chain (.logs first last addresses), t => (chain (.logs first last addresses), t)
  | .chain (.call block contract input), t => (chain (.call block contract input), t)
  | .store r, t =>
    if refused r then (.error (.failed .poolTimedOut), t) else (.ok (t.perform r).1, (t.perform r).2)
  | .shared .isCancelled, t => (false, t)
  | .shared .beginCatchUp, t => (none, t)
  | .shared (.reachedHeight _), t => ((), t)
  | .shared .endCatchUp, t => ((), t)
  | .shared (.knownDelegation _), t => (none, t)
  | .shared (.rememberDelegation _), t => ((), t)

theorem answering_allowed (chain : ChainAnswers) (refused : StoreRequest → Bool) (r : Request)
    (t : Tables) : Allows chain r t (answering chain refused r t).1 (answering chain refused r t).2 := by
  cases r with
  | chain r =>
    cases r with
    | head => rfl
    | _ => exact ⟨rfl, .inl rfl⟩
  | store r =>
    simp only [Allows, answering]
    split
    · exact .inr ⟨_, rfl, rfl⟩
    · exact .inl ⟨rfl, rfl⟩
  | shared r => cases r <;> rfl

namespace Job

variable {α β : Type} {chain : ChainAnswers} {t t' : Tables} {job : Job α}

/-- An attempt at a job, and the tables before and after it. -/
abbrev AttemptAt (chain : ChainAnswers) (job : Job α) (t : Tables) (result : Except Stop α)
    (t' : Tables) : Prop :=
  Dialogue.Runs (Allows chain) job.run t result t'

theorem attempt_pure_iff {a : α} {result : Except Stop α} :
    AttemptAt chain (pure a) t result t' ↔ result = .ok a ∧ t' = t := by
  constructor
  · rintro ⟨⟩
    exact ⟨rfl, rfl⟩
  · rintro ⟨rfl, rfl⟩
    exact .done ..

theorem attempt_throw_iff {stop : Stop} {result : Except Stop α} :
    AttemptAt chain (throw stop) t result t' ↔ result = .error stop ∧ t' = t := by
  constructor
  · rintro ⟨⟩
    exact ⟨rfl, rfl⟩
  · rintro ⟨rfl, rfl⟩
    exact .done ..

/-- The first job is cut, or it is completed and the second one is attempted. -/
theorem attempt_bind_iff {f : α → Job β} {result : Except Stop β} :
    AttemptAt chain (job >>= f) t result t' ↔
      (∃ stop, AttemptAt chain job t (.error stop) t' ∧ result = .error stop) ∨
      ∃ a s, AttemptAt chain job t (.ok a) s ∧ AttemptAt chain (f a) s result t' :=
  Dialogue.runs_except_iff

/-- When both are completed, so is each of them. -/
theorem completed_bind {f : α → Job β} {b : β} (attempt : AttemptAt chain (job >>= f) t (.ok b) t') :
    ∃ a s, AttemptAt chain job t (.ok a) s ∧ AttemptAt chain (f a) s (.ok b) t' := by
  obtain ⟨stop, -, wrong⟩ | done := attempt_bind_iff.1 attempt
  · cases wrong
  · exact done

/-- No attempt at the job is completed. -/
def Never (chain : ChainAnswers) (job : Job α) : Prop :=
  ∀ t a t', ¬ AttemptAt chain job t (.ok a) t'

/-- When everything is answered, a job has a result and makes some writes; a completed attempt always has
that result and makes these writes, and an attempt that is cut has made the first of them. -/
structure Does (chain : ChainAnswers) (job : Job α) (t : Tables) (a : α)
    (writes : List StoreRequest) : Prop where
  completes : job.run.run (answering chain fun _ => false) t = (.ok a, t.performAll writes)
  only : ∀ result t', AttemptAt chain job t result t' →
    result = .ok a ∧ t' = t.performAll writes ∨
      ∃ stop k, result = .error stop ∧ t' = t.performAll (writes.take k)

theorem Does.attempt {a : α} {writes : List StoreRequest} (does : Does chain job t a writes) :
    AttemptAt chain job t (.ok a) (t.performAll writes) := by
  have run := Dialogue.runs_of_run (answering_allowed chain fun _ => false) job.run t
  rwa [does.completes] at run

theorem Does.unique {a b : α} {writes : List StoreRequest} (does : Does chain job t a writes)
    (attempt : AttemptAt chain job t (.ok b) t') : b = a ∧ t' = t.performAll writes := by
  obtain ⟨same, after⟩ | ⟨stop, k, cut, -⟩ := does.only _ _ attempt
  · exact ⟨Except.ok.inj same, after⟩
  · cases cut

theorem does_pure (t : Tables) (a : α) : Does chain (pure a) t a [] := by
  exact ⟨rfl, fun result t' attempt => .inl (attempt_pure_iff.1 attempt)⟩

theorem Does.bind {a : α} {b : β} {f : α → Job β} {first second : List StoreRequest}
    (does : Does chain job t a first) (next : Does chain (f a) (t.performAll first) b second) :
    Does chain (job >>= f) t b (first ++ second) := by
  refine ⟨?_, fun result t' attempt => ?_⟩
  · have unfold_bind : (job >>= f).run = job.run >>= ExceptT.bindCont fun a => f a := rfl
    rw [unfold_bind, Dialogue.run_bind, does.completes, Tables.performAll_append]
    exact next.completes
  · obtain ⟨stop, cut, rfl⟩ | ⟨a', s, attempt, rest⟩ := attempt_bind_iff.1 attempt
    · obtain ⟨wrong, -⟩ | ⟨_, k, same, after⟩ := does.only _ _ cut
      · cases wrong
      · refine .inr ⟨stop, min k first.length, rfl, ?_⟩
        rw [List.take_append_of_le_length (Nat.min_le_right ..), after, List.take_eq_take_min]
    · obtain ⟨rfl, rfl⟩ := does.unique attempt
      obtain ⟨same, after⟩ | ⟨stop, k, same, after⟩ := next.only _ _ rest
      · exact .inl ⟨same, by rw [after, Tables.performAll_append]⟩
      · refine .inr ⟨stop, first.length + k, same, ?_⟩
        rw [after, List.take_length_add_append, Tables.performAll_append]

theorem Never.bind {f : α → Job β} (never : Never chain job) : Never chain (job >>= f) := by
  intro t b t' attempt
  obtain ⟨a, s, attempt, -⟩ := completed_bind attempt
  exact never t a s attempt

theorem Never.after {f : α → Job β} (never : ∀ a, Never chain (f a)) :
    Never chain (job >>= f) := by
  intro t b t' attempt
  obtain ⟨a, s, -, attempt⟩ := completed_bind attempt
  exact never a s b t' attempt

theorem Never.next {a : α} {f : α → Job β} (does : ∀ t, Does chain job t a [])
    (never : Never chain (f a)) : Never chain (job >>= f) := by
  intro t b t' attempt
  obtain ⟨a', s, attempt, rest⟩ := completed_bind attempt
  obtain ⟨rfl, -⟩ := (does t).unique attempt
  exact never _ _ _ rest

theorem never_throw (stop : Stop) : Never chain (throw stop : Job α) := by
  intro t a t' attempt
  cases (attempt_throw_iff.1 attempt).1

/-- The store performs a request, or refuses it and stays as it is. -/
theorem attempt_store {r : StoreRequest} {result : Except Stop r.Result}
    (attempt : AttemptAt chain (store r) t result t') :
    result = .ok (t.perform r).1 ∧ t' = (t.perform r).2 ∨ ∃ stop, result = .error stop ∧ t' = t := by
  cases attempt with
  | ask allowed rest =>
    cases rest
    exact allowed

theorem does_store (t : Tables) (r : StoreRequest) :
    Does chain (store r) t (t.perform r).1 [r] := by
  refine ⟨rfl, fun result t' attempt => ?_⟩
  obtain ⟨same, after⟩ | ⟨stop, same, after⟩ := attempt_store attempt
  · exact .inl ⟨same, after⟩
  · exact .inr ⟨stop, 0, same, after⟩

/-- A question to the store leaves nothing behind. -/
theorem does_question {r : StoreRequest} (same : ∀ t : Tables, (t.perform r).2 = t) (t : Tables) :
    Does chain (store r) t (t.perform r).1 [] := by
  have asked : Does chain (store r) t (t.perform r).1 [r] := does_store t r
  obtain ⟨completes, only⟩ := asked
  have unchanged (k : Nat) : t.performAll ([r].take k) = t := by
    cases k with
    | zero => rfl
    | succ k =>
      rw [List.take_succ_cons, List.take_nil]
      exact same t
  refine ⟨?_, fun result t' attempt => ?_⟩
  · have after : t.performAll [r] = t := unchanged 1
    rwa [after] at completes
  · obtain ⟨done, after⟩ | ⟨stop, k, cut, after⟩ := only result t' attempt
    · exact .inl ⟨done, after.trans (unchanged 1)⟩
    · exact .inr ⟨stop, 0, cut, after.trans (unchanged k)⟩

/-- A loop makes the writes of its turns. -/
theorem does_forIn {ι : Type} {turn : ι → PUnit → Job (ForInStep PUnit)}
    {writes : ι → List StoreRequest}
    (each : ∀ i t, Does chain (turn i PUnit.unit) t (.yield PUnit.unit) (writes i)) (items : List ι)
    (t : Tables) : Does chain (forIn items PUnit.unit turn) t PUnit.unit (items.flatMap writes) := by
  induction items generalizing t with
  | nil => exact does_pure ..
  | cons i rest ih =>
    rw [List.forIn_cons, List.flatMap_cons]
    exact (each i t).bind (ih _)

section Results

variable {allowed : StoreRequest → Prop}

/-- Programs all of whose requests to the store are allowed, and whose results have a property, whatever
the answers. -/
inductive Asks {ρ : Type} (allowed : StoreRequest → Prop) (holds : ρ → Prop) : Steps ρ → Prop where
  | done {result : ρ} : holds result → Asks allowed holds (.done result)
  | chain {r : ChainRequest} {next : Request.Answer (.chain r) → Steps ρ} :
    (∀ reply, Asks allowed holds (next reply)) → Asks allowed holds (.ask (.chain r) next)
  | shared {r : SharedRequest} {next : Request.Answer (.shared r) → Steps ρ} :
    (∀ reply, Asks allowed holds (next reply)) → Asks allowed holds (.ask (.shared r) next)
  | store {r : StoreRequest} {next : Request.Answer (.store r) → Steps ρ} : allowed r →
    (∀ reply, Asks allowed holds (next reply)) → Asks allowed holds (.ask (.store r) next)

theorem Asks.bind {ρ ρ' : Type} {holds : ρ → Prop} {holds' : ρ' → Prop} {steps : Steps ρ}
    {f : ρ → Steps ρ'} (first : Asks allowed holds steps)
    (next : ∀ result, holds result → Asks allowed holds' (f result)) :
    Asks allowed holds' (steps >>= f) := by
  induction first with
  | done h => exact next _ h
  | chain _ ih => exact .chain ih
  | shared _ ih => exact .shared ih
  | store may _ ih => exact .store may ih

theorem Asks.weaken {ρ : Type} {allowed' : StoreRequest → Prop} {holds : ρ → Prop} {steps : Steps ρ}
    (asks : Asks allowed holds steps) (implies : ∀ r, allowed r → allowed' r) :
    Asks allowed' holds steps := by
  induction asks with
  | done h => exact .done h
  | chain _ ih => exact .chain ih
  | shared _ ih => exact .shared ih
  | store may _ ih => exact .store (implies _ may) ih

/-- A run of such a program has made some requests that are allowed. -/
theorem Asks.run_any {ρ : Type} {holds : ρ → Prop} {steps : Steps ρ} (asks : Asks allowed holds steps)
    {result : ρ} (run : Dialogue.Runs AnyAnswer steps t result t') :
    holds result ∧ ∃ requests, (∀ r ∈ requests, allowed r) ∧ t' = t.performAll requests := by
  induction asks generalizing t with
  | done h =>
    cases run
    exact ⟨h, [], fun _ member => (nomatch member), rfl⟩
  | chain _ ih =>
    cases run with
    | ask answered rest =>
      cases answered
      exact ih _ rest
  | shared _ ih =>
    cases run with
    | ask answered rest =>
      cases answered
      exact ih _ rest
  | @store r _ may _ ih =>
    cases run with
    | ask answered rest =>
      obtain ⟨-, rfl⟩ | ⟨stop, -, rfl⟩ := answered
      · obtain ⟨h, requests, others, same⟩ := ih _ rest
        exact ⟨h, r :: requests, List.forall_mem_cons.2 ⟨may, others⟩, same⟩
      · exact ih _ rest

theorem Asks.run {ρ : Type} {holds : ρ → Prop} {steps : Steps ρ} (asks : Asks allowed holds steps)
    {result : ρ} (run : Dialogue.Runs (Allows chain) steps t result t') :
    holds result ∧ ∃ requests, (∀ r ∈ requests, allowed r) ∧ t' = t.performAll requests :=
  asks.run_any (run.weaken fun allowed => allowed.anyAnswer)

/-- A job whose requests to the store are all allowed, and all of whose results have a property. -/
def Within (allowed : StoreRequest → Prop) (job : Job α) (holds : α → Prop) : Prop :=
  Asks allowed (fun result : Except Stop α => ∀ a, result = .ok a → holds a) job.run

/-- A job that asks nothing of the store, and all of whose results have a property. -/
abbrev Consults (job : Job α) (holds : α → Prop) : Prop := Within (fun _ => False) job holds

theorem within_pure {holds : α → Prop} {a : α} (h : holds a) : Within allowed (pure a) holds := by
  refine .done fun b same => ?_
  cases same
  exact h

theorem within_throw {holds : α → Prop} (stop : Stop) :
    Within allowed (throw stop : Job α) holds :=
  .done fun _ wrong => (nomatch wrong)

theorem within_store {r : StoreRequest} (may : allowed r) : Within allowed (store r) fun _ => True :=
  .store may fun _ => .done fun _ _ => trivial

theorem consults_lift {holds : α → Prop} {value : Except Failure α}
    (h : ∀ a, value = .ok a → holds a) : Consults (lift value) holds := by
  cases value with
  | ok a => exact within_pure (h a rfl)
  | error failure => exact within_throw _

theorem consults_chain (what : String) (r : ChainRequest) :
    Consults (Job.chain what r) fun _ => True :=
  .chain fun _ => .done fun _ _ => trivial

theorem consults_shared (r : SharedRequest) : Consults (Job.shared r) fun _ => True :=
  .shared fun _ => .done fun _ _ => trivial

theorem Within.bind {holds : α → Prop} {holds' : β → Prop} {f : α → Job β}
    (first : Within allowed job holds) (next : ∀ a, holds a → Within allowed (f a) holds') :
    Within allowed (job >>= f) holds' := by
  refine Asks.bind first fun result h => ?_
  cases result with
  | ok a => exact next a (h a rfl)
  | error stop => exact .done fun _ wrong => (nomatch wrong)

theorem Within.weaken {allowed' : StoreRequest → Prop} {holds : α → Prop} (within : Within allowed job holds)
    (implies : ∀ r, allowed r → allowed' r) : Within allowed' job holds := Asks.weaken within implies

theorem Within.mono {holds holds' : α → Prop} (within : Within allowed job holds)
    (implies : ∀ a, holds a → holds' a) : Within allowed job holds' := by
  rw [← bind_pure job]
  exact within.bind fun a h => within_pure (implies a h)

theorem Consults.within {holds : α → Prop} (consults : Consults job holds) :
    Within allowed job holds := Within.weaken consults fun _ => False.elim

/-- Where an empty answer means that there is nothing. -/
theorem Consults.ifAny {holds : α → Prop} (consults : Consults job holds) :
    Consults job.ifAny fun found => ∀ a, found = some a → holds a := by
  refine Asks.bind consults fun result h => ?_
  split
  next a =>
    refine .done fun found same b some => ?_
    cases same
    cases some
    exact h a rfl
  next =>
    refine .done fun found same b some => ?_
    cases same
    cases some
  next => exact .done fun _ wrong => (nomatch wrong)

/-- Such a job is cut, or it is completed and the next one is attempted; it has made some requests that are
allowed. -/
theorem Within.attempt_bind {holds : α → Prop} (within : Within allowed job holds) {f : α → Job β}
    {result : Except Stop β} (attempt : AttemptAt chain (job >>= f) t result t') :
    ∃ requests, (∀ r ∈ requests, allowed r) ∧
      ((∃ stop, result = .error stop) ∧ t' = t.performAll requests ∨
        ∃ a, holds a ∧ AttemptAt chain (f a) (t.performAll requests) result t') := by
  obtain ⟨stop, cut, same⟩ | ⟨a, s, completed, rest⟩ := attempt_bind_iff.1 attempt
  · obtain ⟨-, requests, may, after⟩ := Asks.run within cut
    exact ⟨requests, may, .inl ⟨⟨stop, same⟩, after⟩⟩
  · obtain ⟨h, requests, may, after⟩ := Asks.run within completed
    rw [after] at rest
    exact ⟨requests, may, .inr ⟨a, h a rfl, rest⟩⟩

/-- A job that asks nothing of the store leaves the tables as they are. -/
theorem Consults.attempt_bind {holds : α → Prop} (consults : Consults job holds) {f : α → Job β}
    {result : Except Stop β} (attempt : AttemptAt chain (job >>= f) t result t') :
    (∃ stop, result = .error stop) ∧ t' = t ∨
      ∃ a, holds a ∧ AttemptAt chain (f a) t result t' := by
  obtain ⟨requests, none, rest⟩ := Within.attempt_bind consults attempt
  cases requests with
  | nil => exact rest
  | cons r _ => exact (none r List.mem_cons_self).elim

theorem Consults.completed {holds : α → Prop} (consults : Consults job holds) {a : α}
    (attempt : AttemptAt chain job t (.ok a) t') : holds a :=
  (Asks.run consults attempt).1 a rfl

end Results

section Reading

/-- A job that asks the chain only, so that the tables do not matter to it. -/
def Reads (chain : ChainAnswers) (job : Job α) : Prop :=
  Never chain job ∨ ∃ a, ∀ t, Does chain job t a []

theorem reads_pure (a : α) : Reads chain (pure a) := .inr ⟨a, fun t => does_pure t a⟩

theorem reads_throw (stop : Stop) : Reads chain (throw stop : Job α) := .inl (never_throw stop)

theorem reads_lift (value : Except Failure α) : Reads chain (lift value) := by
  cases value with
  | ok a => exact reads_pure a
  | error failure => exact reads_throw _

theorem Reads.bind {f : α → Job β} (reads : Reads chain job) (next : ∀ a, Reads chain (f a)) :
    Reads chain (job >>= f) := by
  obtain never | ⟨a, does⟩ := reads
  · exact .inl never.bind
  obtain never | ⟨b, does'⟩ := next a
  · exact .inl (never.next does)
  · exact .inr ⟨b, fun t => (does t).bind (does' _)⟩

/-- What an answer of the chain is to a job that asks for it. -/
def answered {ρ : Type} (what : String) (reply : Except ChainFault ρ) : Except Stop ρ :=
  reply.mapError fun fault => .failed (fault.toFailure what)

theorem attempt_chain_iff {what : String} {r : ChainRequest} (asked : r ≠ .head)
    {result : Except Stop r.Result} :
    AttemptAt chain (Job.chain what r) t result t' ↔
      t' = t ∧ (result = answered what (chain r) ∨ ∃ fault, result = answered what (.error fault)) := by
  have allows (reply : Except ChainFault r.Result) : Allows chain (.chain r) t reply t' ↔
      t' = t ∧ (reply = chain r ∨ ∃ fault, reply = .error fault) := by
    cases r with
    | head => exact absurd rfl asked
    | _ => rfl
  constructor
  · intro attempt
    cases attempt with
    | ask allowed rest =>
      cases rest
      obtain ⟨same, rfl | ⟨fault, rfl⟩⟩ := (allows _).1 allowed
      · exact ⟨same, .inl rfl⟩
      · exact ⟨same, .inr ⟨fault, rfl⟩⟩
  · rintro ⟨same, rfl | ⟨fault, rfl⟩⟩
    · exact .ask ((allows _).2 ⟨same, .inl rfl⟩) (.done ..)
    · exact .ask ((allows (.error fault)).2 ⟨same, .inr ⟨fault, rfl⟩⟩) (.done ..)

theorem reads_chain (what : String) {r : ChainRequest} (asked : r ≠ .head) :
    Reads chain (Job.chain what r) := by
  cases reply : chain r with
  | error fault =>
    refine .inl fun t a t' attempt => ?_
    obtain ⟨-, same | ⟨_, same⟩⟩ := (attempt_chain_iff asked).1 attempt
    · rw [reply] at same
      cases same
    · cases same
  | ok answer =>
    refine .inr ⟨answer, fun t => ⟨?_, fun result t' attempt => ?_⟩⟩
    · have world : answering chain (fun _ => false) (.chain r) t = (chain r, t) := by
        cases r with
        | head => exact absurd rfl asked
        | _ => rfl
      rw [Job.chain, ExceptT.run_mk, Dialogue.run, world, reply]
      rfl
    · obtain ⟨same, rfl | ⟨fault, rfl⟩⟩ := (attempt_chain_iff asked).1 attempt
      · rw [reply]
        exact .inl ⟨rfl, same⟩
      · exact .inr ⟨_, 0, rfl, same⟩

/-- The result of a job when all its questions are answered, if it has one. -/
def told? (chain : ChainAnswers) (job : Job α) : Option α :=
  (job.run.run (answering chain fun _ => false) Tables.empty).1.toOption

theorem told?_of_does {a : α} {writes : List StoreRequest} (does : ∀ t, Does chain job t a writes) :
    told? chain job = some a :=
  congrArg (·.1.toOption) (does .empty).completes

theorem attempt_of_told? {a : α} (told : told? chain job = some a) :
    ∃ t', AttemptAt chain job Tables.empty (.ok a) t' := by
  have run := Dialogue.runs_of_run (answering_allowed chain fun _ => false) job.run Tables.empty
  unfold told? at told
  cases result : (job.run.run (answering chain fun _ => false) Tables.empty).1 with
  | error stop =>
    rw [result] at told
    cases told
  | ok b =>
    rw [result] at told run
    cases told
    exact ⟨_, run⟩

theorem Reads.told {a : α} (reads : Reads chain job) (attempt : AttemptAt chain job t (.ok a) t') :
    told? chain job = some a := by
  obtain never | ⟨b, does⟩ := reads
  · exact absurd attempt (never _ _ _)
  · obtain ⟨rfl, -⟩ := (does t).unique attempt
    exact told?_of_does does

/-- What a job that asks nothing of the store tells has the property of all its results. -/
theorem Consults.told {holds : α → Prop} (consults : Consults job holds) {a : α}
    (told : told? chain job = some a) : holds a := by
  obtain ⟨t', attempt⟩ := attempt_of_told? told
  exact consults.completed attempt

end Reading

end Job

end StakeIndex
