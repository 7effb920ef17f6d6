import StakeIndex.Proofs.FollowWorld
import StakeIndex.Proofs.ScrapeSequential

/-!
A turn of one step after another is one of the runs of a turn: its scrape handles one log after another, and
its synchronisation reads one thing after another.
-/
namespace StakeIndex

open Dialogue Job

/-- The store, the delegations that are kept, and whether the work is called off. -/
structure StepWorld where
  tables : Tables
  known : DelegationCache
  calledOff : Bool

namespace Following

/-- The replies to the steps of a turn. Whatever is asked of the chain or the store may fail, and the work may
be called off at any moment. -/
def StepAnswers (head : Nat) (told : Nat → BlockHeader → Prop) :
    (r : Request) → StepWorld → r.Answer → StepWorld → Prop
  | .chain .head, w, reply, w' => (∀ n, reply = .ok n → n = head) ∧ w' = w
  | .chain (.header height), w, reply, w' => (∀ h, reply = .ok h → told height h) ∧ w' = w
  | .chain _, w, _, w' => w' = w
  | .store r, w, reply, w' =>
    reply = .ok (w.tables.perform r).1 ∧ w' = { w with tables := (w.tables.perform r).2 } ∨
      ∃ stop, reply = .error stop ∧ w' = w
  | .shared .isCancelled, w, reply, w' =>
    (w.calledOff = true → reply = true) ∧ w' = { w with calledOff := reply }
  | .shared (.knownDelegation id), w, reply, w' => reply = w.known.find? id ∧ w' = w
  | .shared (.rememberDelegation d), w, _, w' => w' = { w with known := w.known.remember d }
  | .shared _, w, _, w' => w' = w

section Views

variable {head : Nat} {told : Nat → BlockHeader → Prop} {α : Type} {w w' : StepWorld}

theorem chain_answered {r : ChainRequest} {reply : Except ChainFault r.Result}
    (answered : StepAnswers head told (.chain r) w reply w') : w' = w := by
  cases r with
  | head => exact answered.2
  | header => exact answered.2
  | _ => exact answered

theorem answers_of_step {r : Request} {reply : r.Answer} (answered : StepAnswers head told r w reply w') :
    Scraping.Serial r (w.tables, w.calledOff) reply (w'.tables, w'.calledOff) := by
  cases r with
  | chain r =>
    obtain rfl := chain_answered answered
    rfl
  | store r =>
    rcases answered with ⟨rfl, rfl⟩ | ⟨stop, rfl, rfl⟩
    · exact .inl ⟨rfl, rfl⟩
    · exact .inr ⟨stop, rfl, rfl⟩
  | shared r =>
    cases r with
    | isCancelled =>
      obtain ⟨later, rfl⟩ := answered
      exact ⟨later, rfl⟩
    | knownDelegation =>
      obtain ⟨-, rfl⟩ := answered
      rfl
    | _ =>
      cases answered
      rfl

theorem serial_of_steps {d : Steps α} {a : α} (ran : Runs (StepAnswers head told) d w a w') :
    Runs Scraping.Serial d (w.tables, w.calledOff) a (w'.tables, w'.calledOff) := by
  induction ran with
  | done a w => exact .done a _
  | ask answered _ ih => exact .ask (answers_of_step answered) ih

/-- What a synchronisation of one step after another sees of the world. -/
def syncView (w : StepWorld) (written : List StoreRequest) : SyncWorld :=
  ⟨w.tables, written, w.known, 0, false⟩

theorem any_of_step {r : Request} {reply : r.Answer} (answered : StepAnswers head told r w reply w')
    (written : List StoreRequest) :
    ∃ written', AnyAnswers (.plain r) (syncView w written) reply (syncView w' written') := by
  let chain : ChainAnswers := fun _ => .error .silent
  cases r with
  | chain r =>
    obtain rfl := chain_answered answered
    exact ⟨written, .inl ⟨⟨r, rfl⟩, rfl⟩⟩
  | store r =>
    rcases answered with ⟨rfl, rfl⟩ | ⟨stop, rfl, rfl⟩
    · exact ⟨_, .inr ⟨chain, .inl ⟨rfl, rfl⟩⟩⟩
    · exact ⟨written, .inr ⟨chain, .inr ⟨stop, rfl, rfl⟩⟩⟩
  | shared r =>
    cases r with
    | knownDelegation =>
      obtain ⟨rfl, rfl⟩ := answered
      exact ⟨written, .inr ⟨chain, rfl, rfl⟩⟩
    | isCancelled =>
      obtain ⟨-, rfl⟩ := answered
      exact ⟨written, .inr ⟨chain, rfl⟩⟩
    | _ =>
      cases answered
      exact ⟨written, .inr ⟨chain, rfl⟩⟩

theorem any_of_steps {d : Steps α} {a : α} (ran : Runs (StepAnswers head told) d w a w')
    (written : List StoreRequest) :
    ∃ written', Runs AnyAnswers (d.mapRequests fun r => .request (.plain r)) (syncView w written) a
      (syncView w' written') := by
  induction ran generalizing written with
  | done a w => exact ⟨written, .done a _⟩
  | ask answered _ ih =>
    obtain ⟨written', answered'⟩ := any_of_step answered written
    obtain ⟨written'', rest⟩ := ih written'
    exact ⟨written'', .ask answered' rest⟩

end Views

section Turns

variable {i : Indexer} {head : Nat} {told : Nat → BlockHeader → Prop} {α : Type} {w w' : StepWorld}

/-- What a turn sees of the world. -/
def turnView (w : StepWorld) (scrapes : List Scraped) (syncs : List SyncOrder) : TurnWorld :=
  ⟨w.tables, scrapes, syncs⟩

theorem logs_asked {range : BlockRange} {addresses : List Address} {result : Except Stop (List RawLog)}
    (asked : Runs (StepAnswers head told) (Job.logs range.first range.last addresses).run w result w') :
    w' = w := by
  cases asked with
  | @ask _ _ _ _ _ reply _ answered rest =>
    cases reply <;>
    · cases rest
      exact answered

theorem lifted {σ : Type} {allows : (r : Request) → σ → r.Answer → σ → Prop} {s s' : σ}
    {value : Except Failure α} {result : Except Stop α}
    (ran : Runs allows (Job.lift value).run s result s') : result = value.mapError .failed ∧ s' = s := by
  cases value <;>
  · cases ran
    exact ⟨rfl, rfl⟩

theorem scrape_of_steps {plan : ScrapePlan} {range : BlockRange} {addresses : List Address}
    {reply : Except Stop ScrapeReport} (scrapes : List Scraped) (syncs : List SyncOrder)
    (ran : Runs (StepAnswers head told) (plan.scrape i.context range addresses).outcome w reply w') :
    ∃ scrapes', Scrapes i plan range (turnView w scrapes syncs) reply (turnView w' scrapes' syncs) := by
  unfold ScrapePlan.scrape Job.outcome at ran
  obtain ⟨stop, asked, rfl⟩ | ⟨logs, w₁, asked, handled⟩ := runs_except_iff.1 ran
  · obtain rfl := logs_asked asked
    exact ⟨scrapes, .refused stop⟩
  obtain rfl := logs_asked asked
  obtain ⟨stop, handling, rfl⟩ | ⟨⟨outputs, lost⟩, w₂, handling, concluded⟩ := runs_except_iff.1 handled
  · obtain ⟨pair, w₃, -, wrong⟩ := runs_bind_iff.1 handling
    cases wrong
  obtain ⟨pair, w₃, handling, same⟩ := runs_bind_iff.1 handling
  cases same
  obtain ⟨results, u, run, delivered, counted, tables, -⟩ :=
    Scraping.interleaved_of_scrape (serial_of_steps handling)
  have ended : Scrapes i plan range (turnView w₁ scrapes syncs)
      ((ScrapeReport.conclude range logs.length u.delivered (lostWorkers results)).mapError .failed)
      ⟨u.tables, scrapes ++ [⟨range, logs, u.saved⟩], syncs⟩ := .ended run
  rw [delivered, counted, tables] at ended
  obtain ⟨rfl, rfl⟩ := lifted concluded
  exact ⟨_, ended⟩

theorem sync_of_steps {version : Version} {height : Nat} {time : Instant} {reply : Except Stop SyncSummary}
    (scrapes : List Scraped) (syncs : List SyncOrder)
    (ran : Runs (StepAnswers head told) (EpochSync.run i.context version height time).outcome w reply w') :
    Syncs i ⟨version, height, time⟩ (turnView w scrapes syncs) reply
      (turnView w' scrapes (syncs ++ [⟨version, height, time⟩])) := by
  obtain ⟨written, run⟩ := any_of_steps ran []
  exact @Syncs.serial i ⟨version, height, time⟩ (turnView w scrapes syncs) w.known reply
    (syncView w' written) run

theorem plain_of_step {r : Request} {reply : r.Answer} (scrapes : List Scraped) (syncs : List SyncOrder)
    (answered : StepAnswers head told r w reply w') :
    Answers i head told (.plain r) (turnView w scrapes syncs) reply (turnView w' scrapes syncs) := by
  cases r with
  | chain r =>
    cases r with
    | head =>
      obtain ⟨same, rfl⟩ := answered
      exact ⟨same, rfl⟩
    | header =>
      obtain ⟨tells, rfl⟩ := answered
      exact ⟨tells, rfl⟩
    | _ =>
      cases answered
      rfl
  | store r =>
    rcases answered with ⟨rfl, rfl⟩ | ⟨stop, rfl, rfl⟩
    · exact .inl ⟨rfl, rfl⟩
    · exact .inr ⟨stop, rfl, rfl⟩
  | shared r =>
    cases r with
    | isCancelled =>
      obtain ⟨-, rfl⟩ := answered
      rfl
    | knownDelegation =>
      obtain ⟨-, rfl⟩ := answered
      rfl
    | _ =>
      cases answered
      rfl

theorem meets {r : TurnRequest} {reply : r.Answer} (scrapes : List Scraped) (syncs : List SyncOrder)
    (ran : Runs (StepAnswers head told) (i.meet r) w reply w') :
    ∃ scrapes' syncs', Answers i head told r (turnView w scrapes syncs) reply
      (turnView w' scrapes' syncs') := by
  cases r with
  | plain r =>
    cases ran with
    | ask answered rest =>
      cases rest
      exact ⟨scrapes, syncs, plain_of_step scrapes syncs answered⟩
  | scrape plan range addresses =>
    obtain ⟨scrapes', ended⟩ := scrape_of_steps scrapes syncs ran
    exact ⟨scrapes', syncs, ended⟩
  | sync version height time => exact ⟨scrapes, _, sync_of_steps scrapes syncs ran⟩

theorem runs_of_steps {d : TurnSteps α} {a : α} (scrapes : List Scraped) (syncs : List SyncOrder)
    (ran : Runs (StepAnswers head told) (d.mapRequests i.meet) w a w') :
    ∃ scrapes' syncs', Runs (Answers i head told) d (turnView w scrapes syncs) a
      (turnView w' scrapes' syncs') := by
  induction d generalizing w scrapes syncs with
  | done b =>
    cases ran
    exact ⟨scrapes, syncs, .done a _⟩
  | ask r next ih =>
    obtain ⟨reply, w₁, met, rest⟩ := runs_bind_iff.1 ran
    obtain ⟨scrapes₁, syncs₁, answered⟩ := meets scrapes syncs met
    obtain ⟨scrapes', syncs', later⟩ := ih reply scrapes₁ syncs₁ rest
    exact ⟨scrapes', syncs', .ask answered later⟩

/-- A turn of one step after another was taken. -/
theorem made_of_steps {cursor cursor' : FollowCursor} {moved : Except Stop Bool}
    (ran : Runs (StepAnswers head told) (i.advance cursor) w (moved, cursor') w') :
    ∃ scrapes syncs, Call.Made i told
      ⟨head, ⟨cursor, w.tables⟩, moved, scrapes, syncs, ⟨cursor', w'.tables⟩⟩ := by
  obtain ⟨scrapes, syncs, run⟩ := runs_of_steps [] [] ran
  exact ⟨scrapes, syncs, run⟩

end Turns

/-- The headers that a chain tells of. -/
def ToldBy (chain : ChainAnswers) (height : Nat) (h : BlockHeader) : Prop := chain (.header height) = .ok h

/-- A world whose chain has some head and answers, and whose store refuses some requests. -/
def stepping (head : Nat) (chain : ChainAnswers) (refused : StoreRequest → Bool) :
    (r : Request) → StepWorld → r.Answer × StepWorld
  | .chain .head, w => (.ok head, w)
  | .chain r, w => (chain r, w)
  | .store r, w =>
    if refused r then (.error (.failed .poolTimedOut), w)
    else (.ok (w.tables.perform r).1, { w with tables := (w.tables.perform r).2 })
  | .shared .isCancelled, w => (w.calledOff, w)
  | .shared (.knownDelegation id), w => (w.known.find? id, w)
  | .shared (.rememberDelegation d), w => ((), { w with known := w.known.remember d })
  | .shared r, w => ((answering chain (fun _ => false) (.shared r) w.tables).1, w)

theorem stepping_answers (head : Nat) (chain : ChainAnswers) (refused : StoreRequest → Bool) (r : Request)
    (w : StepWorld) : StepAnswers head (ToldBy chain) r w (stepping head chain refused r w).1
      (stepping head chain refused r w).2 := by
  cases r with
  | chain r =>
    cases r with
    | head => exact ⟨fun n same => (Except.ok.inj same).symm, rfl⟩
    | header height => exact ⟨fun h same => same, rfl⟩
    | _ => rfl
  | store r =>
    simp only [StepAnswers, stepping]
    split
    · exact .inr ⟨_, rfl, rfl⟩
    · exact .inl ⟨rfl, rfl⟩
  | shared r =>
    cases r with
    | isCancelled => exact ⟨id, rfl⟩
    | knownDelegation => exact ⟨rfl, rfl⟩
    | _ => rfl

/-- A turn in which the chain has some head and the store refuses some requests. -/
structure Occasion where
  head : Nat
  refused : StoreRequest → Bool

/-- What a turn returns and leaves. -/
def Occasion.take (i : Indexer) (chain : ChainAnswers) (o : Occasion) (s : State) :
    Except Stop Bool × State :=
  let finish := (i.advance s.cursor).run (stepping o.head chain o.refused) ⟨s.tables, .empty, false⟩
  (finish.1.1, ⟨finish.1.2, finish.2.tables⟩)

theorem Occasion.made (i : Indexer) (chain : ChainAnswers) (o : Occasion) (s : State) :
    ∃ scrapes syncs, Call.Made i (ToldBy chain)
      ⟨o.head, s, (o.take i chain s).1, scrapes, syncs, (o.take i chain s).2⟩ :=
  made_of_steps (runs_of_run (stepping_answers o.head chain o.refused) (i.advance s.cursor)
    ⟨s.tables, .empty, false⟩)

/-- What turns return one after another, and what they leave. -/
def takeAll (i : Indexer) (chain : ChainAnswers) : List Occasion → State → List (Except Stop Bool) × State
  | [], s => ([], s)
  | o :: rest, s =>
    let (moved, s) := o.take i chain s
    let (others, s) := takeAll i chain rest s
    (moved :: others, s)

theorem follows_of_takeAll (i : Indexer) (chain : ChainAnswers) (occasions : List Occasion) (s : State) :
    ∃ calls, Follows i (ToldBy chain) s calls (takeAll i chain occasions s).2 ∧
      calls.map (·.moved) = (takeAll i chain occasions s).1 ∧
      calls.map (·.head) = occasions.map (·.head) := by
  induction occasions generalizing s with
  | nil => exact ⟨[], .rest s, rfl, rfl⟩
  | cons o rest ih =>
    obtain ⟨scrapes, syncs, made⟩ := o.made i chain s
    obtain ⟨calls, follows, moved, heads⟩ := ih (o.take i chain s).2
    exact ⟨_, .call made follows, congrArg (_ :: ·) moved, congrArg (o.head :: ·) heads⟩

end Following

end StakeIndex
