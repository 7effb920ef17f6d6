import StakeIndex.Index.Follow
import StakeIndex.Proofs.ScrapeCompleteness
import StakeIndex.Proofs.SyncFrame

/-!
The world of one turn: the store, and beside it what was scraped and what was synchronised. A turn may fail at
every request. What it does to the settings is said once for each of its steps, and what it leaves as it is.
-/
namespace StakeIndex

open Dialogue Job

/-- A scrape whose logs were fetched, and the events that were stored for them by their place. -/
structure Scraped where
  range : BlockRange
  logs : List RawLog
  saved : List (Nat × ContractEvent)

/-- A synchronisation that was asked for. -/
structure SyncOrder where
  version : Version
  height : Nat
  time : Instant
deriving DecidableEq

structure TurnWorld where
  tables : Tables
  scrapes : List Scraped
  syncs : List SyncOrder

def TurnWorld.start (t : Tables) : TurnWorld := ⟨t, [], []⟩

namespace Following

section Replies

variable (i : Indexer)

/-- What a scrape returns and leaves, however its programs take turns and whenever it is called off. -/
inductive Scrapes (plan : ScrapePlan) (range : BlockRange) (w : TurnWorld) :
    Except Stop ScrapeReport → TurnWorld → Prop where
  | refused (stop : Stop) : Scrapes plan range w (.error stop) w
  | ended {logs : List RawLog} {off : Bool} {results : List (Except Stop Unit)} {u : ScrapeWorld} :
    Interleaved Scraping.Answers (plan.parts i.context logs) (.start w.tables off) results u →
    Scrapes plan range w
      ((ScrapeReport.conclude range logs.length u.delivered (lostWorkers results)).mapError .failed)
      ⟨u.tables, w.scrapes ++ [⟨range, logs, u.saved⟩], w.syncs⟩

/-- What a synchronisation returns and leaves, whether its parts take turns or one thing is read after
another. -/
inductive Syncs (call : SyncOrder) (w : TurnWorld) : Except Stop SyncSummary → TurnWorld → Prop where
  | parts {known : DelegationCache} {reply : Except Stop SyncSummary} {u : SyncWorld} :
    EpochSync.Returns AnyAnswers ⟨i.options.syncWorkers, i.options.syncBatchSize⟩ i.context call.version
      call.height call.time w.tables known reply u →
    Syncs call w reply ⟨u.tables, w.scrapes, w.syncs ++ [call]⟩
  | serial {known : DelegationCache} {reply : Except Stop SyncSummary} {u : SyncWorld} :
    Runs AnyAnswers (Part.plain (EpochSync.run i.context call.version call.height call.time)).run
      (.start w.tables known) reply u →
    Syncs call w reply ⟨u.tables, w.scrapes, w.syncs ++ [call]⟩

/-- The replies in a turn in which the chain has some head and tells of some headers. Whatever is asked may
fail. -/
def Answers (head : Nat) (told : Nat → BlockHeader → Prop) :
    (r : TurnRequest) → TurnWorld → r.Answer → TurnWorld → Prop
  | .plain (.chain .head), w, reply, w' => (∀ n, reply = .ok n → n = head) ∧ w' = w
  | .plain (.chain (.header height)), w, reply, w' => (∀ h, reply = .ok h → told height h) ∧ w' = w
  | .plain (.chain _), w, _, w' => w' = w
  | .plain (.store r), w, reply, w' =>
    reply = .ok (w.tables.perform r).1 ∧ w' = { w with tables := (w.tables.perform r).2 } ∨
      ∃ stop, reply = .error stop ∧ w' = w
  | .plain (.shared _), w, _, w' => w' = w
  | .scrape plan range _, w, reply, w' => Scrapes i plan range w reply w'
  | .sync version height time, w, reply, w' => Syncs i ⟨version, height, time⟩ w reply w'

end Replies

/-- A part of a turn that runs. -/
abbrev Does (i : Indexer) (head : Nat) (told : Nat → BlockHeader → Prop) {α : Type} (job : TurnJob α)
    (w : TurnWorld) (result : Except Stop α) (w' : TurnWorld) : Prop :=
  Runs (Answers i head told) job.run w result w'

/-- Where the indexer is: the cursor, and the store. -/
structure State where
  cursor : FollowCursor
  tables : Tables

/-- One turn: the head of the chain in it, what it returned, and what it scraped and synchronised. -/
structure Call where
  head : Nat
  before : State
  moved : Except Stop Bool
  scrapes : List Scraped
  syncs : List SyncOrder
  after : State

/-- A turn that was taken. -/
def Call.Made (i : Indexer) (told : Nat → BlockHeader → Prop) (c : Call) : Prop :=
  Runs (Answers i c.head told) (i.turn c.before.cursor) (.start c.before.tables) (c.moved, c.after.cursor)
    ⟨c.after.tables, c.scrapes, c.syncs⟩

/-- Turns one after another, each with a head of its own. -/
inductive Follows (i : Indexer) (told : Nat → BlockHeader → Prop) : State → List Call → State → Prop where
  | rest (s : State) : Follows i told s [] s
  | call {c : Call} {calls : List Call} {s : State} : c.Made i told → Follows i told c.after calls s →
    Follows i told c.before (c :: calls) s

section Frames

variable {i : Indexer} {w w' : TurnWorld}

/-- Rows of events that stand under some keys stand there still. -/
def EventsStay (t t' : Tables) : Prop :=
  ∀ key, (t.contractEvents.find? key).isSome → (t'.contractEvents.find? key).isSome

theorem isSome_eventRows (t : Tables) (key : Hash × Nat) :
    ((Scraping.eventRows t).find? key).isSome = (t.contractEvents.find? key).isSome := by
  rw [Scraping.eventRows, Table.find?_map, Option.isSome_map]

theorem isSome_withEvents (rows : Table (Hash × Nat) ContractEvent) (events : List ContractEvent)
    (key : Hash × Nat) : ((Scraping.withEvents rows events).find? key).isSome =
      ((events.any fun e => (e.txHash, e.logIndex) = key) || (rows.find? key).isSome) := by
  unfold Scraping.withEvents
  rw [Table.find?_insertAll fun e : ContractEvent => (e.txHash, e.logIndex), Option.isSome_or]
  congr 1
  rw [Bool.eq_iff_iff, List.find?_isSome, List.any_eq_true]
  simp

theorem Scrapes.frame {plan : ScrapePlan} {range : BlockRange} {reply : Except Stop ScrapeReport}
    (scrapes : Scrapes i plan range w reply w') :
    w'.tables.settings = w.tables.settings ∧ EventsStay w.tables w'.tables ∧ w'.syncs = w.syncs := by
  cases scrapes with
  | refused stop => exact ⟨rfl, fun _ => id, rfl⟩
  | ended run =>
    have stores := Scraping.stores_of_run run
    refine ⟨stores.settings, fun key stood => ?_, rfl⟩
    rw [← isSome_eventRows, stores.events, isSome_withEvents, isSome_eventRows, stood, Bool.or_true]

theorem Syncs.frame {call : SyncOrder} {reply : Except Stop SyncSummary} (syncs : Syncs i call w reply w') :
    w'.tables.settings = w.tables.settings ∧ w'.tables.contractEvents = w.tables.contractEvents ∧
      w'.scrapes = w.scrapes ∧ w'.syncs = w.syncs ++ [call] := by
  cases syncs with
  | parts returned => exact ⟨returned.untouched.settings, returned.untouched.events, rfl, rfl⟩
  | serial ran =>
    have untouched := EpochSync.run_untouched ran
    exact ⟨untouched.settings, untouched.events, rfl, rfl⟩

end Frames

end Following

end StakeIndex
