import StakeIndex.Proofs.FollowWorld

/-!
What a turn can do, step by step. Only the roll of the month and the checkpoint change settings, each of them
one; whatever stops a turn early leaves the checkpoint where it was.
-/
namespace StakeIndex.Following

open Dialogue Job

section Parts

variable {i : Indexer} {head : Nat} {told : Nat → BlockHeader → Prop} {w w' : TurnWorld} {α β : Type}

theorem does_bind_iff {job : TurnJob α} {f : α → TurnJob β} {result : Except Stop β} :
    Does i head told (job >>= f) w result w' ↔
      (∃ stop, Does i head told job w (.error stop) w' ∧ result = .error stop) ∨
      ∃ a w₁, Does i head told job w (.ok a) w₁ ∧ Does i head told (f a) w₁ result w' :=
  runs_except_iff

theorem plain_bind (job : Job α) (f : α → Job β) :
    TurnJob.plain (job >>= f) = TurnJob.plain job >>= fun a => TurnJob.plain (f a) := by
  have unfold_bind : (job >>= f).run = job.run >>= ExceptT.bindCont fun a => f a := rfl
  unfold TurnJob.plain
  rw [unfold_bind, mapRequests_bind]
  refine congrArg (job.run.mapRequests _ >>= ·) (funext fun result => ?_)
  cases result <;> rfl

theorem does_head {result : Except Stop Nat} (did : Does i head told (TurnJob.plain Job.head) w result w') :
    w' = w ∧ ∀ n, result = .ok n → n = head := by
  cases did with
  | @ask _ _ _ _ _ reply _ answered rest =>
    obtain ⟨same, rfl⟩ := answered
    cases rest
    refine ⟨rfl, fun n well => same n ?_⟩
    cases reply with
    | error fault => cases well
    | ok m =>
      cases well
      rfl

theorem does_header {height : Nat} {result : Except Stop BlockHeader}
    (did : Does i head told (TurnJob.plain (Job.header height)) w result w') :
    w' = w ∧ ∀ h, result = .ok h → told height h := by
  cases did with
  | @ask _ _ _ _ _ reply _ answered rest =>
    obtain ⟨tells, rfl⟩ := answered
    cases rest
    refine ⟨rfl, fun h well => tells h ?_⟩
    cases reply with
    | error fault => cases well
    | ok m =>
      cases well
      rfl

/-- The world after a setting was changed. -/
def put (w : TurnWorld) (key value : String) : TurnWorld :=
  { w with tables := { w.tables with settings := w.tables.settings.insert key value } }

theorem does_set {key value : String} {result : Except Stop Unit}
    (did : Does i head told (TurnJob.plain (.store (.setSetting key value))) w result w') :
    result = .ok () ∧ w' = put w key value ∨ ∃ stop, result = .error stop ∧ w' = w := by
  cases did with
  | ask answered rest =>
    rcases answered with ⟨rfl, rfl⟩ | ⟨stop, rfl, rfl⟩
    · cases rest
      exact .inl ⟨rfl, rfl⟩
    · cases rest
      exact .inr ⟨stop, rfl, rfl⟩

theorem does_lift {value : Except Failure α} {result : Except Stop α}
    (did : Does i head told (TurnJob.plain (.lift value)) w result w') :
    w' = w ∧ ∀ a, result = .ok a → value = .ok a := by
  cases value with
  | ok a =>
    cases did
    refine ⟨rfl, fun b well => ?_⟩
    cases well
    rfl
  | error failure =>
    cases did
    exact ⟨rfl, fun _ wrong => (nomatch wrong)⟩

theorem does_scrape {plan : ScrapePlan} {range : BlockRange} {addresses : List Address}
    {result : Except Stop ScrapeReport} (did : Does i head told (.scrape plan range addresses) w result w') :
    Scrapes i plan range w result w' := by
  cases did with
  | ask answered rest =>
    cases rest
    exact answered

theorem does_sync {version : Version} {height : Nat} {time : Instant} {result : Except Stop SyncSummary}
    (did : Does i head told (.sync version height time) w result w') :
    Syncs i ⟨version, height, time⟩ w result w' := by
  cases did with
  | ask answered rest =>
    cases rest
    exact answered

theorem does_firstBlockAfter {month : String} {fuel low high : Nat} {result : Except Stop BlockHeader}
    (did : Does i head told (TurnJob.plain (Indexer.firstBlockAfter month fuel low high)) w result w') :
    w' = w := by
  induction fuel generalizing low high with
  | zero => exact (does_header did).1
  | succ fuel ih =>
    unfold Indexer.firstBlockAfter at did
    split at did
    · rw [plain_bind, does_bind_iff] at did
      obtain ⟨stop, asked, -⟩ | ⟨h, w₁, asked, did⟩ := did
      · exact (does_header asked).1
      · obtain ⟨rfl, -⟩ := does_header asked
        split at did
        · exact ih did
        · exact ih did
    · exact (does_header did).1

end Parts

/-- Nothing that a turn keeps has been lost: the settings are the same, and events stay. -/
structure Kept (w w' : TurnWorld) : Prop where
  settings : w'.tables.settings = w.tables.settings
  events : EventsStay w.tables w'.tables

theorem kept_refl (w : TurnWorld) : Kept w w := ⟨rfl, fun _ => id⟩

theorem Kept.trans {w w₁ w' : TurnWorld} (first : Kept w w₁) (second : Kept w₁ w') : Kept w w' :=
  ⟨second.settings.trans first.settings, fun key stood => second.events key (first.events key stood)⟩

theorem Scrapes.kept {i : Indexer} {plan : ScrapePlan} {range : BlockRange} {w w' : TurnWorld}
    {reply : Except Stop ScrapeReport} (scrapes : Scrapes i plan range w reply w') : Kept w w' :=
  ⟨scrapes.frame.1, scrapes.frame.2.1⟩

theorem Syncs.kept {i : Indexer} {call : SyncOrder} {w w' : TurnWorld} {reply : Except Stop SyncSummary}
    (syncs : Syncs i call w reply w') : Kept w w' := by
  obtain ⟨settings, events, -⟩ := syncs.frame
  refine ⟨settings, fun key stood => ?_⟩
  rwa [events]

section Rolls

variable (i : Indexer) (head : Nat) (told : Nat → BlockHeader → Prop) (cursor : FollowCursor)
  (first last : Nat) (w : TurnWorld)

/-- How the month rolls: it stops early with the settings as they were, or the first month begins, or the month
stays, or a later month begins, with a synchronisation at its first block. -/
inductive Rolls : Except Stop FollowCursor → TurnWorld → Prop where
  | stopped {stop : Stop} {w' : TurnWorld} : Kept w w' → Rolls (.error stop) w'
  | began {h : BlockHeader} : told last h → cursor.epoch = none →
    Rolls (.ok { cursor with epoch := some h.time.monthText }) (put w lastSyncedEpoch h.time.monthText)
  | stayed {h : BlockHeader} {previous : String} : told last h → cursor.epoch = some previous →
    h.time.monthText ≤ previous → Rolls (.ok cursor) w
  | rolled {h boundary : BlockHeader} {previous : String} {version : Version} {summary : SyncSummary}
    {w₁ : TurnWorld} : told last h → cursor.epoch = some previous → previous < h.time.monthText →
    Does i head told (TurnJob.plain (Indexer.firstBlockAfter previous (last - first) first last)) w
      (.ok boundary) w →
    i.syncVersion = .ok version → Syncs i ⟨version, boundary.number, boundary.time⟩ w (.ok summary) w₁ →
    Rolls (.ok { cursor with epoch := some h.time.monthText }) (put w₁ lastSyncedEpoch h.time.monthText)

variable {i head told cursor first last w} {w' : TurnWorld} {result : Except Stop FollowCursor}

theorem rolls (did : Does i head told (i.rollEpoch cursor first last) w result w') :
    Rolls i head told cursor first last w result w' := by
  unfold Indexer.rollEpoch at did
  obtain ⟨stop, asked, rfl⟩ | ⟨h, w₁, asked, dated⟩ := does_bind_iff.1 did
  · obtain ⟨rfl, -⟩ := does_header asked
    exact .stopped (kept_refl _)
  clear did
  obtain ⟨rfl, tells⟩ := does_header asked
  have tells := tells h rfl
  dsimp only at dated
  split at dated
  next epoch =>
    obtain ⟨stop, stored, rfl⟩ | ⟨_, w₂, stored, ended⟩ := does_bind_iff.1 dated
    · obtain ⟨wrong, -⟩ | ⟨_, -, rfl⟩ := does_set stored
      · cases wrong
      · exact .stopped (kept_refl _)
    · obtain ⟨-, rfl⟩ | ⟨_, wrong, -⟩ := does_set stored
      · cases ended
        exact .began tells epoch
      · cases wrong
  next previous epoch =>
    split at dated
    next low =>
      cases dated
      exact .stayed tells epoch low
    next high =>
      have later : previous < h.time.monthText := String.not_le.1 high
      obtain ⟨stop, searched, rfl⟩ | ⟨boundary, w₂, searched, begun⟩ := does_bind_iff.1 dated
      · obtain rfl := does_firstBlockAfter searched
        exact .stopped (kept_refl _)
      obtain rfl := does_firstBlockAfter searched
      obtain ⟨stop, looked, rfl⟩ | ⟨version, w₃, looked, versioned⟩ := does_bind_iff.1 begun
      · obtain ⟨rfl, -⟩ := does_lift looked
        exact .stopped (kept_refl _)
      obtain ⟨rfl, found⟩ := does_lift looked
      obtain ⟨stop, synced, rfl⟩ | ⟨summary, w₄, synced, written⟩ := does_bind_iff.1 versioned
      · exact .stopped (does_sync synced).kept
      have syncs := does_sync synced
      obtain ⟨stop, stored, rfl⟩ | ⟨_, w₅, stored, ended⟩ := does_bind_iff.1 written
      · obtain ⟨wrong, -⟩ | ⟨_, -, rfl⟩ := does_set stored
        · cases wrong
        · exact .stopped syncs.kept
      · obtain ⟨-, rfl⟩ | ⟨_, wrong, -⟩ := does_set stored
        · cases ended
          exact .rolled tells epoch later searched (found version rfl) syncs
        · cases wrong

end Rolls

section Turns

variable (i : Indexer) (head : Nat) (told : Nat → BlockHeader → Prop) (cursor : FollowCursor)
  (w : TurnWorld)

/-- How a batch goes: it stops early with the settings as they were, or there is nothing to do or the work is
called off, or all logs up to the end of the batch were handled and the month is rolled. -/
inductive Batches : Except Stop (Option (FollowCursor × Nat)) → TurnWorld → Prop where
  | stopped {stop : Stop} {w' : TurnWorld} : Kept w w' → Batches (.error stop) w'
  | waits {w' : TurnWorld} : Kept w w' → w'.syncs = w.syncs → Batches (.ok none) w'
  | done {report : ScrapeReport} {rolled : FollowCursor} {w₁ w' : TurnWorld} : cursor.nextBlock ≤ head →
    Scrapes i ⟨i.options.scrapeWorkers, true⟩ ⟨cursor.nextBlock, i.nextBatchEnd cursor.nextBlock head⟩ w
      (.ok report) w₁ →
    report.cancelled = false → report.failures = [] →
    Rolls i head told cursor cursor.nextBlock (i.nextBatchEnd cursor.nextBlock head) w₁ (.ok rolled) w' →
    Batches (.ok (some (rolled, i.nextBatchEnd cursor.nextBlock head))) w'

/-- How a turn goes: it stops early or does nothing with the settings as they were, or it completes a batch and
fails to move the checkpoint, or it moves the checkpoint behind the batch. Behind the last height it can only
fail. -/
inductive Advances : Except Stop Bool → FollowCursor → TurnWorld → Prop where
  | stopped {stop : Stop} {w' : TurnWorld} : Kept w w' → Advances (.error stop) cursor w'
  | waits {w' : TurnWorld} : Kept w w' → w'.syncs = w.syncs → Advances (.ok false) cursor w'
  | unmarked {stop : Stop} {rolled : FollowCursor} {last : Nat} {w₁ w' : TurnWorld} :
    Batches i head told cursor w (.ok (some (rolled, last))) w₁ → (last < topHeight → w' = w₁) →
    Advances (.error stop) rolled w'
  | moved {rolled : FollowCursor} {last : Nat} {w' : TurnWorld} :
    Batches i head told cursor w (.ok (some (rolled, last))) w' →
    Advances (.ok true) { rolled with nextBlock := last + 1 } (put w' lastIndexedBlock (toString last))

variable {i head told cursor w} {w' : TurnWorld}

theorem Rolls.kept {first last : Nat} {stop : Stop}
    (rolled : Rolls i head told cursor first last w (.error stop) w') : Kept w w' := by
  cases rolled with
  | stopped kept => exact kept

theorem batches {result : Except Stop (Option (FollowCursor × Nat))}
    (did : Does i head told (i.nextBatch cursor) w result w') : Batches i head told cursor w result w' := by
  unfold Indexer.nextBatch at did
  obtain ⟨stop, asked, rfl⟩ | ⟨n, w₁, asked, begun⟩ := does_bind_iff.1 did
  · obtain ⟨rfl, -⟩ := does_head asked
    exact .stopped (kept_refl _)
  clear did
  obtain ⟨rfl, same⟩ := does_head asked
  obtain rfl := same n rfl
  dsimp only at begun
  split at begun
  next =>
    cases begun
    exact .waits (kept_refl _) rfl
  next reached =>
    have reached : cursor.nextBlock ≤ n := Nat.le_of_not_lt reached
    obtain ⟨stop, scraped, rfl⟩ | ⟨report, w₂, scraped, reported⟩ := does_bind_iff.1 begun
    · exact .stopped (does_scrape scraped).kept
    have scrapes := does_scrape scraped
    split at reported
    next =>
      cases reported
      exact .waits scrapes.kept scrapes.frame.2.2
    next going =>
      have going : report.cancelled = false := by simpa using going
      split at reported
      next clean =>
        obtain ⟨stop, rolled, rfl⟩ | ⟨cursor', w₃, rolled, ended⟩ := does_bind_iff.1 reported
        · exact .stopped (scrapes.kept.trans (rolls rolled).kept)
        · cases ended
          exact .done reached scrapes going clean (rolls rolled)
      next =>
        cases reported
        exact .stopped scrapes.kept

theorem nextBatchEnd_le (i : Indexer) (first head : Nat) : i.nextBatchEnd first head ≤ head :=
  Nat.min_le_right _ _

theorem Batches.last {rolled : FollowCursor} {last : Nat}
    (done : Batches i head told cursor w (.ok (some (rolled, last))) w') :
    last = i.nextBatchEnd cursor.nextBlock head := by
  cases done
  rfl

/-- The checkpoint is moved, or refused. Behind the last height there is no next block. -/
theorem does_checkpoint {last : Nat} {result : Except Stop Nat}
    (did : Does i head told (TurnJob.plain (Indexer.checkpoint last)) w result w') :
    result = .ok (last + 1) ∧ w' = put w lastIndexedBlock (toString last) ∨
      ∃ stop, result = .error stop ∧ (last < topHeight → w' = w) := by
  unfold Indexer.checkpoint at did
  rw [plain_bind, does_bind_iff] at did
  obtain ⟨stop, stored, rfl⟩ | ⟨_, w₁, stored, ended⟩ := did
  · obtain ⟨wrong, -⟩ | ⟨_, -, rfl⟩ := does_set stored
    · cases wrong
    · exact .inr ⟨stop, rfl, fun _ => rfl⟩
  · obtain ⟨-, rfl⟩ | ⟨_, wrong, -⟩ := does_set stored
    · unfold Job.nextHeight at ended
      split at ended
      next =>
        cases ended
        exact .inl ⟨rfl, rfl⟩
      next high =>
        cases ended
        exact .inr ⟨_, rfl, fun low => absurd low high⟩
    · cases wrong

theorem advances {moved : Except Stop Bool} {cursor' : FollowCursor}
    (ran : Runs (Answers i head told) (i.turn cursor) w (moved, cursor') w') :
    Advances i head told cursor w moved cursor' w' := by
  unfold Indexer.turn at ran
  obtain ⟨result, w₁, did, ended⟩ := runs_bind_iff.1 ran
  have done := batches did
  rcases result with stop | _ | ⟨rolled, last⟩
  · cases ended
    cases done with
    | stopped kept => exact .stopped kept
  · cases ended
    cases done with
    | waits kept same => exact .waits kept same
  · obtain ⟨marked, w₂, marking, answered⟩ := runs_bind_iff.1 ended
    obtain ⟨rfl, rfl⟩ | ⟨stop, rfl, same⟩ := does_checkpoint marking
    · cases answered
      exact .moved done
    · cases answered
      exact .unmarked done same

end Turns

end StakeIndex.Following
