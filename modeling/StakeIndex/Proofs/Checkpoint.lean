import StakeIndex.Proofs.Numerals
import StakeIndex.Proofs.TurnSequential
import StakeIndex.Proofs.Turns

/-!
Turn after turn on a cursor that was restored from the checkpoint. No block is passed over and none is taken
twice, whatever fails on the way, because the cursor and the checkpoint move together or not at all.
-/
namespace StakeIndex.Following

open Dialogue Job

section Scrapes

variable {i : Indexer} {plan : ScrapePlan} {range : BlockRange} {w w' : TurnWorld} {report : ScrapeReport}

/-- Every log of a scrape came to an event that was stored for it and stands in some tables. -/
def AllStored (scraped : Scraped) (t : Tables) : Prop :=
  ∀ order log, scraped.logs[order]? = some log → ∃ e, (order, e) ∈ scraped.saved ∧ e.IsOf log ∧
    (t.contractEvents.find? (log.txHash, log.logIndex)).isSome

theorem AllStored.mono {scraped : Scraped} {t t' : Tables} (stored : AllStored scraped t)
    (stay : EventsStay t t') : AllStored scraped t' := by
  intro order log there
  obtain ⟨e, saved, of, stands⟩ := stored order log there
  exact ⟨e, saved, of, stay _ stands⟩

theorem lost_of_conclude {total lost : Nat} {outputs : List ScrapeOutput}
    (concluded : ScrapeReport.conclude range total outputs lost = .ok report) : lost = 0 ∧
      report = ⟨range, outputs.mergeSort ScrapeOutput.notAfter, total, decide (outputs.length < total)⟩ := by
  unfold ScrapeReport.conclude at concluded
  split at concluded
  next => cases concluded
  next none =>
    cases concluded
    exact ⟨Nat.eq_zero_of_not_pos none, rfl⟩

/-- A report without failures on a scrape that was not called off is about logs that are all stored. -/
theorem Scrapes.stored (scrapes : Scrapes i plan range w (.ok report) w')
    (going : report.cancelled = false) (clean : report.failures = []) :
    ∃ scraped, w'.scrapes = w.scrapes ++ [scraped] ∧ scraped.range = range ∧
      AllStored scraped w'.tables := by
  generalize same : Except.ok report = reply at scrapes
  cases scrapes with
  | refused => cases same
  | @ended logs off results u run =>
    refine ⟨⟨range, logs, u.saved⟩, rfl, rfl, ?_⟩
    cases concluded : ScrapeReport.conclude range logs.length u.delivered (lostWorkers results) with
    | error failure =>
      rw [concluded] at same
      cases same
    | ok concludedReport =>
      rw [concluded] at same
      cases same
      obtain ⟨none, rfl⟩ := lost_of_conclude concluded
      have ended := Scraping.ended_of_run run none
      have well : ∀ output ∈ u.delivered, output.result.isOk := by
        intro output member
        have among := (List.mergeSort_perm u.delivered ScrapeOutput.notAfter).mem_iff.2 member
        exact (Scraping.failures_isEmpty_iff _).1 (by rw [clean]; rfl) output among
      have all : u.delivered.length = logs.length := by
        have few := ended.length_le
        simp only [decide_eq_false_iff_not] at going
        omega
      intro order log there
      obtain ⟨inside, -⟩ := List.getElem?_eq_some_iff.1 there
      obtain ⟨e, saved⟩ := ended.all_saved_iff.2 ⟨all, well⟩ order inside
      obtain ⟨output, member, rfl, result⟩ := ended.mem_saved.1 saved
      have own := ended.own member
      rw [there] at own
      have of : e.IsOf log := by
        have sound := ended.sound output member e result
        rwa [← Option.some.inj own] at sound
      refine ⟨e, saved, of, ?_⟩
      rw [← isSome_eventRows, ended.stores.events, isSome_withEvents, Bool.or_eq_true, List.any_eq_true]
      refine .inl ⟨e.unnumbered, List.mem_map_of_mem saved, ?_⟩
      exact decide_eq_true (Prod.ext of.txHash of.logIndex)

end Scrapes

section Steps

variable {i : Indexer} {head : Nat} {told : Nat → BlockHeader → Prop} {cursor : FollowCursor}
  {w w' : TurnWorld}

/-- What a turn does not do: it leaves the checkpoint, and events stay. -/
structure Unmoved (w w' : TurnWorld) : Prop where
  checkpoint : w'.tables.settings.find? lastIndexedBlock = w.tables.settings.find? lastIndexedBlock
  events : EventsStay w.tables w'.tables

theorem Kept.unmoved (kept : Kept w w') : Unmoved w w' := ⟨by rw [kept.settings], kept.events⟩

theorem Unmoved.trans {w₁ : TurnWorld} (first : Unmoved w w₁) (second : Unmoved w₁ w') : Unmoved w w' :=
  ⟨second.checkpoint.trans first.checkpoint, fun key stood => second.events key (first.events key stood)⟩

theorem put_month_unmoved (w : TurnWorld) (month : String) : Unmoved w (put w lastSyncedEpoch month) :=
  ⟨Table.find?_insert_ne _ _ (by decide), fun _ => id⟩

/-- The month of the cursor is the stored one. -/
def Dated (cursor : FollowCursor) (w : TurnWorld) : Prop :=
  cursor.epoch = w.tables.settings.find? lastSyncedEpoch

theorem put_month_dated (cursor : FollowCursor) (w : TurnWorld) (month : String) :
    Dated { cursor with epoch := some month } (put w lastSyncedEpoch month) :=
  (Table.find?_insert_self ..).symm

theorem Kept.dated (kept : Kept w w') (dated : Dated cursor w) : Dated cursor w' := by
  unfold Dated
  rw [kept.settings]
  exact dated

/-- The month rolls in the cursor and in the store together, and nothing else moves. -/
theorem Rolls.settles {first last : Nat} {rolled : FollowCursor}
    (rolls : Rolls i head told cursor first last w (.ok rolled) w') :
    rolled.nextBlock = cursor.nextBlock ∧ w'.scrapes = w.scrapes ∧ Unmoved w w' ∧
      (Dated cursor w → Dated rolled w') := by
  cases rolls with
  | began => exact ⟨rfl, rfl, put_month_unmoved .., fun _ => put_month_dated ..⟩
  | stayed => exact ⟨rfl, rfl, (kept_refl _).unmoved, id⟩
  | rolled _ _ _ _ _ syncs =>
    obtain ⟨-, -, scrapes, -⟩ := syncs.frame
    exact ⟨rfl, scrapes, syncs.kept.unmoved.trans (put_month_unmoved ..), fun _ => put_month_dated ..⟩

/-- A batch that is completed is one scrape whose logs are all stored. -/
theorem Batches.settles {rolled : FollowCursor} {last : Nat}
    (done : Batches i head told cursor w (.ok (some (rolled, last))) w') :
    rolled.nextBlock = cursor.nextBlock ∧ Unmoved w w' ∧ (Dated cursor w → Dated rolled w') ∧
      cursor.nextBlock ≤ head ∧ last = i.nextBatchEnd cursor.nextBlock head ∧
      ∃ scraped, w'.scrapes = w.scrapes ++ [scraped] ∧ scraped.range = ⟨cursor.nextBlock, last⟩ ∧
        AllStored scraped w'.tables := by
  cases done with
  | done reached scrapes going clean rolls =>
    obtain ⟨same, kept, unmoved, dated⟩ := rolls.settles
    obtain ⟨scraped, recorded, range, stored⟩ := scrapes.stored going clean
    refine ⟨same, scrapes.kept.unmoved.trans unmoved, fun before => dated (scrapes.kept.dated before),
      reached, rfl, scraped, kept.trans recorded, range, stored.mono unmoved.events⟩

end Steps

section Ends

variable {i : Indexer} {head : Nat} {told : Nat → BlockHeader → Prop} {cursor cursor' : FollowCursor}
  {w w' : TurnWorld}

/-- After a turn that did not advance, the next block and the checkpoint are as they were. -/
theorem Advances.idle {moved : Except Stop Bool} (advances : Advances i head told cursor w moved cursor' w')
    (low : head < topHeight) (idle : moved ≠ .ok true) :
    cursor'.nextBlock = cursor.nextBlock ∧ Unmoved w w' ∧ (Dated cursor w → Dated cursor' w') := by
  cases advances with
  | stopped kept => exact ⟨rfl, kept.unmoved, kept.dated⟩
  | waits kept _ => exact ⟨rfl, kept.unmoved, kept.dated⟩
  | unmarked done unchanged =>
    obtain rfl := unchanged (by
      rw [done.last]
      exact Nat.lt_of_le_of_lt (nextBatchEnd_le ..) low)
    obtain ⟨same, unmoved, dated, -⟩ := done.settles
    exact ⟨same, unmoved, dated⟩
  | moved => exact absurd rfl idle

/-- After a turn that advanced, the checkpoint is the last block of a batch that was completed. -/
theorem Advances.done (advances : Advances i head told cursor w (.ok true) cursor' w') :
    ∃ last scraped, cursor'.nextBlock = last + 1 ∧ cursor.nextBlock ≤ head ∧
      last = i.nextBatchEnd cursor.nextBlock head ∧ w'.scrapes = w.scrapes ++ [scraped] ∧
      scraped.range = ⟨cursor.nextBlock, last⟩ ∧ AllStored scraped w'.tables ∧
      w'.tables.settings.find? lastIndexedBlock = some (toString last) ∧
      EventsStay w.tables w'.tables ∧ (Dated cursor w → Dated cursor' w') := by
  cases advances with
  | @moved rolled last w₁ done =>
    obtain ⟨same, unmoved, dated, reached, rfl, scraped, recorded, range, stored⟩ := done.settles
    refine ⟨_, scraped, rfl, reached, rfl, recorded, range, stored, Table.find?_insert_self ..,
      unmoved.events, fun before => ?_⟩
    exact (dated before).trans (Table.find?_insert_ne _ _ (by decide)).symm

end Ends

section Batch

variable {i : Indexer} {first head : Nat}

theorem first_le_nextBatchEnd (reached : first ≤ head) (low : head ≤ topHeight) :
    first ≤ i.nextBatchEnd first head := by
  unfold Indexer.nextBatchEnd
  omega

/-- A batch has at most as many blocks as it may. -/
theorem nextBatchEnd_size (positive : 1 ≤ i.options.batchSize) :
    i.nextBatchEnd first head + 1 - first ≤ i.options.batchSize := by
  unfold Indexer.nextBatchEnd
  omega

end Batch

section Resuming

variable {i : Indexer} {chain : ChainAnswers} {t t' : Tables} {cursor : FollowCursor}

theorem blockAfter_asks (stored : Option String) : Consults (Indexer.blockAfter stored) fun _ => True := by
  unfold Indexer.blockAfter
  cases stored with
  | none => exact within_pure trivial
  | some text =>
    dsimp only
    cases Numeral.read registerSize text with
    | error fault => exact within_throw _
    | ok n =>
      dsimp only
      unfold Job.nextHeight
      split
      · exact within_pure trivial
      · exact within_throw _

/-- A cursor that was restored is beyond the first blocks that are left out, and has the stored month. -/
theorem resumed_matches (resumed : AttemptAt chain i.resume t (.ok cursor) t') :
    t' = t ∧ i.options.startBlock ≤ cursor.nextBlock ∧
      cursor.epoch = t.settings.find? lastSyncedEpoch := by
  unfold Indexer.resume at resumed
  obtain ⟨stored, s, asked, rest⟩ := completed_bind resumed
  obtain ⟨-, rfl⟩ | ⟨_, wrong, -⟩ := attempt_store asked
  · obtain ⟨⟨_, wrong⟩, -⟩ | ⟨next, -, rest⟩ := (blockAfter_asks stored).attempt_bind rest
    · cases wrong
    obtain ⟨month, s', asked, ended⟩ := completed_bind rest
    obtain ⟨found, rfl⟩ | ⟨_, wrong, -⟩ := attempt_store asked
    · cases ended
      cases found
      exact ⟨rfl, Nat.le_max_right .., rfl⟩
    · cases wrong
  · cases wrong

/-- The cursor behind a stored checkpoint is restored as it was. -/
theorem resume_checkpoint {last : Nat} (low : last < topHeight)
    (marked : t.settings.find? lastIndexedBlock = some (toString last))
    (dated : cursor.epoch = t.settings.find? lastSyncedEpoch) (next : cursor.nextBlock = last + 1)
    (start : i.options.startBlock ≤ cursor.nextBlock) :
    i.resume.run.run (answering chain fun _ => false) t = (.ok cursor, t) := by
  have read : Numeral.read registerSize (toString last) = .ok last :=
    Numeral.read_toString (Nat.lt_trans low (by decide))
  have after : Indexer.blockAfter (some (toString last)) = pure (last + 1) := by
    unfold Indexer.blockAfter Job.nextHeight
    simp only [read]
    exact if_pos low
  have behind : max (last + 1) i.options.startBlock = cursor.nextBlock := by omega
  change ((Indexer.blockAfter (t.settings.find? lastIndexedBlock) >>= fun next => do
    return ⟨max next i.options.startBlock, ← Job.store (.setting lastSyncedEpoch)⟩ : Job FollowCursor)).run.run
      (answering chain fun _ => false) t = _
  rw [marked, after]
  change (Except.ok (FollowCursor.mk (max (last + 1) i.options.startBlock)
    (t.settings.find? lastSyncedEpoch)), t) = _
  rw [behind, ← dated]

end Resuming

/-- The last block whose batch was completed, as it is stored. -/
def State.checkpoint? (s : State) : Option String := s.tables.settings.find? lastIndexedBlock

/-- The cursor is beyond the first blocks that are left out, and its month is the stored one. -/
structure State.Matches (i : Indexer) (s : State) : Prop where
  start : i.options.startBlock ≤ s.cursor.nextBlock
  month : s.cursor.epoch = s.tables.settings.find? lastSyncedEpoch

/-- The blocks that a turn went through, if it advanced. -/
def Call.ranges (c : Call) : List BlockRange :=
  match c.moved with
  | .ok true => c.scrapes.map (·.range)
  | _ => []

/-- Ranges that follow each other from one block up to another, without a gap and without an overlap. -/
def Consecutive (first : Nat) : List BlockRange → Nat → Prop
  | [], next => next = first
  | range :: rest, next => range.first = first ∧ range.first ≤ range.last ∧
    Consecutive (range.last + 1) rest next

theorem consecutive_append {first middle next : Nat} {ranges ranges' : List BlockRange}
    (begun : Consecutive first ranges middle) (later : Consecutive middle ranges' next) :
    Consecutive first (ranges ++ ranges') next := by
  induction ranges generalizing first with
  | nil =>
    cases begun
    exact later
  | cons range rest ih =>
    obtain ⟨same, order, begun⟩ := begun
    exact ⟨same, order, ih begun⟩

theorem Call.Made.ranges_eq {i : Indexer} {told : Nat → BlockHeader → Prop} {c : Call} (made : c.Made i told)
    (advanced : c.moved = .ok true) :
    c.ranges = [⟨c.before.cursor.nextBlock, c.after.cursor.nextBlock - 1⟩] := by
  have ran := advances made
  rw [advanced] at ran
  obtain ⟨last, scraped, next, -, -, recorded, range, -⟩ := ran.done
  have one : c.scrapes = [scraped] := recorded
  unfold Call.ranges
  simp only [advanced, one, List.map_cons, List.map_nil, range, next, Nat.add_sub_cancel]

/-- What a turn has come to, as some tables show it later. -/
structure Call.Checkpointed (i : Indexer) (c : Call) (t : Tables) : Prop where
  idle : c.moved ≠ .ok true → c.after.cursor.nextBlock = c.before.cursor.nextBlock ∧
    c.after.checkpoint? = c.before.checkpoint?
  scraped : c.moved = .ok true → ∃ scraped, c.scrapes = [scraped] ∧ AllStored scraped t ∧
    scraped.range.last + 1 - scraped.range.first ≤ i.options.batchSize ∧ scraped.range.last ≤ c.head
  marked : c.moved = .ok true → c.after.checkpoint? = some (toString (c.after.cursor.nextBlock - 1))
  resumes : c.moved = .ok true → ∀ chain, i.resume.run.run (answering chain fun _ => false) c.after.tables =
    (.ok c.after.cursor, c.after.tables)

theorem Call.Checkpointed.mono {i : Indexer} {c : Call} {t t' : Tables} (checkpointed : c.Checkpointed i t)
    (stay : EventsStay t t') : c.Checkpointed i t' where
  idle := checkpointed.idle
  scraped advanced := by
    obtain ⟨scraped, one, stored, bounds⟩ := checkpointed.scraped advanced
    exact ⟨scraped, one, stored.mono stay, bounds⟩
  marked := checkpointed.marked
  resumes := checkpointed.resumes

section Calls

variable {i : Indexer} {told : Nat → BlockHeader → Prop} {c : Call}

/-- A turn that did not advance. -/
theorem Call.Made.idle (made : c.Made i told) (low : c.head < topHeight)
    (matches_ : c.before.Matches i) (idle : c.moved ≠ .ok true) :
    c.Checkpointed i c.after.tables ∧ c.after.Matches i ∧ c.ranges = [] ∧
      c.after.cursor.nextBlock = c.before.cursor.nextBlock ∧
      EventsStay c.before.tables c.after.tables := by
  obtain ⟨same, unmoved, dated⟩ := (advances made).idle low idle
  have none : c.ranges = [] := by
    unfold Call.ranges
    split
    next advanced => exact absurd advanced idle
    next => rfl
  have start : i.options.startBlock ≤ c.after.cursor.nextBlock := by
    rw [same]
    exact matches_.start
  refine ⟨?_, ⟨start, dated matches_.month⟩, none, same, unmoved.events⟩
  constructor
  case idle => exact fun _ => ⟨same, unmoved.checkpoint⟩
  all_goals exact fun advanced => absurd advanced idle

/-- A turn that advanced. -/
theorem Call.Made.advanced (made : c.Made i told) (low : c.head < topHeight)
    (positive : 1 ≤ i.options.batchSize) (matches_ : c.before.Matches i) (advanced : c.moved = .ok true) :
    c.Checkpointed i c.after.tables ∧ c.after.Matches i ∧
      Consecutive c.before.cursor.nextBlock c.ranges c.after.cursor.nextBlock ∧
      EventsStay c.before.tables c.after.tables := by
  have ran := advances made
  rw [advanced] at ran
  obtain ⟨last, scraped, next, reached, end_, recorded, range, stored, marked, stay, dated⟩ := ran.done
  have ordered : c.before.cursor.nextBlock ≤ last := end_ ▸ first_le_nextBatchEnd reached (Nat.le_of_lt low)
  have short : last + 1 - c.before.cursor.nextBlock ≤ i.options.batchSize := end_ ▸ nextBatchEnd_size positive
  have below : last ≤ c.head := end_ ▸ nextBatchEnd_le ..
  have one : c.scrapes = [scraped] := recorded
  have start : i.options.startBlock ≤ c.after.cursor.nextBlock := by
    have start := matches_.start
    omega
  have month := dated matches_.month
  refine ⟨?_, ⟨start, month⟩, ?_, stay⟩
  · constructor
    case idle => exact fun wrong => absurd advanced wrong
    case scraped =>
      intro _
      refine ⟨scraped, one, stored, ?_⟩
      rw [range]
      exact ⟨short, below⟩
    case marked =>
      intro _
      rw [next]
      exact marked
    case resumes =>
      exact fun _ chain => resume_checkpoint (Nat.lt_of_le_of_lt below low) marked month next start
  · rw [made.ranges_eq advanced, next]
    exact ⟨rfl, ordered, rfl⟩

theorem Call.Made.step (made : c.Made i told) (low : c.head < topHeight) (positive : 1 ≤ i.options.batchSize)
    (matches_ : c.before.Matches i) : c.Checkpointed i c.after.tables ∧ c.after.Matches i ∧
      Consecutive c.before.cursor.nextBlock c.ranges c.after.cursor.nextBlock ∧
      EventsStay c.before.tables c.after.tables := by
  by_cases advanced : c.moved = .ok true
  · exact made.advanced low positive matches_ advanced
  · obtain ⟨checkpointed, after, none, same, stay⟩ := made.idle low matches_ advanced
    exact ⟨checkpointed, after, none ▸ same, stay⟩

theorem Follows.checkpointed {s s' : State} {calls : List Call} (positive : 1 ≤ i.options.batchSize)
    (follows : Follows i told s calls s') (low : ∀ c ∈ calls, c.head < topHeight) (matches_ : s.Matches i) :
    Consecutive s.cursor.nextBlock (calls.flatMap Call.ranges) s'.cursor.nextBlock ∧
      (∀ c ∈ calls, c.Checkpointed i s'.tables) ∧ EventsStay s.tables s'.tables := by
  induction follows with
  | rest s => exact ⟨rfl, fun _ member => (nomatch member), fun _ => id⟩
  | call made _ ih =>
    obtain ⟨first_low, low⟩ := List.forall_mem_cons.1 low
    obtain ⟨mine, after, range, stay⟩ := made.step first_low positive matches_
    obtain ⟨ranges, others, stay'⟩ := ih low after
    refine ⟨consecutive_append range ranges, List.forall_mem_cons.2 ⟨mine.mono stay', others⟩, ?_⟩
    exact fun key stood => stay' key (stay key stood)

end Calls

/-- Turns on a restored cursor. The batches that they complete follow each other from the restored block, each
of at most as many blocks as a batch has and up to the head of its turn, and the events of all logs in them are
stored; a turn that completes none leaves the next block and the checkpoint; and after one that does, what is
stored leads back to its cursor. -/
theorem follow_checkpointed {i : Indexer} {told : Nat → BlockHeader → Prop} {chain : ChainAnswers}
    {t t' : Tables} {cursor : FollowCursor} {calls : List Call} {s : State}
    (positive : 1 ≤ i.options.batchSize) (resumed : AttemptAt chain i.resume t (.ok cursor) t')
    (follows : Follows i told ⟨cursor, t'⟩ calls s) (low : ∀ c ∈ calls, c.head < topHeight) :
    Consecutive cursor.nextBlock (calls.flatMap Call.ranges) s.cursor.nextBlock ∧
      ∀ c ∈ calls, c.Checkpointed i s.tables := by
  obtain ⟨rfl, start, month⟩ := resumed_matches resumed
  obtain ⟨ranges, each, -⟩ := follows.checkpointed positive low ⟨start, month⟩
  exact ⟨ranges, each⟩

/-- A chain with one log in every block. -/
def loggedChain : ChainAnswers
  | .logs first .. => .ok [proposedLog 1 first]
  | r => evenChain r

/-- An indexer of delegations that takes block after block. -/
def blockwise : Indexer where
  context := delegationContext
  options := ⟨"", none, 20, 1, 0, 2, 1, 1, none⟩

/-- Four turns: the first one advances, the checkpoint is refused to the second one, the third one takes the
same block again, and then the head has fallen. -/
theorem follow_checkpointed_refused_once :
    ∃ calls s, Follows blockwise (ToldBy loggedChain) ⟨⟨20, none⟩, .empty⟩ calls s ∧
      s.cursor = ⟨22, some "1970-01"⟩ ∧
      calls.map (·.head) = [20, 22, 22, 19] ∧
      calls.map (·.moved.toOption) = [some true, none, some true, some false] ∧
      Consecutive 20 (calls.flatMap Call.ranges) s.cursor.nextBlock ∧
      ∀ c ∈ calls, c.Checkpointed blockwise s.tables := by
  let refused : StoreRequest → Bool := fun
    | .setSetting key _ => key == lastIndexedBlock
    | _ => false
  let occasions : List Occasion :=
    [⟨20, fun _ => false⟩, ⟨22, refused⟩, ⟨22, fun _ => false⟩, ⟨19, fun _ => false⟩]
  have positive : 1 ≤ blockwise.options.batchSize := by decide
  have resumed : AttemptAt loggedChain blockwise.resume .empty (.ok ⟨20, none⟩) .empty :=
    runs_of_run (answering_allowed loggedChain fun _ => false) blockwise.resume.run .empty
  obtain ⟨calls, follows, moved, heads⟩ := follows_of_takeAll blockwise loggedChain occasions
    ⟨⟨20, none⟩, .empty⟩
  have shown : (takeAll blockwise loggedChain occasions ⟨⟨20, none⟩, .empty⟩).2.cursor =
      ⟨22, some "1970-01"⟩ := by decide +kernel
  have returned : (takeAll blockwise loggedChain occasions ⟨⟨20, none⟩, .empty⟩).1.map (·.toOption) =
      [some true, none, some true, some false] := by decide +kernel
  rw [← moved, List.map_map] at returned
  have low : ∀ c ∈ calls, c.head < topHeight := by
    have each : ∀ head ∈ calls.map (·.head), head < topHeight := by
      rw [heads]
      decide +kernel
    exact fun c member => each _ (List.mem_map_of_mem member)
  exact ⟨calls, _, follows, shown, heads, returned, follow_checkpointed positive resumed follows low⟩

end StakeIndex.Following
