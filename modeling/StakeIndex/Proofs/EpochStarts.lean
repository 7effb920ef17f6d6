import StakeIndex.Proofs.Checkpoint
import StakeIndex.Proofs.MonthSearch
import StakeIndex.Proofs.SyncTotals

/-!
The blocks at which the contracts are synchronised. Whether they are is decided by the month of the last block
of a batch, and where by a search for the first block of a later month; so a month that starts after another
one in the same batch is passed over.
-/
namespace StakeIndex.Following

open Dialogue Job

section Chains

variable (headers : Nat → BlockHeader)

/-- Headers that carry their heights, in the order of time, with years of four digits. -/
structure Chronological : Prop where
  numbered : ∀ b, (headers b).number = b
  ordered : ∀ b b', b ≤ b' → (headers b).timestamp ≤ (headers b').timestamp
  years : ∀ b, (Date.ofDays ((headers b).timestamp / 86400)).year ≤ 9999

def monthAt (b : Nat) : Int × Nat := ((headers b).time.date.year, (headers b).time.date.month)

def monthsAt (b : Nat) : Int := (headers b).time.date.months

/-- A month starts: the month is not the month of the block before. -/
def Starts (b : Nat) : Prop := monthAt headers b ≠ monthAt headers (b - 1)

instance (b : Nat) : Decidable (Starts headers b) := inferInstanceAs (Decidable (_ ≠ _))

/-- The first block of a range at which a month starts. -/
def firstStart (range : BlockRange) : Option Nat :=
  (List.range' range.first (range.last + 1 - range.first)).find? fun b => Starts headers b

variable {headers} {range : BlockRange} {b b' : Nat}

theorem monthAt_eq_iff :
    monthAt headers b = monthAt headers b' ↔ monthsAt headers b = monthsAt headers b' := by
  unfold monthAt monthsAt
  rw [Prod.mk.injEq, Instant.months_eq_iff]

theorem monthText_of_monthAt (same : monthAt headers b = monthAt headers b') :
    (headers b).time.monthText = (headers b').time.monthText := by
  obtain ⟨year, month⟩ := Prod.mk.inj same
  exact Instant.monthText_congr year month

theorem firstStart_eq_some_iff : firstStart headers range = some b ↔
    range.first ≤ b ∧ b ≤ range.last ∧ Starts headers b ∧
      ∀ j, range.first ≤ j → j < b → ¬Starts headers j := by
  unfold firstStart
  rw [List.find?_range'_eq_some, List.mem_range'_1]
  simp only [decide_eq_true_eq, Bool.not_eq_true', decide_eq_false_iff_not]
  constructor
  · rintro ⟨starts, ⟨low, high⟩, none⟩
    exact ⟨low, by omega, starts, none⟩
  · rintro ⟨low, high, starts, none⟩
    exact ⟨starts, ⟨low, by omega⟩, none⟩

theorem firstStart_eq_none (nowhere : ∀ j, range.first ≤ j → j ≤ range.last → ¬Starts headers j) :
    firstStart headers range = none := by
  unfold firstStart
  rw [List.find?_range'_eq_none]
  simp only [Bool.not_eq_true', decide_eq_false_iff_not]
  exact fun j low high => nowhere j low (by omega)

theorem exists_firstStart (low : range.first ≤ b) (high : b ≤ range.last) (starts : Starts headers b) :
    ∃ first, firstStart headers range = some first := by
  apply Option.isSome_iff_exists.1
  apply List.find?_isSome.2
  exact ⟨b, List.mem_range'_1.2 ⟨low, by omega⟩, decide_eq_true starts⟩

namespace Chronological

variable (chron : Chronological headers)

include chron

theorem monthsAt_mono (le : b ≤ b') : monthsAt headers b ≤ monthsAt headers b' :=
  Instant.months_ofSeconds_mono (chron.ordered b b' le) (chron.years b) (chron.years b')

theorem year_mem (b : Nat) : 0 ≤ (headers b).time.date.year ∧ (headers b).time.date.year ≤ 9999 :=
  Instant.fourDigits_ofSeconds (chron.years b)

/-- The texts of the months of blocks are ordered as the months are. -/
theorem monthText_lt_iff : (headers b).time.monthText < (headers b').time.monthText ↔
    monthsAt headers b < monthsAt headers b' :=
  Instant.monthText_lt_iff (chron.year_mem b).1 (chron.year_mem b).2 (chron.year_mem b').1
    (chron.year_mem b').2

/-- No month starts as long as the months are not later than one before. -/
theorem not_starts {before : Nat} (after : before < b) (same : monthsAt headers b ≤ monthsAt headers before) :
    ¬Starts headers b := by
  have le := chron.monthsAt_mono (Nat.le_sub_one_of_lt after)
  have le' := chron.monthsAt_mono (Nat.sub_le b 1)
  unfold Starts
  rw [not_not, monthAt_eq_iff]
  omega

/-- The first block of a later month is the first one at which a month starts. -/
theorem firstStart_of_later {before : Nat} (first : range.first = before + 1) (low : range.first ≤ b)
    (high : b ≤ range.last) (later : monthsAt headers before < monthsAt headers b)
    (least : ∀ j, range.first ≤ j → j < b → monthsAt headers j ≤ monthsAt headers before) :
    firstStart headers range = some b := by
  rw [firstStart_eq_some_iff]
  refine ⟨low, high, ?_, fun j after below => chron.not_starts (by omega) (least j after below)⟩
  have behind : monthsAt headers (b - 1) ≤ monthsAt headers before := by
    rcases Nat.eq_or_lt_of_le low with same | more
    · exact chron.monthsAt_mono (by omega)
    · exact least (b - 1) (by omega) (by omega)
  unfold Starts
  rw [Ne, monthAt_eq_iff]
  omega

end Chronological

end Chains

section Search

variable {i : Indexer} {head : Nat} {told : Nat → BlockHeader → Prop} {headers : Nat → BlockHeader}
  {w w' : TurnWorld} {month : String} {fuel low high : Nat} {h : BlockHeader}

/-- The search by halving finds the first block whose month is later. -/
theorem found_firstBlockAfter (tells : ∀ b h, told b h → h = headers b)
    (rises : ∀ b b', b ≤ b' → month < (headers b).time.monthText → month < (headers b').time.monthText)
    (ordered : low ≤ high) (enough : high ≤ low + fuel)
    (did : Does i head told (TurnJob.plain (Indexer.firstBlockAfter month fuel low high)) w (.ok h) w') :
    ∃ b, h = headers b ∧ FirstLater headers month low high b := by
  let p := Searching headers low high
  let q : Protocol TurnRequest.Answer := ⟨fun _ => True, fun
    | .plain r, reply => p.replies r reply
    | _, _ => True⟩
  obtain ⟨b, found, obeys⟩ :=
    firstBlockAfter_obeys (fun b b' _ le _ => rises b b' le) (Nat.le_refl _) ordered (Nat.le_refl _) enough
  have returns : (Indexer.firstBlockAfter month fuel low high).run.Obeys p
      fun _ result => ∀ h, result = .ok h → h = headers b := by
    refine obeys.mono fun past result finds h well => ?_
    obtain same | ⟨_, _, _, wrong⟩ := finds
    · exact Except.ok.inj (well.symm.trans same)
    · rw [well] at wrong
      cases wrong
  have each (r : Request) (_ : p.asks r) :
      (Dialogue.request (TurnRequest.plain r) : TurnSteps r.Answer).Obeys q fun _ reply => p.replies r reply :=
    ⟨trivial, fun _ kept => kept⟩
  have plain : (TurnJob.plain (Indexer.firstBlockAfter month fuel low high)).run.Obeys q
      fun _ result => ∀ h, result = .ok h → h = headers b := returns.mapRequests each
  have serves : Serves (Answers i head told) (fun _ => True) q := by
    intro r w reply w' _ _ answered
    rcases r with (r | r | r) | _ | _ <;> try exact ⟨trivial, trivial⟩
    cases r with
    | header b => exact ⟨fun h well => tells b h (answered.1 h well), trivial⟩
    | _ => exact ⟨trivial, trivial⟩
  obtain ⟨past, promised, -⟩ := did.fulfils serves plain trivial
  exact ⟨b, promised h rfl, found⟩

end Search

section Turns

variable {i : Indexer} {head : Nat} {told : Nat → BlockHeader → Prop} {headers : Nat → BlockHeader}
  {w w' : TurnWorld} {cursor : FollowCursor}

/-- The month of a cursor is the month of the block before the next one. -/
structure AtMonth (headers : Nat → BlockHeader) (cursor : FollowCursor) : Prop where
  positive : 1 ≤ cursor.nextBlock
  epoch : cursor.epoch = some (headers (cursor.nextBlock - 1)).time.monthText

/-- Heights with the times of their blocks, for synchronisations that were asked for. -/
def placed (syncs : List SyncOrder) : List (Nat × Instant) := syncs.map fun s => (s.height, s.time)

/-- The first block of a range at which a month starts, with its time. -/
def due (headers : Nat → BlockHeader) (range : BlockRange) : List (Nat × Instant) :=
  (firstStart headers range).toList.map fun b => (b, (headers b).time)

/-- The month that is kept becomes the month of the last block, and the contracts are synchronised at the
first block of the range at which a month starts, and nowhere else. -/
theorem Rolls.placed {last : Nat} {rolled : FollowCursor} (chron : Chronological headers)
    (tells : ∀ b h, told b h → h = headers b) (atMonth : AtMonth headers cursor)
    (ordered : cursor.nextBlock ≤ last)
    (rolls : Rolls i head told cursor cursor.nextBlock last w (.ok rolled) w') :
    rolled.epoch = some (headers last).time.monthText ∧
      placed w'.syncs = placed w.syncs ++ due headers ⟨cursor.nextBlock, last⟩ := by
  obtain ⟨positive, epoch⟩ := atMonth
  cases rolls with
  | began tell none =>
    rw [epoch] at none
    cases none
  | stayed tell recorded low =>
    obtain rfl := tells _ _ tell
    obtain rfl := Option.some.inj (epoch.symm.trans recorded)
    have early : monthsAt headers last ≤ monthsAt headers (cursor.nextBlock - 1) :=
      Int.not_lt.1 fun later => String.not_lt.2 low (chron.monthText_lt_iff.2 later)
    have same : monthsAt headers last = monthsAt headers (cursor.nextBlock - 1) :=
      Int.le_antisymm early (chron.monthsAt_mono (by omega))
    -- All months up to the last one are the month of the block before the range.
    have nowhere : firstStart headers ⟨cursor.nextBlock, last⟩ = none :=
      firstStart_eq_none fun j (after : cursor.nextBlock ≤ j) before =>
        chron.not_starts (show cursor.nextBlock - 1 < j by omega)
          (Int.le_trans (chron.monthsAt_mono before) early)
    constructor
    · rw [epoch, monthText_of_monthAt (monthAt_eq_iff.2 same)]
    · unfold due
      rw [nowhere]
      exact (List.append_nil _).symm
  | @rolled h boundary previous version summary w₁ tell recorded later searched versioned syncs =>
    obtain rfl := tells _ _ tell
    obtain rfl := Option.some.inj (epoch.symm.trans recorded)
    have rises (b b' : Nat) (le : b ≤ b')
        (later : (headers (cursor.nextBlock - 1)).time.monthText < (headers b).time.monthText) :
        (headers (cursor.nextBlock - 1)).time.monthText < (headers b').time.monthText := by
      rw [chron.monthText_lt_iff] at later ⊢
      exact Int.lt_of_lt_of_le later (chron.monthsAt_mono le)
    obtain ⟨b, rfl, first⟩ := found_firstBlockAfter tells rises ordered (by omega) searched
    have reached : monthsAt headers (cursor.nextBlock - 1) < monthsAt headers b := by
      rcases Nat.eq_or_lt_of_le first.below with rfl | less
      · exact chron.monthText_lt_iff.1 later
      · exact chron.monthText_lt_iff.1 (first.later less)
    have found : firstStart headers ⟨cursor.nextBlock, last⟩ = some b :=
      chron.firstStart_of_later (Nat.sub_add_cancel positive).symm first.above first.below reached
        fun j after before => Int.not_lt.1 (mt chron.monthText_lt_iff.2 (first.least j after before))
    obtain ⟨-, -, -, asked⟩ := syncs.frame
    refine ⟨rfl, ?_⟩
    change placed w₁.syncs = _
    unfold due
    rw [asked, found, chron.numbered]
    exact List.map_append

theorem Batches.placed {last : Nat} {rolled : FollowCursor} (chron : Chronological headers)
    (tells : ∀ b h, told b h → h = headers b) (atMonth : AtMonth headers cursor) (low : head ≤ topHeight)
    (done : Batches i head told cursor w (.ok (some (rolled, last))) w') :
    cursor.nextBlock ≤ last ∧ rolled.epoch = some (headers last).time.monthText ∧
      placed w'.syncs = placed w.syncs ++ due headers ⟨cursor.nextBlock, last⟩ := by
  cases done with
  | done reached scrapes _ _ rolls =>
    have ordered : cursor.nextBlock ≤ i.nextBatchEnd cursor.nextBlock head :=
      first_le_nextBatchEnd reached low
    obtain ⟨epoch, synced⟩ := rolls.placed chron tells atMonth ordered
    rw [scrapes.frame.2.2] at synced
    exact ⟨ordered, epoch, synced⟩

theorem Advances.waited {cursor' : FollowCursor}
    (advances : Advances i head told cursor w (.ok false) cursor' w') :
    cursor' = cursor ∧ w'.syncs = w.syncs := by
  cases advances with
  | waits _ same => exact ⟨rfl, same⟩

theorem Advances.placed {last : Nat} {cursor' : FollowCursor} (chron : Chronological headers)
    (tells : ∀ b h, told b h → h = headers b) (atMonth : AtMonth headers cursor) (low : head ≤ topHeight)
    (advances : Advances i head told cursor w (.ok true) cursor' w') (next : cursor'.nextBlock = last + 1) :
    cursor.nextBlock ≤ last ∧ AtMonth headers cursor' ∧
      placed w'.syncs = placed w.syncs ++ due headers ⟨cursor.nextBlock, last⟩ := by
  cases advances with
  | moved done =>
    cases next
    obtain ⟨ordered, epoch, synced⟩ := done.placed chron tells atMonth low
    exact ⟨ordered, ⟨Nat.le_add_left .., epoch⟩, synced⟩

/-- A turn without an error. -/
theorem Call.Made.placed {c : Call} {moved : Bool} (chron : Chronological headers)
    (tells : ∀ b h, told b h → h = headers b) (made : c.Made i told) (low : c.head ≤ topHeight)
    (atMonth : AtMonth headers c.before.cursor) (successful : c.moved = .ok moved) :
    AtMonth headers c.after.cursor ∧ Following.placed c.syncs = c.ranges.flatMap (due headers) ∧
      Consecutive c.before.cursor.nextBlock c.ranges c.after.cursor.nextBlock := by
  have ran := advances made
  rw [successful] at ran
  cases moved with
  | false =>
    obtain ⟨same, none⟩ := ran.waited
    have none : c.syncs = [] := none
    unfold Call.ranges
    rw [successful, same, none]
    exact ⟨atMonth, rfl, rfl⟩
  | true =>
    obtain ⟨last, scraped, next, -⟩ := ran.done
    obtain ⟨ordered, after, synced⟩ := ran.placed chron tells atMonth low next
    rw [made.ranges_eq successful, next, List.flatMap_cons, List.flatMap_nil, List.append_nil]
    exact ⟨after, synced, rfl, ordered, rfl⟩

end Turns

section Calls

variable {i : Indexer} {told : Nat → BlockHeader → Prop} {headers : Nat → BlockHeader} {calls : List Call}
  {s s' : State}

theorem consecutive_first_le {first next : Nat} {ranges : List BlockRange} {range : BlockRange}
    (consecutive : Consecutive first ranges next) (among : range ∈ ranges) : first ≤ range.first := by
  induction ranges generalizing first with
  | nil => cases among
  | cons head rest ih =>
    obtain ⟨same, ordered, later⟩ := consecutive
    rcases List.mem_cons.1 among with rfl | among
    · exact Nat.le_of_eq same.symm
    · have behind := ih later among
      omega

/-- A block is in one of the ranges only. -/
theorem consecutive_unique {first next b : Nat} {ranges : List BlockRange} {range range' : BlockRange}
    (consecutive : Consecutive first ranges next) (among : range ∈ ranges) (among' : range' ∈ ranges)
    (inside : range.first ≤ b ∧ b ≤ range.last) (inside' : range'.first ≤ b ∧ b ≤ range'.last) :
    range = range' := by
  induction ranges generalizing first with
  | nil => cases among
  | cons head rest ih =>
    obtain ⟨-, -, later⟩ := consecutive
    rcases List.mem_cons.1 among with rfl | behind <;> rcases List.mem_cons.1 among' with rfl | behind'
    · rfl
    · have apart := consecutive_first_le later behind'
      omega
    · have apart := consecutive_first_le later behind
      omega
    · exact ih later behind behind'

theorem mem_due {range : BlockRange} {at_ : Nat × Instant} : at_ ∈ due headers range ↔
    firstStart headers range = some at_.1 ∧ at_.2 = (headers at_.1).time := by
  obtain ⟨b, time⟩ := at_
  unfold due
  rw [List.mem_map]
  simp only [Option.mem_toList, Prod.mk.injEq]
  constructor
  · rintro ⟨_, found, rfl, rfl⟩
    exact ⟨found, rfl⟩
  · rintro ⟨found, rfl⟩
    exact ⟨b, found, rfl, rfl⟩

/-- Turns without an error synchronise at the first block of each batch at which a month starts. -/
theorem Follows.placed (chron : Chronological headers) (tells : ∀ b h, told b h → h = headers b)
    (follows : Follows i told s calls s') (heads : ∀ c ∈ calls, c.head ≤ topHeight)
    (successful : ∀ c ∈ calls, ∃ moved, c.moved = .ok moved) (atMonth : AtMonth headers s.cursor) :
    placed (calls.flatMap (·.syncs)) = (calls.flatMap Call.ranges).flatMap (due headers) ∧
      Consecutive s.cursor.nextBlock (calls.flatMap Call.ranges) s'.cursor.nextBlock := by
  induction follows with
  | rest s => exact ⟨rfl, rfl⟩
  | @call c calls s made _ ih =>
    obtain ⟨low, heads⟩ := List.forall_mem_cons.1 heads
    obtain ⟨⟨moved, well⟩, successful⟩ := List.forall_mem_cons.1 successful
    obtain ⟨after, synced, range⟩ := made.placed chron tells low atMonth well
    obtain ⟨others, ranges⟩ := ih heads successful after
    refine ⟨?_, consecutive_append range ranges⟩
    rw [List.flatMap_cons, List.flatMap_cons, List.flatMap_append, ← synced, ← others]
    exact List.map_append

/-- A block that turns went through. -/
def Passed (calls : List Call) (b : Nat) : Prop :=
  ∃ range ∈ calls.flatMap Call.ranges, range.first ≤ b ∧ b ≤ range.last

/-- The contracts are synchronised at every block that turns went through and at which a month starts, with
the time of the block, and at no other one. -/
structure AtEveryStart (headers : Nat → BlockHeader) (calls : List Call) : Prop where
  every : ∀ b, Passed calls b → Starts headers b →
    (b, (headers b).time) ∈ placed (calls.flatMap (·.syncs))
  only : ∀ at_ ∈ placed (calls.flatMap (·.syncs)), Passed calls at_.1 ∧ Starts headers at_.1 ∧
    at_.2 = (headers at_.1).time

/-- Turns without an error, from a cursor with the month of the block before, synchronise at the first start
of a month in each batch. So this is every start exactly if no batch has two of them. -/
theorem synced_at_starts_iff (chron : Chronological headers) (tells : ∀ b h, told b h → h = headers b)
    (follows : Follows i told s calls s') (heads : ∀ c ∈ calls, c.head ≤ topHeight)
    (successful : ∀ c ∈ calls, ∃ moved, c.moved = .ok moved) (atMonth : AtMonth headers s.cursor) :
    placed (calls.flatMap (·.syncs)) = (calls.flatMap Call.ranges).flatMap (due headers) ∧
      (AtEveryStart headers calls ↔ ∀ range ∈ calls.flatMap Call.ranges, ∀ b b', range.first ≤ b → b < b' →
        b' ≤ range.last → Starts headers b → ¬Starts headers b') := by
  obtain ⟨synced, consecutive⟩ := follows.placed chron tells heads successful atMonth
  refine ⟨synced, ?_, ?_⟩
  · intro all range among b b' low before high starts starts'
    have mine := all.every b' ⟨range, among, by omega, high⟩ starts'
    rw [synced, List.mem_flatMap] at mine
    obtain ⟨range', among', mine⟩ := mine
    obtain ⟨low', high', -, least⟩ := firstStart_eq_some_iff.1 (mem_due.1 mine).1
    -- The later start is the first one of some batch, and that is the batch in question.
    obtain rfl := consecutive_unique consecutive among among' (b := b') ⟨by omega, high⟩ ⟨low', high'⟩
    exact least b low before starts
  · intro single
    constructor
    case every =>
      rintro b ⟨range, among, low, high⟩ starts
      obtain ⟨first, found⟩ := exists_firstStart low high starts
      obtain ⟨low', -, starts', least⟩ := firstStart_eq_some_iff.1 found
      have same : first = b := by
        rcases Nat.lt_trichotomy first b with before | same | behind
        · exact absurd starts (single range among first b low' before high starts')
        · exact same
        · exact absurd starts (least b low behind)
      rw [synced, List.mem_flatMap]
      exact ⟨range, among, mem_due.2 ⟨same ▸ found, rfl⟩⟩
    case only =>
      intro at_ member
      rw [synced, List.mem_flatMap] at member
      obtain ⟨range, among, member⟩ := member
      obtain ⟨found, time⟩ := mem_due.1 member
      obtain ⟨low, high, starts, -⟩ := firstStart_eq_some_iff.1 found
      exact ⟨⟨range, among, low, high⟩, starts, time⟩

end Calls

section Seasons

/-- Blocks in September 2020, and then one at the first second of October and others at that of November. -/
def seasonHeaders (b : Nat) : BlockHeader :=
  ⟨b, .zero, match b with
    | 0 => 1600000000
    | 1 => 1600000010
    | 2 => 1601510400
    | _ => 1604188800⟩

theorem seasonHeaders_chronological : Chronological seasonHeaders where
  numbered _ := rfl
  ordered b b' le := by
    rcases b with _ | _ | _ | b <;> rcases b' with _ | _ | _ | b' <;> first | omega | (simp [seasonHeaders])
  years b := by
    have last : (Date.ofDays (1604188800 / 86400)).year ≤ 9999 := by decide
    rcases b with _ | _ | _ | b
    · decide
    · decide
    · decide
    · exact last

/-- A chain of these blocks, with contracts that tell of nothing. -/
def seasons : ChainAnswers
  | .header b => .ok (seasonHeaders b)
  | r => holding 0 0 0 r

theorem seasons_tells (b : Nat) (h : BlockHeader) (told : ToldBy seasons b h) : h = seasonHeaders b :=
  (Except.ok.inj told).symm

def seasonal (batchSize : Nat) : Indexer where
  context := holdingContext
  options := ⟨"", none, 0, batchSize, 0, 1, 1, 1, some ⟨"1.0.0"⟩⟩

/-- Behind the first two blocks. -/
def inSeptember : State := ⟨⟨1, some "2020-09"⟩, .empty⟩

theorem inSeptember_atMonth : AtMonth seasonHeaders inSeptember.cursor := ⟨by decide, by decide +kernel⟩

/-- In two batches of two blocks, October starts in the first one and November in the second one. -/
theorem synced_at_starts_in_halves :
    ∃ calls s, Follows (seasonal 2) (ToldBy seasons) inSeptember calls s ∧
      placed (calls.flatMap (·.syncs)) = [(2, .ofSeconds 1601510400), (3, .ofSeconds 1604188800)] ∧
      AtEveryStart seasonHeaders calls := by
  let o : Occasion := ⟨4, fun _ => false⟩
  obtain ⟨scrapes, syncs, made⟩ := o.made (seasonal 2) seasons inSeptember
  obtain ⟨scrapes', syncs', made'⟩ := o.made (seasonal 2) seasons (o.take (seasonal 2) seasons inSeptember).2
  have moved : (o.take (seasonal 2) seasons inSeptember).1 = .ok true ∧
      (o.take (seasonal 2) seasons inSeptember).2.cursor.nextBlock = 3 := by decide +kernel
  have moved' : (o.take (seasonal 2) seasons (o.take (seasonal 2) seasons inSeptember).2).1 = .ok true ∧
      (o.take (seasonal 2) seasons (o.take (seasonal 2) seasons inSeptember).2).2.cursor.nextBlock = 5 := by
    decide +kernel
  generalize o.take (seasonal 2) seasons inSeptember = first at made made' moved moved'
  generalize o.take (seasonal 2) seasons first.2 = second at made' moved'
  let calls : List Call :=
    [⟨4, inSeptember, first.1, scrapes, syncs, first.2⟩, ⟨4, first.2, second.1, scrapes', syncs', second.2⟩]
  have follows : Follows (seasonal 2) (ToldBy seasons) inSeptember calls second.2 :=
    .call made (.call made' (.rest _))
  have heads : ∀ c ∈ calls, c.head ≤ topHeight := by
    have low : 4 ≤ topHeight := by decide
    simp [calls, low]
  have successful : ∀ c ∈ calls, ∃ moved, c.moved = .ok moved := by
    simp [calls, moved.1, moved'.1]
  have ranges : calls.flatMap Call.ranges = [⟨1, 2⟩, ⟨3, 4⟩] := by
    have one := (made.ranges_eq moved.1).trans (congrArg (fun next => [BlockRange.mk 1 (next - 1)]) moved.2)
    have other := (made'.ranges_eq moved'.1).trans
      (congrArg₂ (fun first next => [BlockRange.mk first (next - 1)]) moved.2 moved'.2)
    rw [List.flatMap_cons, List.flatMap_cons, one, other]
    rfl
  obtain ⟨synced, exact_⟩ := synced_at_starts_iff seasonHeaders_chronological seasons_tells follows heads
    successful inSeptember_atMonth
  rw [ranges] at synced exact_
  have both : placed (calls.flatMap (·.syncs)) = [(2, .ofSeconds 1601510400), (3, .ofSeconds 1604188800)] :=
    synced.trans (by decide +kernel)
  refine ⟨calls, second.2, follows, both, exact_.2 ?_⟩
  have september : ¬Starts seasonHeaders 1 := by decide +kernel
  have november : ¬Starts seasonHeaders 4 := by decide +kernel
  intro range among b b' low before high starts starts'
  simp only [List.mem_cons, List.not_mem_nil, or_false] at among
  rcases among with rfl | rfl
  · obtain rfl : b = 1 := by
      simp only at low high
      omega
    exact september starts
  · obtain rfl : b' = 4 := by
      simp only at low high
      omega
    exact november starts'

/-- In a batch of all four blocks, only the start of October is not passed over. -/
theorem not_synced_at_every_start :
    ∃ calls s, Chronological seasonHeaders ∧ Follows (seasonal 10) (ToldBy seasons) inSeptember calls s ∧
      (∀ c ∈ calls, c.moved = .ok true) ∧ AtMonth seasonHeaders inSeptember.cursor ∧
      Passed calls 3 ∧ Starts seasonHeaders 3 ∧
      placed (calls.flatMap (·.syncs)) = [(2, .ofSeconds 1601510400)] ∧
      ¬AtEveryStart seasonHeaders calls := by
  let o : Occasion := ⟨4, fun _ => false⟩
  obtain ⟨scrapes, syncs, made⟩ := o.made (seasonal 10) seasons inSeptember
  have moved : (o.take (seasonal 10) seasons inSeptember).1 = .ok true ∧
      (o.take (seasonal 10) seasons inSeptember).2.cursor.nextBlock = 5 := by decide +kernel
  generalize o.take (seasonal 10) seasons inSeptember = finish at made moved
  let calls : List Call := [⟨4, inSeptember, finish.1, scrapes, syncs, finish.2⟩]
  have follows : Follows (seasonal 10) (ToldBy seasons) inSeptember calls finish.2 := .call made (.rest _)
  have ranges : calls.flatMap Call.ranges = [⟨1, 4⟩] := by
    have one := (made.ranges_eq moved.1).trans (congrArg (fun next => [BlockRange.mk 1 (next - 1)]) moved.2)
    rw [List.flatMap_cons, one]
    rfl
  have advanced : ∀ c ∈ calls, c.moved = .ok true := List.forall_mem_singleton.2 moved.1
  have heads : ∀ c ∈ calls, c.head ≤ topHeight := List.forall_mem_singleton.2 (show 4 ≤ topHeight by decide)
  obtain ⟨synced, -⟩ := follows.placed seasonHeaders_chronological seasons_tells heads
    (fun c among => ⟨true, advanced c among⟩) inSeptember_atMonth
  rw [ranges] at synced
  have once : placed (calls.flatMap (·.syncs)) = [(2, .ofSeconds 1601510400)] :=
    synced.trans (by decide +kernel)
  have passed : Passed calls 3 := by
    unfold Passed
    rw [ranges]
    exact ⟨_, List.mem_singleton_self _, by decide⟩
  have starts : Starts seasonHeaders 3 := by decide +kernel
  refine ⟨calls, finish.2, seasonHeaders_chronological, follows, advanced, inSeptember_atMonth, passed, starts,
    once, ?_⟩
  intro all
  have wrong := all.every 3 passed starts
  rw [once] at wrong
  exact absurd wrong (by decide)

end Seasons

end StakeIndex.Following
