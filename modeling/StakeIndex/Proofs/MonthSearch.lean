import StakeIndex.Index.Follow
import StakeIndex.Proofs.Attempt
import StakeIndex.Proofs.Months
import StakeIndex.Proofs.Traces

/-!
The search for the first block of a later month. It halves a range, so it comes to an end, asks only for headers
in the range, and finds the first block with a later month where the blocks are in the order of time. Months are
compared by their texts, which are in the order of months as long as years have four digits.
-/
namespace StakeIndex

open Dialogue

namespace Following

section Search

variable {headers : Nat → BlockHeader} {month : String} {fuel low middle high first last b : Nat}
  {h : BlockHeader}

/-- The first block of a range whose month is later, or the last one. -/
structure FirstLater (headers : Nat → BlockHeader) (month : String) (low high b : Nat) : Prop where
  above : low ≤ b
  below : b ≤ high
  later : b < high → month < (headers b).time.monthText
  least : ∀ j, low ≤ j → j < b → ¬month < (headers j).time.monthText

theorem firstLater_self (closed : low = high) : FirstLater headers month low high low := by
  constructor <;> omega

theorem FirstLater.before (first : FirstLater headers month low middle b) (inside : middle ≤ high)
    (later : month < (headers middle).time.monthText) : FirstLater headers month low high b where
  above := first.above
  below := Nat.le_trans first.below inside
  later _ := by
    rcases Nat.eq_or_lt_of_le first.below with rfl | less
    · exact later
    · exact first.later less
  least := first.least

theorem FirstLater.behind (first : FirstLater headers month (middle + 1) high b) (inside : low ≤ middle)
    (early : ∀ j, low ≤ j → j ≤ middle → ¬month < (headers j).time.monthText) :
    FirstLater headers month low high b where
  above := Nat.le_trans inside (Nat.le_of_succ_le first.above)
  below := first.below
  later := first.later
  least j after before := by
    by_cases within_ : j ≤ middle
    · exact early j after within_
    · exact first.least j (Nat.lt_of_not_le within_) before

theorem FirstLater.monthText_lt (first : FirstLater headers month low high b)
    (later : month < (headers high).time.monthText) : month < (headers b).time.monthText := by
  rcases Nat.eq_or_lt_of_le first.below with rfl | less
  · exact later
  · exact first.later less

/-- The requests of a search in a range, and replies that tell the headers of a chain. -/
def Searching (headers : Nat → BlockHeader) (first last : Nat) : Protocol Request.Answer where
  asks r := ∃ b, first ≤ b ∧ b ≤ last ∧ r = .chain (.header b)
  replies
    | .chain (.header b), reply => ∀ h, reply = .ok h → h = headers b
    | _, _ => True

/-- A header is returned, or the failure of a request. -/
def Finds (h : BlockHeader) (past : List (Exchange Request.Answer)) (result : Except Stop BlockHeader) : Prop :=
  result = .ok h ∨ ∃ b fault, ⟨.chain (.header b), .error fault⟩ ∈ past ∧
    result = .error (.failed (fault.toFailure "eth_getBlockByNumber"))

theorem Finds.append {past later : List (Exchange Request.Answer)} {result : Except Stop BlockHeader}
    (finds : Finds h later result) : Finds h (past ++ later) result := by
  obtain well | ⟨b, fault, among, failed⟩ := finds
  · exact .inl well
  · exact .inr ⟨b, fault, List.mem_append_right _ among, failed⟩

theorem Finds.of_error {past : List (Exchange Request.Answer)} {stop : Stop} {h' : BlockHeader}
    (finds : Finds h past (.error stop)) : Finds h' past (.error stop) := by
  obtain wrong | failed := finds
  · cases wrong
  · exact .inr failed

theorem header_obeys (above : first ≤ b) (below : b ≤ last) :
    (Job.header b).run.Obeys (Searching headers first last) (Finds (headers b)) := by
  refine ⟨⟨b, above, below, rfl⟩, fun reply told => ?_⟩
  cases reply with
  | error fault => exact .inr ⟨b, fault, List.mem_singleton_self _, rfl⟩
  | ok h => exact .inl (congrArg Except.ok (told h rfl))

/-- The search by halving finds the first block whose month is later, and asks only for headers in the range. -/
theorem firstBlockAfter_obeys
    (rises : ∀ b b', first ≤ b → b ≤ b' → b' ≤ last → month < (headers b).time.monthText →
      month < (headers b').time.monthText)
    (above : first ≤ low) (ordered : low ≤ high) (below : high ≤ last) (enough : high ≤ low + fuel) :
    ∃ b, FirstLater headers month low high b ∧
      (Indexer.firstBlockAfter month fuel low high).run.Obeys (Searching headers first last)
        (Finds (headers b)) := by
  induction fuel generalizing low high with
  | zero =>
    exact ⟨low, firstLater_self (by omega), header_obeys above (by omega)⟩
  | succ fuel ih =>
    unfold Indexer.firstBlockAfter
    split
    next open_ =>
      have inside : low ≤ low + (high - low) / 2 ∧ low + (high - low) / 2 < high := by omega
      generalize low + (high - low) / 2 = middle at inside
      obtain ⟨after, before⟩ := inside
      have asked : (Job.header middle).run.Obeys (Searching headers first last) (Finds (headers middle)) :=
        header_obeys (Nat.le_trans above after) (Nat.le_of_lt (Nat.lt_of_lt_of_le before below))
      have half : ∃ b, FirstLater headers month low high b ∧
          (if month < (headers middle).time.monthText then Indexer.firstBlockAfter month fuel low middle
            else Indexer.firstBlockAfter month fuel (middle + 1) high).run.Obeys (Searching headers first last)
              (Finds (headers b)) := by
        split
        next later =>
          obtain ⟨b, found, obeys⟩ := ih above after (by omega) (by omega)
          exact ⟨b, found.before (Nat.le_of_lt before) later, obeys⟩
        next early =>
          obtain ⟨b, found, obeys⟩ := ih (by omega) before below (by omega)
          refine ⟨b, found.behind after fun j from_ upTo wrong => ?_, obeys⟩
          exact early (rises j middle (Nat.le_trans above from_) upTo (by omega) wrong)
      obtain ⟨b, found, obeys⟩ := half
      refine ⟨b, found, asked.bind_except ?_ fun _ _ => Finds.of_error⟩
      rintro past h (same | ⟨_, _, _, wrong⟩)
      · cases same
        exact obeys.mono fun _ _ => Finds.append
      · cases wrong
    next closed => exact ⟨low, firstLater_self (by omega), header_obeys above (by omega)⟩

/-- With enough fuel, more fuel makes no difference. -/
theorem firstBlockAfter_fuel {fuel' : Nat} (enough : high ≤ low + fuel) (enough' : high ≤ low + fuel') :
    Indexer.firstBlockAfter month fuel low high = Indexer.firstBlockAfter month fuel' low high := by
  have closed (fuel low high : Nat) (done : high ≤ low) :
      Indexer.firstBlockAfter month fuel low high = Job.header low := by
    cases fuel with
    | zero => rfl
    | succ fuel => exact if_neg (Nat.not_lt.2 done)
  induction fuel generalizing low high fuel' with
  | zero => rw [closed 0 low high enough, closed fuel' low high enough]
  | succ fuel ih =>
    cases fuel' with
    | zero => rw [closed _ low high enough', closed 0 low high enough']
    | succ fuel' =>
      unfold Indexer.firstBlockAfter
      split
      next =>
        refine congrArg (Job.header _ >>= ·) (funext fun h => ?_)
        split
        · exact ih (by omega) (by omega)
        · exact ih (by omega) (by omega)
      next => rfl

end Search

section Months

/-- The blocks of a range are in the order of time, and their years have at most four digits. -/
structure InOrder (headers : Nat → BlockHeader) (first last : Nat) : Prop where
  ordered : ∀ b b', first ≤ b → b ≤ b' → b' ≤ last → (headers b).timestamp ≤ (headers b').timestamp
  years : ∀ b, first ≤ b → b ≤ last → (Date.ofDays ((headers b).timestamp / 86400)).year ≤ 9999

variable {headers : Nat → BlockHeader} {first last : Nat}

theorem InOrder.fourDigits (inOrder : InOrder headers first last) {b : Nat} (above : first ≤ b)
    (below : b ≤ last) : (headers b).time.FourDigits :=
  Instant.fourDigits_ofSeconds (inOrder.years b above below)

theorem InOrder.monthText_mono (inOrder : InOrder headers first last) {b b' : Nat} (above : first ≤ b)
    (le : b ≤ b') (below : b' ≤ last) : (headers b).time.monthText ≤ (headers b').time.monthText := by
  have four := inOrder.years b above (Nat.le_trans le below)
  have four' := inOrder.years b' (Nat.le_trans above le) below
  have months : (headers b).time.date.months ≤ (headers b').time.date.months :=
    Instant.months_ofSeconds_mono (inOrder.ordered b b' above le below) four four'
  refine String.not_lt.1 fun wrong => Int.not_lt.2 months ?_
  rw [Instant.months_lt_iff]
  exact ((Instant.fourDigits_ofSeconds four').monthText_lt_iff (Instant.fourDigits_ofSeconds four)).1 wrong

/-- The first block of a range whose month is later than one with a given text. -/
structure FirstAfter (headers : Nat → BlockHeader) (month : String) (first last b : Nat) : Prop where
  above : first ≤ b
  below : b ≤ last
  later : month < (headers b).time.monthText
  least : ∀ j, first ≤ j → j < b → ¬month < (headers j).time.monthText
  /-- In the calendar it is later as well, if the text is that of a month in a year of four digits. -/
  dated : ∀ t : Instant, t.FourDigits → month = t.monthText → t.MonthBefore (headers b).time ∧
    ∀ j, first ≤ j → j < b → ¬t.MonthBefore (headers j).time

theorem InOrder.firstAfter (inOrder : InOrder headers first last) {month : String} {b : Nat}
    (found : FirstLater headers month first last b) (later : month < (headers last).time.monthText) :
    FirstAfter headers month first last b where
  above := found.above
  below := found.below
  later := found.monthText_lt later
  least := found.least
  dated t four same := by
    subst same
    have below := found.below
    constructor
    · exact (four.monthText_lt_iff (inOrder.fourDigits found.above below)).1 (found.monthText_lt later)
    · intro j above before wrong
      have four' := inOrder.fourDigits above (Nat.le_of_lt (Nat.lt_of_lt_of_le before below))
      exact found.least j above before ((four.monthText_lt_iff four').2 wrong)

/-- A search in a range whose blocks are in the order of time and whose last one has a later month. It asks only
for headers in the range, and returns the header of the first block with a later month unless a request fails;
more fuel makes no difference. Texts of months in years of four digits are ordered as the months are, and are
the same only for the same month. -/
theorem first_block_after_found {σ : Type} {answer : (r : Request) → σ → r.Answer × σ} {previous : String}
    (ordered : first ≤ last) (inOrder : InOrder headers first last)
    (told : ∀ b, first ≤ b → b ≤ last → ∀ w h,
      (answer (.chain (.header b)) w).1 = .ok h → h = headers b)
    (later : previous < (headers last).time.monthText) (world : σ) :
    let search := Indexer.firstBlockAfter previous (last - first) first last
    let result := (search.run.run (noting answer) (world, [])).1
    let asked := (search.run.run (noting answer) (world, [])).2.2
    (∃ b, FirstAfter headers previous first last b ∧ Finds (headers b) asked result) ∧
    (∀ e ∈ asked, ∃ b, first ≤ b ∧ b ≤ last ∧ e.1 = .chain (.header b)) ∧
    (∀ fuel, last - first ≤ fuel → Indexer.firstBlockAfter previous fuel first last = search) ∧
    ∀ t t' : Instant, t.FourDigits → t'.FourDigits → (t.monthText < t'.monthText ↔ t.MonthBefore t') ∧
      (t.monthText = t'.monthText ↔ t.date.year = t'.date.year ∧ t.date.month = t'.date.month) := by
  intro search result asked
  have rises (b b' : Nat) (above : first ≤ b) (le : b ≤ b') (below : b' ≤ last)
      (after : previous < (headers b).time.monthText) : previous < (headers b').time.monthText :=
    Std.lt_of_lt_of_le after (inOrder.monthText_mono above le below)
  obtain ⟨b, found, obeys⟩ :=
    firstBlockAfter_obeys rises (Nat.le_refl _) ordered (Nat.le_refl _) (Nat.add_sub_cancel' ordered).ge
  have replies (r : Request) (w : σ) (may : (Searching headers first last).asks r) :
      (Searching headers first last).replies r (answer r w).1 := by
    obtain ⟨b, above, below, rfl⟩ := may
    exact told b above below w
  obtain ⟨past, ran, finds, keeps⟩ := obeys.noted replies world []
  refine ⟨⟨b, inOrder.firstAfter found later, ?_⟩, ?_, ?_, ?_⟩
  · simp only [result, asked, search, ran]
    exact finds
  · simp only [asked, search, ran]
    exact fun e among => (keeps e among).1
  · exact fun fuel enough => firstBlockAfter_fuel (by omega) (by omega)
  · exact fun t t' four four' => ⟨four.monthText_lt_iff four', four.monthText_eq_iff four'⟩

/-- Blocks ten days apart from 13 September 2020 on. -/
def decadeHeaders (b : Nat) : BlockHeader := ⟨b, .zero, 1600000000 + 864000 * b⟩

theorem decadeHeaders_inOrder : InOrder decadeHeaders 0 5 where
  ordered b b' _ le _ := Nat.add_le_add_left (Nat.mul_le_mul_left _ le) _
  years b _ below := by
    have each : ∀ b ≤ 5, (Date.ofDays ((decadeHeaders b).timestamp / 86400)).year ≤ 9999 := by decide +kernel
    exact each b below

/-- A chain that tells of these headers only. -/
def decadeChain : ChainAnswers
  | .header b => .ok (decadeHeaders b)
  | _ => .error .silent

/-- October starts with the third of six blocks. -/
theorem first_block_after_found_october :
    let search := Indexer.firstBlockAfter "2020-09" 5 0 5
    let ran := search.run.run (noting (answering decadeChain fun _ => false)) (.empty, [])
    ran.1 = .ok (decadeHeaders 2) ∧ FirstAfter decadeHeaders "2020-09" 0 5 2 := by
  intro search ran
  have returned : ran.1 = .ok (decadeHeaders 2) := by decide +kernel
  have told (b : Nat) (_ : 0 ≤ b) (_ : b ≤ 5) (w : Tables) (h : BlockHeader)
      (well : (answering decadeChain (fun _ => false) (.chain (.header b)) w).1 = .ok h) :
      h = decadeHeaders b := (Except.ok.inj well).symm
  have later : "2020-09" < (decadeHeaders 5).time.monthText := by decide +kernel
  obtain ⟨⟨b, found, finds⟩, -⟩ :=
    first_block_after_found (Nat.zero_le 5) decadeHeaders_inOrder told later .empty
  obtain same | ⟨_, _, _, wrong⟩ := finds
  · obtain rfl : 2 = b := congrArg BlockHeader.number (Except.ok.inj (returned.symm.trans same))
    exact ⟨returned, found⟩
  · cases returned.symm.trans wrong

end Months

end Following
end StakeIndex
