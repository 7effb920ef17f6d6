import Mathlib.Algebra.Order.BigOperators.Group.List
import Mathlib.Algebra.Order.Group.Nat
import StakeIndex.Proofs.Perform
import StakeIndex.Proofs.Saturation

/-!
Claimed rewards. A holder has a row at each height up to which more was claimed than below it, and the row carries
what was claimed so far. The rows below a height depend on the claims below it only, so a payment that comes late
leaves the rows before it as they were, and the rows are always those of the whole ledger.
-/
namespace StakeIndex

namespace RewardClaim

/-- The sum of some claims. -/
def sum (claims : List RewardClaim) : Nat := (claims.map (·.amount.toNat)).sum

/-- The place of a claim in the ledger. -/
def key (c : RewardClaim) : Address × Nat × Nat := (c.holder, c.height, c.logIndex)

theorem amount_row (c : RewardClaim) (total : Word) : (c.row total).amount = total := rfl

theorem amount_with (r : DelegatorStatistic) (total : Word) :
    ({ r with amount := total } : DelegatorStatistic).amount = total := rfl

/-- Claims in the order of their heights. -/
def Sorted (claims : List RewardClaim) : Prop := claims.Pairwise fun a b => a.height ≤ b.height

/-- A row that comes after another has a greater height and no smaller amount. -/
def Follows (a b : DelegatorStatistic) : Prop :=
  a.height < b.height ∧ a.amount.toNat ≤ b.amount.toNat

section Totals

variable {total : Word} {current r : DelegatorStatistic} {rest claims : List RewardClaim}

theorem mem_rowsFrom (start : current.amount = total)
    (above : ∀ c ∈ rest, current.height ≤ c.height) (sorted : Sorted rest)
    (member : r ∈ rowsFrom total current rest) :
    current.height ≤ r.height ∧ current.amount.toNat ≤ r.amount.toNat := by
  induction rest generalizing total current with
  | nil =>
    obtain rfl := List.mem_singleton.1 member
    exact ⟨Nat.le_refl _, Nat.le_refl _⟩
  | cons c rest ih =>
    obtain ⟨first, tail⟩ := List.pairwise_cons.1 sorted
    have grows : total.toNat ≤ (total.saturatingAdd c.amount).toNat := by
      have := total.toNat_lt
      rw [Word.saturatingAdd, Word.toNat_clamp]
      omega
    simp only [rowsFrom] at member
    split at member
    next same =>
      have := ih (amount_with current _) (fun d member => same ▸ first d member) tail member
      exact ⟨this.1, by rw [start]; exact Nat.le_trans grows this.2⟩
    next other =>
      rcases List.mem_cons.1 member with rfl | member
      · exact ⟨Nat.le_refl _, Nat.le_refl _⟩
      · have := ih (amount_row c _) first tail member
        have below := above c List.mem_cons_self
        exact ⟨Nat.le_trans below this.1, by rw [start]; exact Nat.le_trans grows this.2⟩

theorem rowsFrom_follows (start : current.amount = total)
    (above : ∀ c ∈ rest, current.height ≤ c.height) (sorted : Sorted rest) :
    (rowsFrom total current rest).Pairwise Follows := by
  induction rest generalizing total current with
  | nil => exact List.pairwise_singleton _ _
  | cons c rest ih =>
    obtain ⟨first, tail⟩ := List.pairwise_cons.1 sorted
    have below := above c List.mem_cons_self
    simp only [rowsFrom]
    split
    next same => exact ih rfl (fun d member => same ▸ first d member) tail
    next other =>
      refine List.pairwise_cons.2 ⟨fun r member => ?_, ih (amount_row c _) first tail⟩
      have := mem_rowsFrom (amount_row c _) first tail member
      have apart : current.height < c.height := by omega
      refine ⟨Nat.lt_of_lt_of_le apart this.1, Nat.le_trans ?_ this.2⟩
      have := total.toNat_lt
      rw [start, row, Word.saturatingAdd, Word.toNat_clamp]
      omega

theorem totals_follows (sorted : Sorted claims) : (totals claims).Pairwise Follows := by
  cases claims with
  | nil => exact .nil
  | cons c rest =>
    obtain ⟨first, tail⟩ := List.pairwise_cons.1 sorted
    exact rowsFrom_follows rfl first tail

/-- The rows of heights below a bound are those of the claims below it. -/
theorem rowsFrom_filter {height : Nat} (start : current.amount = total)
    (above : ∀ c ∈ rest, current.height ≤ c.height) (sorted : Sorted rest)
    (below : current.height < height) :
    (rowsFrom total current rest).filter (·.height < height) =
      rowsFrom total current (rest.filter (·.height < height)) := by
  induction rest generalizing total current with
  | nil => simp [rowsFrom, below]
  | cons c rest ih =>
    obtain ⟨first, tail⟩ := List.pairwise_cons.1 sorted
    by_cases kept : c.height < height
    · rw [List.filter_cons_of_pos (by simpa using kept)]
      simp only [rowsFrom]
      split
      next same => exact ih rfl (fun d member => same ▸ first d member) tail below
      next other =>
        rw [List.filter_cons_of_pos (by simpa using below), ih (amount_row c _) first tail kept]
    · have dropped : rest.filter (fun c => decide (c.height < height)) = [] := by
        refine List.filter_eq_nil_iff.2 fun d member => ?_
        have := first d member
        simp only [decide_eq_true_eq]
        omega
      have later : (rowsFrom (total.saturatingAdd c.amount)
          (c.row (total.saturatingAdd c.amount)) rest).filter (·.height < height) = [] := by
        refine List.filter_eq_nil_iff.2 fun r member => ?_
        have : c.height ≤ r.height := (mem_rowsFrom (amount_row c _) first tail member).1
        simp only [decide_eq_true_eq]
        omega
      have apart : c.height ≠ current.height := by omega
      have next : rowsFrom total current (c :: rest) = current ::
          rowsFrom (total.saturatingAdd c.amount) (c.row (total.saturatingAdd c.amount)) rest :=
        if_neg apart
      rw [List.filter_cons_of_neg (by simpa using kept), dropped, next,
        List.filter_cons_of_pos (by simpa using below), later, rowsFrom]

theorem totals_filter (height : Nat) (sorted : Sorted claims) :
    (totals claims).filter (·.height < height) =
      totals (claims.filter (·.height < height)) := by
  cases claims with
  | nil => rfl
  | cons c rest =>
    obtain ⟨first, tail⟩ := List.pairwise_cons.1 sorted
    by_cases kept : c.height < height
    · rw [List.filter_cons_of_pos (by simpa using kept)]
      exact rowsFrom_filter rfl first tail kept
    · have none : (c :: rest).filter (fun c => decide (c.height < height)) = [] := by
        refine List.filter_eq_nil_iff.2 fun d member => ?_
        simp only [decide_eq_true_eq]
        rcases List.mem_cons.1 member with rfl | member
        · exact kept
        · have := first d member
          omega
      rw [none]
      refine List.filter_eq_nil_iff.2 fun r member => ?_
      have : c.height ≤ r.height := (mem_rowsFrom (amount_row c _) first tail member).1
      simp only [decide_eq_true_eq]
      omega

theorem getLast?_rowsFrom (start : current.amount = total) :
    ((rowsFrom total current rest).getLast?).map (·.amount) =
      some (rest.foldl (fun total c => total.saturatingAdd c.amount) total) := by
  induction rest generalizing total current with
  | nil => simp [rowsFrom, start]
  | cons c rest ih =>
    simp only [rowsFrom, List.foldl_cons]
    split
    next same => exact ih rfl
    next other =>
      have last := ih (amount_row c (total.saturatingAdd c.amount))
      rw [List.getLast?_cons]
      obtain ⟨r, found, amount⟩ := Option.map_eq_some_iff.1 last
      simp [found, amount]

/-- The last total is the sum of all claims. -/
theorem getLast?_totals (claims : List RewardClaim) :
    (((totals claims).getLast?).map (·.amount)).getD 0 = Word.clamp (sum claims) := by
  cases claims with
  | nil => rfl
  | cons c rest =>
    rw [totals, getLast?_rowsFrom (amount_row c _), Option.getD_some, Word.foldl_saturatingAdd,
      Word.zero_saturatingAdd]
    rfl

theorem subject_of_mem_rowsFrom {holder : Address}
    (mine : current.holder = holder ∧ current.figure = .claimedRewards)
    (ours : ∀ c ∈ rest, c.holder = holder)
    (member : r ∈ rowsFrom total current rest) :
    r.holder = holder ∧ r.figure = .claimedRewards := by
  induction rest generalizing total current with
  | nil =>
    obtain rfl := List.mem_singleton.1 member
    exact mine
  | cons c rest ih =>
    obtain ⟨first, tail⟩ := List.forall_mem_cons.1 ours
    have start (total : Word) : (c.row total).holder = holder ∧
        (c.row total).figure = .claimedRewards := ⟨first, rfl⟩
    simp only [rowsFrom] at member
    split at member
    next =>
      have same : ({ current with amount := total.saturatingAdd c.amount } : DelegatorStatistic).holder =
          holder ∧ current.figure = .claimedRewards := mine
      exact ih same tail member
    next =>
      rcases List.mem_cons.1 member with rfl | member
      · exact mine
      · exact ih (start _) tail member

/-- Apart from its amount, a row is that of the first claim at its height. -/
theorem eq_row_of_mem_rowsFrom (above : ∀ c ∈ rest, current.height ≤ c.height) (sorted : Sorted rest)
    (member : r ∈ rowsFrom total current rest) :
    r = { current with amount := r.amount } ∨
      current.height < r.height ∧ ∃ c, rest.find? (·.height = r.height) = some c ∧ r = c.row r.amount := by
  induction rest generalizing total current with
  | nil => exact .inl (List.mem_singleton.1 member ▸ rfl)
  | cons c rest ih =>
    obtain ⟨first, tail⟩ := List.pairwise_cons.1 sorted
    have reach := above c List.mem_cons_self
    have skip (beyond : c.height < r.height) :
        (c :: rest).find? (·.height = r.height) = rest.find? (·.height = r.height) :=
      List.find?_cons_of_neg (by simpa using Nat.ne_of_lt beyond)
    rw [rowsFrom] at member
    split at member
    next same =>
      refine (ih (fun d member => same ▸ first d member) tail member).imp id fun ⟨beyond, d, found, form⟩ => ?_
      exact ⟨beyond, d, (skip (same ▸ beyond)).trans found, form⟩
    next other =>
      obtain rfl | member := List.mem_cons.1 member
      · exact .inl rfl
      · right
        obtain form | ⟨beyond, d, found, form⟩ := ih first tail member
        · have height : c.height = r.height := (congrArg DelegatorStatistic.height form).symm
          exact ⟨by omega, c, List.find?_cons_of_pos (by simpa using height), form⟩
        · exact ⟨Nat.lt_of_le_of_lt reach beyond, d, (skip beyond).trans found, form⟩

theorem eq_row_of_mem_totals (sorted : Sorted claims) (member : r ∈ totals claims) :
    ∃ c, claims.find? (·.height = r.height) = some c ∧ r = c.row r.amount := by
  cases claims with
  | nil => cases member
  | cons c rest =>
    obtain ⟨first, tail⟩ := List.pairwise_cons.1 sorted
    obtain form | ⟨beyond, d, found, form⟩ := eq_row_of_mem_rowsFrom first tail member
    · have height : c.height = r.height := (congrArg DelegatorStatistic.height form).symm
      exact ⟨c, List.find?_cons_of_pos (by simpa using height), form⟩
    · have below : c.height < r.height := beyond
      have skip : (c :: rest).find? (·.height = r.height) = rest.find? (·.height = r.height) :=
        List.find?_cons_of_neg (by simpa using Nat.ne_of_lt below)
      exact ⟨d, skip.trans found, form⟩

end Totals

section Changes

variable {totals : List DelegatorStatistic}

theorem changesFrom_sublist (previous : Word) (totals : List DelegatorStatistic) :
    (changesFrom previous totals).Sublist totals := by
  induction totals generalizing previous with
  | nil => exact .slnil
  | cons row rest ih =>
    rw [changesFrom]
    split
    · exact (ih _).cons _
    · exact (ih _).cons_cons _

theorem changesFrom_filter (previous : Word) {height : Nat} (sorted : totals.Pairwise Follows) :
    (changesFrom previous totals).filter (·.height < height) =
      changesFrom previous (totals.filter (·.height < height)) := by
  induction totals generalizing previous with
  | nil => rfl
  | cons row rest ih =>
    obtain ⟨first, tail⟩ := List.pairwise_cons.1 sorted
    by_cases kept : row.height < height
    · rw [List.filter_cons_of_pos (by simpa using kept)]
      simp only [changesFrom]
      split
      next same => exact ih _ tail
      next other => rw [List.filter_cons_of_pos (by simpa using kept), ih _ tail]
    · have none : (row :: rest).filter (fun r => decide (r.height < height)) = [] := by
        refine List.filter_eq_nil_iff.2 fun s member => ?_
        simp only [decide_eq_true_eq]
        rcases List.mem_cons.1 member with rfl | member
        · exact kept
        · have := (first s member).1
          omega
      rw [none]
      exact List.sublist_nil.1 (none ▸ (changesFrom_sublist _ _).filter _)

/-- Of rows that do not sink, those that change rise, from above the amount before them on. -/
theorem changesFrom_rises (previous : Word) (sorted : totals.Pairwise Follows)
    (start : ∀ r ∈ totals, previous.toNat ≤ r.amount.toNat) :
    (changesFrom previous totals).Pairwise (fun a b => a.height < b.height ∧ a.amount < b.amount) ∧
      ∀ r ∈ changesFrom previous totals, previous < r.amount := by
  induction totals generalizing previous with
  | nil => exact ⟨.nil, by simp [changesFrom]⟩
  | cons row rest ih =>
    obtain ⟨first, tail⟩ := List.pairwise_cons.1 sorted
    obtain ⟨rises, above⟩ := ih row.amount tail fun r member => (first r member).2
    rw [changesFrom]
    split
    next same => exact ⟨rises, same ▸ above⟩
    next other =>
      have less : previous < row.amount :=
        Nat.lt_of_le_of_ne (start row List.mem_cons_self) fun same => other (Word.ext same.symm)
      refine ⟨List.pairwise_cons.2 ⟨fun r member => ⟨?_, above r member⟩, rises⟩, fun r member => ?_⟩
      · exact (first r ((changesFrom_sublist _ _).subset member)).1
      · rcases List.mem_cons.1 member with rfl | member
        · exact less
        · exact Nat.lt_trans less (above r member)

/-- The last row that changes carries the last amount, unless that is the amount before all rows. -/
theorem getLast?_changesFrom (previous : Word) (sorted : totals.Pairwise Follows)
    (start : ∀ r ∈ totals, previous.toNat ≤ r.amount.toNat) :
    ((changesFrom previous totals).getLast?).map (·.amount) =
      let final := (totals.getLast?.map (·.amount)).getD previous
      if final = previous then none else some final := by
  induction totals generalizing previous with
  | nil => simp [changesFrom]
  | cons row rest ih =>
    obtain ⟨first, tail⟩ := List.pairwise_cons.1 sorted
    have last := ih row.amount tail fun r member => (first r member).2
    have final : (((row :: rest).getLast?).map (·.amount)).getD previous =
        (rest.getLast?.map (·.amount)).getD row.amount := by
      rw [List.getLast?_cons]
      cases rest.getLast? <;> rfl
    simp only [final] at last ⊢
    rw [changesFrom]
    split
    next same => rw [last, same]
    next other =>
      have rises : row.amount.toNat ≤ ((rest.getLast?.map (·.amount)).getD row.amount).toNat := by
        cases found : rest.getLast? with
        | none => exact Nat.le_refl _
        | some r => exact (first r (List.mem_of_getLast? found)).2
      have less : previous.toNat < row.amount.toNat :=
        Nat.lt_of_le_of_ne (start row List.mem_cons_self) fun same => other (Word.ext same.symm)
      have changed : (rest.getLast?.map (·.amount)).getD row.amount ≠ previous := by
        intro same
        rw [same] at rises
        omega
      rw [if_neg changed, List.getLast?_cons]
      split at last
      next same =>
        rw [Option.map_eq_none_iff] at last
        rw [last, same]
        rfl
      next =>
        obtain ⟨r, found, amount⟩ := Option.map_eq_some_iff.1 last
        simp [found, amount]

end Changes

section Rows

variable {claims : List RewardClaim} {r : DelegatorStatistic}

theorem rows_filter (height : Nat) (sorted : Sorted claims) :
    (rows claims).filter (·.height < height) = rows (claims.filter (·.height < height)) := by
  rw [rows, changesFrom_filter 0 (totals_follows sorted), totals_filter height sorted, rows]

/-- Later rows have greater heights and greater amounts. -/
theorem rows_rise (sorted : Sorted claims) :
    (rows claims).Pairwise fun a b => a.height < b.height ∧ a.amount < b.amount :=
  (changesFrom_rises 0 (totals_follows sorted) fun _ _ => Nat.zero_le _).1

/-- The last row carries the sum of all claims; without it the sum is zero. -/
theorem getLast?_rows (sorted : Sorted claims) :
    ((rows claims).getLast?).map (·.amount) =
      if sum claims = 0 then none else some (.clamp (sum claims)) := by
  have last := getLast?_changesFrom 0 (totals_follows sorted) fun _ _ => Nat.zero_le _
  simp only [getLast?_totals, Word.clamp_eq_zero_iff] at last
  exact last

theorem subject_of_mem_rows {holder : Address}
    (ours : ∀ c ∈ claims, c.holder = holder) (member : r ∈ rows claims) :
    r.holder = holder ∧ r.figure = .claimedRewards := by
  have member := (changesFrom_sublist _ _).subset member
  cases claims with
  | nil => cases member
  | cons c rest =>
    obtain ⟨first, tail⟩ := List.forall_mem_cons.1 ours
    exact subject_of_mem_rowsFrom ⟨first, rfl⟩ tail member

theorem sum_filter_le {p q : RewardClaim → Prop} [DecidablePred p] [DecidablePred q] (weaker : ∀ c, p c → q c) :
    sum (claims.filter (p ·)) ≤ sum (claims.filter (q ·)) := by
  have fewer : (claims.filter (p ·)).Sublist (claims.filter (q ·)) :=
    List.monotone_filter_right claims fun c holds => decide_eq_true (weaker c (of_decide_eq_true holds))
  exact (fewer.map _).sum_le_sum fun _ _ => Nat.zero_le _

/-- A row carries what was claimed up to its height, which is more than what was claimed below it. -/
theorem amount_of_mem_rows (sorted : Sorted claims) (member : r ∈ rows claims) :
    r.amount = .clamp (sum (claims.filter (·.height ≤ r.height))) ∧
      .clamp (sum (claims.filter (·.height < r.height))) < r.amount := by
  obtain ⟨before, after, split⟩ := List.append_of_mem member
  have rises := rows_rise sorted
  rw [split] at rises
  obtain ⟨-, behind, below⟩ := List.pairwise_append.1 rises
  have higher := (List.pairwise_cons.1 behind).1
  have low (s) (earlier : s ∈ before) := below s earlier r List.mem_cons_self
  have cut {low high : List DelegatorStatistic} {height : Nat} (all : rows claims = low ++ high)
      (kept : ∀ s ∈ low, s.height < height) (left : ∀ s ∈ high, height ≤ s.height) :
      rows (claims.filter (·.height < height)) = low := by
    have passed : low.filter (·.height < height) = low :=
      List.filter_eq_self.2 fun s member => decide_eq_true (kept s member)
    have refused : high.filter (·.height < height) = [] :=
      List.filter_eq_nil_iff.2 fun s member => by simpa using left s member
    rw [← rows_filter _ sorted, all, List.filter_append, passed, refused, List.append_nil]
  constructor
  · have upto : rows (claims.filter (·.height < r.height + 1)) = before ++ [r] := by
      refine cut (by rw [split, List.append_assoc, List.singleton_append]) (fun s member => ?_) fun s later =>
        (higher s later).1
      obtain earlier | own := List.mem_append.1 member
      · exact Nat.lt_succ_of_lt (low s earlier).1
      · exact List.mem_singleton.1 own ▸ Nat.lt_succ_self _
    have last := getLast?_rows (sorted.filter (·.height < r.height + 1))
    rw [upto, List.getLast?_concat] at last
    simp only [Nat.lt_succ_iff] at last
    split at last
    · cases last
    · exact Option.some.inj last
  · have under : rows (claims.filter (·.height < r.height)) = before :=
      cut split (fun s earlier => (low s earlier).1) <|
        List.forall_mem_cons.2 ⟨Nat.le_refl _, fun s later => Nat.le_of_lt (higher s later).1⟩
    have last := getLast?_rows (sorted.filter (·.height < r.height))
    rw [under] at last
    cases ended : before.getLast? with
    | none =>
      rw [ended] at last
      split at last
      next nothing =>
        rw [nothing]
        exact (changesFrom_rises 0 (totals_follows sorted) fun _ _ => Nat.zero_le _).2 r member
      next => cases last
    | some b =>
      rw [ended] at last
      split at last
      · cases last
      · rw [← Option.some.inj last]
        exact (low b (List.mem_of_getLast? ended)).2

/-- The rows are those of the first claims at the heights up to which more was claimed than below them, each with what
was claimed up to its height. -/
theorem mem_rows_iff (sorted : Sorted claims) :
    r ∈ rows claims ↔ ∃ c, claims.find? (·.height = r.height) = some c ∧
      r = c.row (.clamp (sum (claims.filter (·.height ≤ r.height)))) ∧
      .clamp (sum (claims.filter (·.height < r.height))) < r.amount := by
  constructor
  · intro member
    obtain ⟨amount, more⟩ := amount_of_mem_rows sorted member
    obtain ⟨c, found, form⟩ := eq_row_of_mem_totals sorted ((changesFrom_sublist _ _).subset member)
    exact ⟨c, found, amount ▸ form, more⟩
  · rintro ⟨c, found, form, more⟩
    have amount : r.amount = .clamp (sum (claims.filter (·.height ≤ r.height))) := congrArg (·.amount) form
    have paid : sum (claims.filter (·.height ≤ r.height)) ≠ 0 := by
      intro nothing
      rw [amount, nothing] at more
      exact absurd more (Nat.not_lt_zero _)
    have last := getLast?_rows (sorted.filter (·.height < r.height + 1))
    rw [← rows_filter _ sorted] at last
    simp only [Nat.lt_succ_iff, if_neg paid, ← amount] at last
    obtain ⟨l, ended, same⟩ := Option.map_eq_some_iff.1 last
    obtain ⟨member, upto⟩ := List.mem_filter.1 (List.mem_of_getLast? ended)
    obtain ⟨claimed, -⟩ := amount_of_mem_rows sorted member
    -- The last row up to the height is at the height, since the amount is not reached below it.
    have height : l.height = r.height := by
      refine (Nat.lt_or_eq_of_le (of_decide_eq_true upto)).resolve_left fun below => ?_
      have less : sum (claims.filter (·.height ≤ l.height)) ≤ sum (claims.filter (·.height < r.height)) :=
        sum_filter_le fun c reached => Nat.lt_of_le_of_lt reached below
      have bounded : l.amount.toNat ≤ (Word.clamp (sum (claims.filter (·.height < r.height)))).toNat := by
        rw [claimed, Word.toNat_clamp, Word.toNat_clamp]
        omega
      exact absurd more (Nat.not_lt.2 (same ▸ bounded))
    obtain ⟨d, found', form'⟩ := eq_row_of_mem_totals sorted ((changesFrom_sublist _ _).subset member)
    rw [height] at found'
    cases found.symm.trans found'
    have same : r = l := by rw [form, form', same, amount]
    exact same ▸ member

end Rows

end RewardClaim

namespace Tables

/-- The claims of a holder, in their order. -/
def ledger (t : Tables) (holder : Address) : List RewardClaim :=
  (t.rewardClaims.filter fun key _ => key.1 == holder).values

/-- The claimed rewards of a holder as the last row not above a height shows them. -/
def claimedAt? (t : Tables) (holder : Address) (height : Nat) : Option Word :=
  (t.delegatorStatistics.last? fun key => key.1 == (holder, .claimedRewards) && key.2 ≤ height).map
    (·.2.amount)

/-- Every claim stands in its place. -/
def Placed (t : Tables) : Prop := ∀ key c, t.rewardClaims.find? key = some c → c.key = key

section Ledger

variable {t : Tables} {holder : Address}

theorem mem_ledger_iff (placed : t.Placed) {c : RewardClaim} :
    c ∈ t.ledger holder ↔ c.holder = holder ∧ t.rewardClaims.find? c.key = some c := by
  simp only [ledger, Table.mem_values_iff, Table.find?_filter, Option.filter_eq_some_iff, beq_iff_eq]
  constructor
  · rintro ⟨key, found, same⟩
    obtain rfl := placed key c found
    exact ⟨same, found⟩
  · rintro ⟨same, found⟩
    exact ⟨c.key, found, same⟩

/-- A ledger is in the order of heights, and at one height in that of places. -/
theorem ledger_ordered (placed : t.Placed) (holder : Address) :
    (t.ledger holder).Pairwise fun a b =>
      a.height < b.height ∨ a.height = b.height ∧ a.logIndex < b.logIndex := by
  have sorted := (t.rewardClaims.filter fun key _ => key.1 == holder).sorted
  refine List.pairwise_map.2 (sorted.imp_of_mem ?_)
  have place {e : (Address × Nat × Nat) × RewardClaim}
      (member : e ∈ (t.rewardClaims.filter fun key _ => key.1 == holder).entries) :
      e.1 = (holder, e.2.height, e.2.logIndex) := by
    have found := Table.find?_eq_some_iff.2 member
    rw [Table.find?_filter, Option.filter_eq_some_iff, beq_iff_eq] at found
    rw [← found.2, ← placed _ _ found.1]
    rfl
  intro a b ha hb less
  rw [place ha, place hb, Table.compare_subject] at less
  change (compare a.2.height b.2.height).then (compare a.2.logIndex b.2.logIndex) = .lt at less
  rwa [Ordering.then_eq_lt, Nat.compare_eq_lt, Nat.compare_eq_eq, Nat.compare_eq_lt] at less

theorem ledger_sorted (placed : t.Placed) (holder : Address) :
    RewardClaim.Sorted (t.ledger holder) :=
  (ledger_ordered placed holder).imp fun order => by omega

theorem holder_of_mem_ledger (placed : t.Placed) : ∀ c ∈ t.ledger holder, c.holder = holder :=
  fun _ member => ((mem_ledger_iff placed).1 member).1

theorem ledger_record_of_ne {c : RewardClaim} (other : holder ≠ c.holder) :
    (t.recordRewardClaim c).ledger holder = t.ledger holder := by
  have apart : (c.holder == holder) = false := beq_false_of_ne (Ne.symm other)
  exact congrArg Table.values (Table.filter_insert apart fun _ _ => apart)

/-- A claim leaves the ledgers below its height as they are. -/
theorem ledger_record_below (placed : t.Placed) (c : RewardClaim) (holder : Address) :
    ((t.recordRewardClaim c).ledger holder).filter (·.height < c.height) =
      (t.ledger holder).filter (·.height < c.height) := by
  have below (table : Table (Address × Nat × Nat) RewardClaim) :
      (table.filter fun key _ => key.1 == holder).values.filter (fun d => d.height < c.height) =
        (table.filter fun key d => key.1 == holder && d.height < c.height).values := by
    simp only [Table.values, Table.filter, List.filter_map, List.filter_filter]
    congr 2
    funext e
    exact Bool.and_comm ..
  refine (below _).trans (.trans (congrArg Table.values ?_) (below _).symm)
  refine Table.filter_insert (by simp) fun d found => ?_
  have same := congrArg (·.2.1) (placed _ _ found)
  change d.height = c.height at same
  simp [same]

theorem Placed.record (placed : t.Placed) (c : RewardClaim) : (t.recordRewardClaim c).Placed := by
  intro key d found
  change (t.rewardClaims.insert c.key c).find? key = some d at found
  rw [Table.find?_insert] at found
  split at found
  next same =>
    cases found
    exact same.symm
  next => exact placed key d found

end Ledger

section Recording

variable {t : Tables}

/-- The rows from the height of a claim on are written anew, and all other rows are kept. -/
theorem find?_record_eq_some_iff (placed : t.Placed) {c : RewardClaim} {holder : Address}
    {figure : DelegatorFigure} {height : Nat} {r : DelegatorStatistic} :
    (t.recordRewardClaim c).delegatorStatistics.find? ((holder, figure), height) = some r ↔
      if (holder, figure) = (c.holder, .claimedRewards) ∧ c.height ≤ height then
        r ∈ RewardClaim.rows ((t.recordRewardClaim c).ledger c.holder) ∧ r.height = height
      else t.delegatorStatistics.find? ((holder, figure), height) = some r := by
  have placed' := placed.record c
  have sorted := ledger_sorted placed' c.holder
  have ours (r) (member : r ∈ RewardClaim.rows ((t.recordRewardClaim c).ledger c.holder)) :=
    (RewardClaim.subject_of_mem_rows (holder_of_mem_ledger placed') member).1
  set anew := (RewardClaim.rows ((t.recordRewardClaim c).ledger c.holder)).filter
    (c.height ≤ ·.height) with written
  have distinct :
      (anew.map fun r => ((r.holder, DelegatorFigure.claimedRewards), r.height)).Nodup := by
    refine List.pairwise_map.2 (((RewardClaim.rows_rise sorted).filter _).imp fun rises same => ?_)
    have : _ = _ := congrArg (·.2) same
    omega
  refine (Table.find?_insertAll_of_nodup distinct).trans ?_
  rw [Table.find?_filter, Option.filter_eq_some_iff, written, List.mem_filter, decide_eq_true_eq]
  split
  next rewritten =>
    obtain ⟨same, above⟩ := rewritten
    constructor
    · rintro (⟨⟨member, -⟩, place⟩ | ⟨-, -, kept⟩)
      · exact ⟨member, congrArg (·.2) place⟩
      · simp [same, above] at kept
    · rintro ⟨member, rfl⟩
      exact .inl ⟨⟨member, above⟩, by rw [ours r member, same]⟩
  next kept =>
    have absent : ((holder, figure), height) ∉
        anew.map fun r => ((r.holder, DelegatorFigure.claimedRewards), r.height) := by
      intro member
      obtain ⟨s, among, place⟩ := List.mem_map.1 member
      rw [written, List.mem_filter, decide_eq_true_eq] at among
      obtain ⟨subject, rfl⟩ := Prod.mk.inj place
      exact kept ⟨by rw [← subject, ours s among.1], among.2⟩
    constructor
    · rintro (⟨⟨member, above⟩, place⟩ | ⟨-, found, -⟩)
      · have among : r ∈ anew := List.mem_filter.2 ⟨member, decide_eq_true above⟩
        exact absurd (List.mem_map.2 ⟨r, among, place⟩) absent
      · exact found
    · intro found
      refine .inr ⟨absent, found, ?_⟩
      simpa only [Bool.not_eq_true', Bool.and_eq_false_iff, beq_eq_false_iff_ne, decide_eq_false_iff_not,
        Classical.not_and_iff_not_or_not] using kept

/-- The rows of every holder's claimed rewards are those of the ledger, and nothing else is counted of
delegators. -/
structure RewardsSettled (t : Tables) : Prop where
  placed : t.Placed
  rows : ∀ holder figure height r,
    t.delegatorStatistics.find? ((holder, figure), height) = some r ↔
      figure = .claimedRewards ∧ r ∈ RewardClaim.rows (t.ledger holder) ∧ r.height = height

theorem empty_rewardsSettled : empty.RewardsSettled := by
  refine ⟨fun key c found => ?_, fun holder figure height r => ?_⟩
  · cases found
  · constructor
    · intro found
      cases found
    · rintro ⟨-, member, -⟩
      cases member

theorem RewardsSettled.record (settled : t.RewardsSettled) (c : RewardClaim) :
    (t.recordRewardClaim c).RewardsSettled := by
  have placed := settled.placed.record c
  refine ⟨placed, fun holder figure height r => ?_⟩
  rw [find?_record_eq_some_iff settled.placed, settled.rows]
  by_cases other : holder = c.holder
  · subst other
    by_cases above : c.height ≤ height
    · simp only [Prod.mk.injEq, true_and, above, and_true]
      split
      next claimed => simp [claimed]
      next unclaimed => simp [unclaimed]
    · have below := ledger_record_below settled.placed c c.holder
      have same : (RewardClaim.rows ((t.recordRewardClaim c).ledger c.holder)).filter
          (·.height < c.height) =
            (RewardClaim.rows (t.ledger c.holder)).filter (·.height < c.height) := by
        rw [RewardClaim.rows_filter _ (ledger_sorted placed _),
          RewardClaim.rows_filter _ (ledger_sorted settled.placed _), below]
      have member := congrArg (r ∈ ·) same
      simp only [List.mem_filter, decide_eq_true_eq, eq_iff_iff] at member
      rw [if_neg fun both => above both.2]
      refine and_congr_right fun _ => and_congr_left ?_
      rintro rfl
      have less : r.height < c.height := by omega
      simpa only [less, and_true] using member.symm
  · rw [if_neg fun both => other (congrArg Prod.fst both.1), ledger_record_of_ne other]

theorem RewardsSettled.entries_eq (settled : t.RewardsSettled) (holder : Address) :
    (t.delegatorStatistics.filter fun key _ => key.1 == (holder, .claimedRewards)).entries =
      (RewardClaim.rows (t.ledger holder)).map fun r =>
        (((holder, .claimedRewards), r.height), r) := by
  have rises := RewardClaim.rows_rise (ledger_sorted settled.placed holder)
  refine Table.entries_eq_of_mem_iff (Table.sorted _) (List.pairwise_map.2 (rises.imp fun h => ?_)) ?_
  · exact (Table.compare_heights ..).2 h.1
  · rintro ⟨⟨⟨h, figure⟩, height⟩, r⟩
    rw [← Table.find?_eq_some_iff, Table.find?_filter, Option.filter_eq_some_iff, settled.rows,
      beq_iff_eq, List.mem_map]
    constructor
    · rintro ⟨⟨rfl, member, rfl⟩, same⟩
      cases same
      exact ⟨r, member, rfl⟩
    · rintro ⟨s, member, same⟩
      cases same
      exact ⟨⟨rfl, member, rfl⟩, rfl⟩

/-- At each height the claimed rewards show the sum of the claims up to it. -/
theorem RewardsSettled.claimedAt?_eq (settled : t.RewardsSettled) (holder : Address) (height : Nat) :
    t.claimedAt? holder height =
      let paid := RewardClaim.sum ((t.ledger holder).filter (·.height ≤ height))
      if paid = 0 then none else some (.clamp paid) := by
  have sorted := ledger_sorted settled.placed holder
  have rows : t.delegatorStatistics.entries.filter
      (fun e => e.1.1 == (holder, .claimedRewards) && e.1.2 ≤ height) =
        (RewardClaim.rows ((t.ledger holder).filter (·.height ≤ height))).map fun r =>
          (((holder, .claimedRewards), r.height), r) := by
    calc t.delegatorStatistics.entries.filter _
        = ((t.delegatorStatistics.filter fun key _ => key.1 == (holder, .claimedRewards)).entries.filter
            fun e => e.1.2 ≤ height) := by
          rw [Table.filter, List.filter_filter]
          congr 1
          funext e
          exact Bool.and_comm ..
      _ = ((RewardClaim.rows (t.ledger holder)).filter (·.height < height + 1)).map _ := by
          rw [settled.entries_eq, List.filter_map]
          simp only [Nat.lt_succ_iff]
          rfl
      _ = _ := by
          rw [RewardClaim.rows_filter _ sorted]
          simp only [Nat.lt_succ_iff]
  have last := RewardClaim.getLast?_rows (sorted.filter fun c => decide (c.height ≤ height))
  rw [claimedAt?, Table.last?, rows, List.getLast?_map, Option.map_map]
  exact last

end Recording

section Runs

theorem recordAll_settled {t : Tables} (settled : t.RewardsSettled) (claims : List RewardClaim) :
    (t.performAll (claims.map .recordRewardClaim)).RewardsSettled := by
  induction claims generalizing t with
  | nil => exact settled
  | cons c rest ih => exact ih (settled.record c)

theorem rewardClaims_recordAll (t : Tables) (claims : List RewardClaim) :
    (t.performAll (claims.map .recordRewardClaim)).rewardClaims =
      claims.foldl (fun table c => table.insert c.key c) t.rewardClaims := by
  induction claims generalizing t with
  | nil => rfl
  | cons c rest ih => exact ih _

theorem recordAll_eq (t : Tables) (claims : List RewardClaim) :
    let after := t.performAll (claims.map .recordRewardClaim)
    after = { t with
      rewardClaims := after.rewardClaims, delegatorStatistics := after.delegatorStatistics } := by
  induction claims generalizing t with
  | nil => rfl
  | cons c rest ih => exact ih (t.recordRewardClaim c)

/-- The tables are settled by what the ledger holds. -/
theorem RewardsSettled.ext {s t : Tables} (hs : s.RewardsSettled) (ht : t.RewardsSettled)
    (same : s.rewardClaims = t.rewardClaims) : s.delegatorStatistics = t.delegatorStatistics := by
  refine Table.ext_find? fun ((holder, figure), height) => Option.ext fun r => ?_
  rw [hs.rows, ht.rows, ledger, ledger, same]

/-- Claims for different places leave the same ledger in every order. -/
theorem rewardClaims_perm {claims other : List RewardClaim} (order : claims.Perm other)
    (distinct : (claims.map RewardClaim.key).Nodup) (t : Tables) :
    (t.performAll (other.map .recordRewardClaim)).rewardClaims =
      (t.performAll (claims.map .recordRewardClaim)).rewardClaims := by
  have distinct' : (other.map RewardClaim.key).Nodup := (order.map _).nodup_iff.1 distinct
  refine Table.ext_find? fun key => Option.ext fun c => ?_
  rw [rewardClaims_recordAll, rewardClaims_recordAll, Table.find?_insertAll_of_nodup distinct,
    Table.find?_insertAll_of_nodup distinct', order.mem_iff, (order.map _).mem_iff]

/-- In whatever order claims were recorded, and however often a claim was corrected, the rows of a holder
are those of the ledger, which holds the last claim for each place. So they show at each height what was
claimed up to it, and the order is forgotten where no claim replaces another. -/
theorem claimed_rewards_of_ledger (claims : List RewardClaim) :
    let t := Tables.empty.performAll (claims.map .recordRewardClaim)
    (∀ key, t.rewardClaims.find? key = claims.reverse.find? fun c => c.key = key) ∧
      (∀ holder,
        (∀ c, c ∈ t.ledger holder ↔ c.holder = holder ∧ t.rewardClaims.find? c.key = some c) ∧
        ((t.ledger holder).Pairwise fun a b =>
          a.height < b.height ∨ a.height = b.height ∧ a.logIndex < b.logIndex) ∧
        (t.delegatorStatistics.filter fun key _ => key.1 == (holder, .claimedRewards)).entries =
          (RewardClaim.rows (t.ledger holder)).map (fun r =>
            (((holder, .claimedRewards), r.height), r)) ∧
        ((RewardClaim.rows (t.ledger holder)).Pairwise fun a b =>
          a.height < b.height ∧ a.amount < b.amount) ∧
        ∀ height, t.claimedAt? holder height =
          let paid := RewardClaim.sum ((t.ledger holder).filter (·.height ≤ height))
          if paid = 0 then none else some (.clamp paid)) ∧
      ∀ other : List RewardClaim, claims.Perm other → (claims.map RewardClaim.key).Nodup →
        Tables.empty.performAll (other.map .recordRewardClaim) = t := by
  intro t
  have settled : t.RewardsSettled := recordAll_settled empty_rewardsSettled claims
  refine ⟨fun key => ?_, fun holder => ⟨fun c => mem_ledger_iff settled.placed,
    ledger_ordered settled.placed holder, settled.entries_eq holder,
    RewardClaim.rows_rise (ledger_sorted settled.placed holder), settled.claimedAt?_eq holder⟩,
    fun other order distinct => ?_⟩
  · rw [rewardClaims_recordAll, Table.find?_insertAll]
    exact Option.or_none
  · have same := rewardClaims_perm order distinct empty
    have rows := (recordAll_settled empty_rewardsSettled other).ext settled same
    rw [recordAll_eq, same, rows]
    exact (recordAll_eq empty claims).symm

/-- Two payments of one holder, the later one recorded first. -/
theorem claimed_rewards_reordered :
    let late : RewardClaim := ⟨.zero, 20, 0, .ofSeconds 20, 7⟩
    let early : RewardClaim := ⟨.zero, 10, 3, .ofSeconds 10, 5⟩
    [early, late].Perm [late, early] ∧ ([early, late].map RewardClaim.key).Nodup ∧
      Tables.empty.performAll ([late, early].map .recordRewardClaim) =
        Tables.empty.performAll ([early, late].map .recordRewardClaim) := by
  intro late early
  have order : [early, late].Perm [late, early] := .swap ..
  have distinct : ([early, late].map RewardClaim.key).Nodup := by decide
  exact ⟨order, distinct, (claimed_rewards_of_ledger [early, late]).2.2 _ order distinct⟩

end Runs

end Tables
end StakeIndex
