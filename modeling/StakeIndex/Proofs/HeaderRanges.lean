import Mathlib.Data.List.Induction
import StakeIndex.Chain.HeaderCache
import StakeIndex.Proofs.Table

/-!
The ranges of blocks that a header cache keeps. However ranges are inserted, any two that are kept have a block
between them, and they cover nothing else than was inserted; a header starts its range, at the latest. Without
headers they cover all that was inserted, and since ranges with gaps between them are determined by the
blocks they cover, the order of insertion does not matter.
-/
namespace StakeIndex

namespace BlockRange

/-- Blocks in their order, with heights of 64 bits. -/
structure Valid (r : BlockRange) : Prop where
  ordered : r.first ≤ r.last
  low : r.last ≤ topHeight

def Covers (r : BlockRange) (height : Nat) : Prop := r.first ≤ height ∧ height ≤ r.last

/-- A range ends before another one begins, with a block between them. -/
def Before (a b : BlockRange) : Prop := a.last + 1 < b.first

variable {a b : BlockRange}

theorem Valid.covers_first (valid : a.Valid) : a.Covers a.first := ⟨Nat.le_refl _, valid.ordered⟩

-- The last height has no next one, but no range begins behind it either.
theorem touches_iff (valid : a.Valid) (valid' : b.Valid) :
    a.touches b ↔ a.first ≤ b.last + 1 ∧ b.first ≤ a.last + 1 := by
  obtain ⟨ordered, low⟩ := valid
  obtain ⟨ordered', low'⟩ := valid'
  unfold touches
  rw [Bool.and_eq_true, decide_eq_true_eq, decide_eq_true_eq]
  omega

end BlockRange

namespace HeaderCache

section Merging

variable {range : BlockRange} {header : Option BlockHeader} {touching : List CoveredRange} {h : BlockHeader}

theorem foldl_iff {ι : Type} {op : Nat → Nat → Nat} {holds : Nat → Prop} {f : ι → Nat}
    (both : ∀ m n, holds (op m n) ↔ holds m ∧ holds n) (items : List ι) (start : Nat) :
    holds (items.foldl (fun n i => op n (f i)) start) ↔ holds start ∧ ∀ i ∈ items, holds (f i) := by
  induction items generalizing start with
  | nil => simp
  | cons i rest ih => rw [List.foldl_cons, ih, both, List.forall_mem_cons, and_assoc]

/-- The blocks from the first to the last one of some ranges. -/
def span (range : BlockRange) (touching : List CoveredRange) : BlockRange where
  first := touching.foldl (fun n stored => min n stored.range.first) range.first
  last := touching.foldl (fun n stored => max n stored.range.last) range.last

theorem le_span_first_iff {n : Nat} :
    n ≤ (span range touching).first ↔ n ≤ range.first ∧ ∀ c ∈ touching, n ≤ c.range.first :=
  foldl_iff (fun _ _ => Nat.le_min) touching range.first

theorem span_last_le_iff {n : Nat} :
    (span range touching).last ≤ n ↔ range.last ≤ n ∧ ∀ c ∈ touching, c.range.last ≤ n :=
  @foldl_iff _ max (· ≤ n) _ (fun _ _ => Nat.max_le) touching range.last

theorem span_first_le (range : BlockRange) (touching : List CoveredRange) :
    (span range touching).first ≤ range.first ∧
      ∀ c ∈ touching, (span range touching).first ≤ c.range.first :=
  le_span_first_iff.1 (Nat.le_refl _)

theorem le_span_last (range : BlockRange) (touching : List CoveredRange) :
    range.last ≤ (span range touching).last ∧ ∀ c ∈ touching, c.range.last ≤ (span range touching).last :=
  span_last_le_iff.1 (Nat.le_refl _)

/-- The header of a merged range, before it is known to be in the range. -/
def candidate (header : Option BlockHeader) (touching : List CoveredRange) : Option BlockHeader :=
  match header with
  | some h => some h
  | none => touching.foldl (fun best (stored : CoveredRange) => later best stored.header) none

theorem merge_eq (range : BlockRange) (header : Option BlockHeader) (touching : List CoveredRange) :
    merge range header touching =
      match (candidate header touching).filter (·.number ≤ (span range touching).last) with
      | some h => ⟨⟨max (span range touching).first h.number, (span range touching).last⟩, some h⟩
      | none => ⟨span range touching, none⟩ := rfl

theorem later_eq_some {a b : Option BlockHeader} (best : later a b = some h) : a = some h ∨ b = some h := by
  unfold later at best
  split at best
  · split at best
    · exact .inr best
    · exact .inl best
  · exact .inl best
  · exact .inr best

theorem foldl_later {start : Option BlockHeader}
    (best : touching.foldl (fun best (stored : CoveredRange) => later best stored.header) start = some h) :
    start = some h ∨ ∃ c ∈ touching, c.header = some h := by
  induction touching generalizing start with
  | nil => exact .inl best
  | cons c rest ih =>
    rcases ih best with latest | ⟨c', among, its⟩
    · exact (later_eq_some latest).imp_right fun its => ⟨c, List.mem_cons_self, its⟩
    · exact .inr ⟨c', List.mem_cons_of_mem _ among, its⟩

theorem candidate_eq_some (best : candidate header touching = some h) :
    header = some h ∨ header = none ∧ ∃ c ∈ touching, c.header = some h := by
  cases header with
  | some given => exact .inl best
  | none => exact .inr ⟨rfl, (foldl_later best).resolve_left nofun⟩

/-- A merged range ends where the ranges end, and begins with them or with its header. -/
theorem merge_cases (range : BlockRange) (header : Option BlockHeader) (touching : List CoveredRange) :
    merge range header touching = ⟨span range touching, none⟩ ∨
      ∃ h, candidate header touching = some h ∧ h.number ≤ (span range touching).last ∧
        merge range header touching =
          ⟨⟨max (span range touching).first h.number, (span range touching).last⟩, some h⟩ := by
  rw [merge_eq]
  cases kept : (candidate header touching).filter (·.number ≤ (span range touching).last) with
  | none => exact .inl rfl
  | some h =>
    obtain ⟨best, inside⟩ := Option.filter_eq_some_iff.1 kept
    exact .inr ⟨h, best, of_decide_eq_true inside, rfl⟩

theorem merge_header (its : (merge range header touching).header = some h) :
    candidate header touching = some h ∧
      (merge range header touching).range.first = max (span range touching).first h.number := by
  obtain same | ⟨h', best, -, same⟩ := merge_cases range header touching
  · rw [same] at its
    cases its
  · rw [same] at its ⊢
    cases its
    exact ⟨best, rfl⟩

theorem merge_within (range : BlockRange) (header : Option BlockHeader) (touching : List CoveredRange) :
    (span range touching).first ≤ (merge range header touching).range.first ∧
      (merge range header touching).range.last = (span range touching).last := by
  obtain same | ⟨h, -, -, same⟩ := merge_cases range header touching
  · rw [same]
    exact ⟨Nat.le_refl _, rfl⟩
  · rw [same]
    exact ⟨Nat.le_max_left .., rfl⟩

variable (valid : range.Valid) (touches : ∀ c ∈ touching, c.range.Valid ∧ c.range.touches range)
include valid touches

theorem span_valid : (span range touching).Valid := by
  have first := (span_first_le range touching).1
  have last := (le_span_last range touching).1
  have ordered := valid.ordered
  exact ⟨by omega, span_last_le_iff.2 ⟨valid.low, fun c among => (touches c among).1.low⟩⟩

variable (header) in
theorem merge_valid : (merge range header touching).range.Valid := by
  have whole := span_valid valid touches
  obtain same | ⟨h, -, inside, same⟩ := merge_cases range header touching
  · rw [same]
    exact whole
  · rw [same]
    exact ⟨Nat.max_le.2 ⟨whole.ordered, inside⟩, whole.low⟩

/-- Ranges that touch one range leave no gap between each other. -/
theorem span_covers_iff {height : Nat} : (span range touching).Covers height ↔
    range.Covers height ∨ ∃ c ∈ touching, c.range.Covers height := by
  constructor
  · rintro ⟨above, below⟩
    by_contra outside
    obtain ⟨beside, none⟩ := not_or.1 outside
    have apart (c : CoveredRange) (among : c ∈ touching) : ¬c.range.Covers height :=
      fun covers => none ⟨c, among, covers⟩
    have ordered := valid.ordered
    -- Whatever reaches to the height from its side of the inserted range would cover it.
    rcases Nat.lt_or_ge height range.first with before | after
    · have far : height + 1 ≤ (span range touching).first :=
        le_span_first_iff.2 ⟨before, fun c among => by
          obtain ⟨own, touch⟩ := touches c among
          have touch := ((BlockRange.touches_iff own valid).1 touch).2
          have outside := apart c among
          unfold BlockRange.Covers at outside
          omega⟩
      omega
    · have behind : range.last < height := by
        unfold BlockRange.Covers at beside
        omega
      have short : (span range touching).last ≤ height - 1 :=
        span_last_le_iff.2 ⟨by omega, fun c among => by
          obtain ⟨own, touch⟩ := touches c among
          have touch := ((BlockRange.touches_iff own valid).1 touch).1
          have outside := apart c among
          unfold BlockRange.Covers at outside
          omega⟩
      omega
  · obtain ⟨first, firsts⟩ := span_first_le range touching
    obtain ⟨last, lasts⟩ := le_span_last range touching
    rintro (⟨above, below⟩ | ⟨c, among, above, below⟩)
    · exact ⟨Nat.le_trans first above, Nat.le_trans below last⟩
    · exact ⟨Nat.le_trans (firsts c among) above, Nat.le_trans below (lasts c among)⟩

theorem merge_covers {height : Nat} (covers : (merge range header touching).range.Covers height) :
    range.Covers height ∨ ∃ c ∈ touching, c.range.Covers height := by
  obtain ⟨first, last⟩ := merge_within range header touching
  obtain ⟨above, below⟩ := covers
  exact (span_covers_iff valid touches).1 ⟨Nat.le_trans first above, last ▸ below⟩

end Merging

/-- Ranges of blocks stand under their first blocks, and any two of them have a block between them. -/
structure Separated (ranges : Table Nat CoveredRange) : Prop where
  keyed : ∀ first c, ranges.find? first = some c → c.range.first = first
  valid : ∀ c ∈ ranges.values, c.range.Valid
  apart : ∀ c ∈ ranges.values, ∀ c' ∈ ranges.values, c.range.first < c'.range.first →
    c.range.Before c'.range

namespace Separated

variable {ranges ranges' : Table Nat CoveredRange} {c c' : CoveredRange} {height : Nat}

theorem find?_of_mem (separated : Separated ranges) (among : c ∈ ranges.values) :
    ranges.find? c.range.first = some c := by
  obtain ⟨first, found⟩ := Table.mem_values_iff.1 among
  rwa [separated.keyed first c found]

theorem eq_of_first (separated : Separated ranges) (among : c ∈ ranges.values) (among' : c' ∈ ranges.values)
    (same : c.range.first = c'.range.first) : c = c' := by
  have found := separated.find?_of_mem among
  rw [same, separated.find?_of_mem among'] at found
  exact (Option.some.inj found).symm

theorem before_or (separated : Separated ranges) (among : c ∈ ranges.values) (among' : c' ∈ ranges.values)
    (other : c ≠ c') : c.range.Before c'.range ∨ c'.range.Before c.range := by
  rcases Nat.lt_trichotomy c.range.first c'.range.first with less | same | less
  · exact .inl (separated.apart c among c' among' less)
  · exact absurd (separated.eq_of_first among among' same) other
  · exact .inr (separated.apart c' among' c among less)

/-- A range that covers a block next to another one, or in it, is that one. -/
theorem eq_of_near (separated : Separated ranges) (among : c ∈ ranges.values) (among' : c' ∈ ranges.values)
    (covers : c'.range.Covers height) (low : c.range.first ≤ height + 1) (high : height ≤ c.range.last + 1) :
    c = c' := by
  obtain ⟨above, below⟩ := covers
  by_contra other
  obtain before | before := separated.before_or among among' other
  · unfold BlockRange.Before at before
    omega
  · unfold BlockRange.Before at before
    omega

/-- Blocks that are covered by some ranges. -/
def Covered (ranges : Table Nat CoveredRange) (height : Nat) : Prop :=
  ∃ c ∈ ranges.values, c.range.Covers height

/-- Of ranges that cover the same blocks, two that have a block in common begin and end alike. -/
theorem within (separated' : Separated ranges')
    (same : ∀ height, Covered ranges height ↔ Covered ranges' height) (among : c ∈ ranges.values)
    (among' : c' ∈ ranges'.values) (covers : c.range.Covers height) (covers' : c'.range.Covers height) :
    c'.range.first ≤ c.range.first ∧ c.range.last ≤ c'.range.last := by
  obtain ⟨above, below⟩ := covers
  obtain ⟨above', below'⟩ := covers'
  -- The block beside the other range would be covered there as well.
  constructor
  · by_contra first
    obtain ⟨d, among_d, covers⟩ := (same (c'.range.first - 1)).1 ⟨c, among, by omega, by omega⟩
    obtain rfl := separated'.eq_of_near among' among_d covers (by omega) (by omega)
    have wrong := covers.1
    omega
  · by_contra last
    obtain ⟨d, among_d, covers⟩ := (same (c'.range.last + 1)).1 ⟨c, among, by omega, by omega⟩
    obtain rfl := separated'.eq_of_near among' among_d covers (by omega) (by omega)
    have wrong := covers.2
    omega

theorem range_unique (separated : Separated ranges) (separated' : Separated ranges')
    (same : ∀ height, Covered ranges height ↔ Covered ranges' height) (among : c ∈ ranges.values) :
    ∃ c' ∈ ranges'.values, c'.range = c.range := by
  have covers := (separated.valid c among).covers_first
  obtain ⟨c', among', covers'⟩ := (same c.range.first).1 ⟨c, among, covers⟩
  obtain ⟨first, last⟩ := separated'.within same among among' covers covers'
  obtain ⟨first', last'⟩ := separated.within (fun h => (same h).symm) among' among covers' covers
  refine ⟨c', among', ?_⟩
  rw [BlockRange.mk.injEq]
  exact ⟨Nat.le_antisymm first first', Nat.le_antisymm last' last⟩

/-- Ranges without headers are determined by the blocks they cover. -/
theorem eq_of_covered (separated : Separated ranges) (separated' : Separated ranges')
    (same : ∀ height, Covered ranges height ↔ Covered ranges' height)
    (bare : ∀ c ∈ ranges.values, c.header = none) (bare' : ∀ c ∈ ranges'.values, c.header = none) :
    ranges = ranges' := by
  have one {ranges ranges' : Table Nat CoveredRange} (separated : Separated ranges)
      (separated' : Separated ranges') (same : ∀ height, Covered ranges height ↔ Covered ranges' height)
      (bare : ∀ c ∈ ranges.values, c.header = none) (bare' : ∀ c ∈ ranges'.values, c.header = none)
      (first : Nat) (c : CoveredRange) (found : ranges.find? first = some c) :
      ranges'.find? first = some c := by
    have among := Table.mem_values_iff.2 ⟨first, found⟩
    obtain ⟨c', among', range⟩ := separated.range_unique separated' same among
    have equal : c' = c := by
      cases c
      cases c'
      rw [CoveredRange.mk.injEq]
      exact ⟨range, (bare' _ among').trans (bare _ among).symm⟩
    rw [← separated.keyed first c found, ← equal]
    exact separated'.find?_of_mem among'
  refine Table.ext_find? fun first => Option.ext fun c => ?_
  exact ⟨one separated separated' same bare bare' first c,
    one separated' separated (fun h => (same h).symm) bare' bare first c⟩

end Separated

section Inserting

variable {ranges : Table Nat CoveredRange} {range : BlockRange} {header : Option BlockHeader} {c : CoveredRange}

/-- The ranges that an inserted range is merged with. -/
def touched (ranges : Table Nat CoveredRange) (range : BlockRange) : List CoveredRange :=
  (ranges.filter fun _ stored => stored.range.touches range).values

theorem mem_touched_iff : c ∈ touched ranges range ↔ c ∈ ranges.values ∧ c.range.touches range := by
  unfold touched
  simp only [Table.mem_values_iff, Table.find?_filter, Option.filter_eq_some_iff]
  exact exists_and_right

namespace Separated

theorem touched_valid (separated : Separated ranges) :
    ∀ c ∈ touched ranges range, c.range.Valid ∧ c.range.touches range := by
  intro c among
  obtain ⟨stored, touch⟩ := mem_touched_iff.1 among
  exact ⟨separated.valid c stored, touch⟩

variable (separated : Separated ranges) (valid : range.Valid)
include separated valid

variable (header) in
/-- A range that does not touch the inserted one is apart from what that becomes. -/
theorem apart_merge (among : c ∈ ranges.values) (apart : ¬c.range.touches range) :
    c.range.Before (merge range header (touched ranges range)).range ∨
      (merge range header (touched ranges range)).range.Before c.range := by
  have own := separated.valid c among
  have other (d : CoveredRange) (touching : d ∈ touched ranges range) :
      (c.range.Before d.range ∨ d.range.Before c.range) ∧ range.first ≤ d.range.last + 1 ∧
        d.range.first ≤ range.last + 1 := by
    obtain ⟨stored, touch⟩ := mem_touched_iff.1 touching
    have different : c ≠ d := fun same => apart (same ▸ touch)
    have touch := (BlockRange.touches_iff (separated.valid d stored) valid).1 touch
    exact ⟨separated.before_or among stored different, touch.2, touch.1⟩
  obtain ⟨first, last⟩ := merge_within range header (touched ranges range)
  have ordered := valid.ordered
  have ordered' := own.ordered
  rw [BlockRange.touches_iff own valid, not_and_or] at apart
  unfold BlockRange.Before at other ⊢
  -- It is on the same side of all that are merged, since they reach to the inserted range.
  rcases apart with behind | before
  · have short : (span range (touched ranges range)).last ≤ c.range.first - 2 :=
      span_last_le_iff.2 ⟨by omega, fun d touching => by
        have side := other d touching
        omega⟩
    omega
  · have far : c.range.last + 2 ≤ (span range (touched ranges range)).first :=
      le_span_first_iff.2 ⟨by omega, fun d touching => by
        have side := other d touching
        omega⟩
    omega

theorem mem_insertRange_iff : c ∈ (insertRange ranges range header).values ↔
    c = merge range header (touched ranges range) ∨ c ∈ ranges.values ∧ ¬c.range.touches range := by
  unfold insertRange
  simp only [Table.mem_values_iff, Table.find?_insert, Table.find?_filter]
  constructor
  · rintro ⟨first, found⟩
    split at found
    · exact .inl (Option.some.inj found).symm
    · obtain ⟨found, apart⟩ := Option.filter_eq_some_iff.1 found
      exact .inr ⟨⟨first, found⟩, by simpa using apart⟩
  · rintro (rfl | ⟨stored, apart⟩)
    · exact ⟨_, if_pos rfl⟩
    · have among := Table.mem_values_iff.2 stored
      have found := separated.find?_of_mem among
      have different : c.range.first ≠ (merge range header (touched ranges range)).range.first := by
        have ordered := (separated.valid c among).ordered
        have ordered' := (merge_valid header valid separated.touched_valid).ordered
        have side := separated.apart_merge header valid among apart
        unfold BlockRange.Before at side
        omega
      refine ⟨c.range.first, (if_neg different).trans ?_⟩
      rw [found]
      exact Option.filter_eq_some_iff.2 ⟨rfl, by simpa using apart⟩

theorem inserted : Separated (insertRange ranges range header) where
  keyed first c found := by
    unfold insertRange at found
    rw [Table.find?_insert, Table.find?_filter] at found
    split at found
    next same =>
      cases found
      exact same.symm
    next => exact separated.keyed first c (Option.filter_eq_some_iff.1 found).1
  valid c among := by
    obtain rfl | ⟨stored, -⟩ := (separated.mem_insertRange_iff valid).1 among
    · exact merge_valid header valid separated.touched_valid
    · exact separated.valid c stored
  apart c among c' among' less := by
    have mine := (separated.mem_insertRange_iff valid).1 among
    have other := (separated.mem_insertRange_iff valid).1 among'
    have whole := merge_valid header valid separated.touched_valid
    rcases mine with rfl | ⟨stored, apart⟩ <;> rcases other with rfl | ⟨stored', apart'⟩
    · omega
    · have ordered := (separated.valid c' stored').ordered
      have side := separated.apart_merge header valid stored' apart'
      unfold BlockRange.Before at side ⊢
      omega
    · have ordered := whole.ordered
      have side := separated.apart_merge header valid stored apart
      unfold BlockRange.Before at side ⊢
      omega
    · exact separated.apart c stored c' stored' less

theorem covered_insertRange {height : Nat} (covered : Covered (insertRange ranges range header) height) :
    Covered ranges height ∨ range.Covers height := by
  obtain ⟨c, among, covers⟩ := covered
  obtain rfl | ⟨stored, -⟩ := (separated.mem_insertRange_iff valid).1 among
  · obtain covers | ⟨d, touching, covers⟩ := merge_covers valid separated.touched_valid covers
    · exact .inr covers
    · exact .inl ⟨d, (mem_touched_iff.1 touching).1, covers⟩
  · exact .inl ⟨c, stored, covers⟩

/-- Without headers, nothing that is covered is given up. -/
theorem covered_insertRange_iff {height : Nat} (bare : ∀ c ∈ ranges.values, c.header = none) :
    Covered (insertRange ranges range none) height ↔ Covered ranges height ∨ range.Covers height := by
  refine ⟨separated.covered_insertRange valid, fun covered => ?_⟩
  have whole : merge range none (touched ranges range) = ⟨span range (touched ranges range), none⟩ := by
    obtain same | ⟨h, best, -⟩ := merge_cases range none (touched ranges range)
    · exact same
    · obtain wrong | ⟨-, d, touching, its⟩ := candidate_eq_some best
      · cases wrong
      · rw [bare d (mem_touched_iff.1 touching).1] at its
        cases its
  have inside (part : range.Covers height ∨ ∃ d ∈ touched ranges range, d.range.Covers height) :
      Covered (insertRange ranges range none) height :=
    ⟨_, (separated.mem_insertRange_iff valid).2 (.inl whole.symm),
      (span_covers_iff valid separated.touched_valid).2 part⟩
  rcases covered with ⟨c, stored, covers⟩ | covers
  · by_cases touch : c.range.touches range
    · exact inside (.inr ⟨c, mem_touched_iff.2 ⟨stored, touch⟩, covers⟩)
    · exact ⟨c, (separated.mem_insertRange_iff valid).2 (.inr ⟨stored, touch⟩), covers⟩
  · exact inside (.inl covers)

end Separated

end Inserting

section Insertions

/-- A range of blocks, and a header if one is known. -/
abbrev Insertion := BlockRange × Option BlockHeader

/-- The new cache after some insertions, one after another. -/
def insertAll (insertions : List Insertion) : HeaderCache :=
  insertions.foldl (fun cache i => cache.insert i.1 i.2) .empty

theorem ranges_insertAll_concat (insertions : List Insertion) (i : Insertion) :
    (insertAll (insertions ++ [i])).ranges = insertRange (insertAll insertions).ranges i.1 i.2 := by
  unfold insertAll
  rw [List.foldl_append]
  rfl

/-- What ranges tell of the insertions they come from. -/
structure Summarises (insertions : List Insertion) (ranges : Table Nat CoveredRange) : Prop where
  separated : Separated ranges
  covered : ∀ height, Separated.Covered ranges height → ∃ i ∈ insertions, i.1.Covers height
  headers : ∀ c ∈ ranges.values, ∀ h, c.header = some h →
    (∃ i ∈ insertions, i.2 = some h) ∧ h.number ≤ c.range.first
  anchored : (∀ i ∈ insertions, ∀ h, i.2 = some h → i.1.Covers h.number) →
    ∀ c ∈ ranges.values, ∀ h, c.header = some h → h.number = c.range.first
  whole : (∀ i ∈ insertions, i.2 = none) →
    ∀ height, Separated.Covered ranges height ↔ ∃ i ∈ insertions, i.1.Covers height

namespace Summarises

variable {insertions : List Insertion} {ranges : Table Nat CoveredRange} {i : Insertion}

theorem bare (summary : Summarises insertions ranges) (headless : ∀ i ∈ insertions, i.2 = none) :
    ∀ c ∈ ranges.values, c.header = none := by
  intro c among
  cases its : c.header with
  | none => rfl
  | some h =>
    obtain ⟨⟨i, member, given⟩, -⟩ := summary.headers c among h its
    rw [headless i member] at given
    cases given

/-- One more insertion. -/
theorem inserted (summary : Summarises insertions ranges) (valid : i.1.Valid) :
    Summarises (insertions ++ [i]) (insertRange ranges i.1 i.2) where
  separated := summary.separated.inserted valid
  covered height covered := by
    obtain old | covers := summary.separated.covered_insertRange valid covered
    · obtain ⟨j, member, covers⟩ := summary.covered height old
      exact ⟨j, List.mem_append_left _ member, covers⟩
    · exact ⟨i, by simp, covers⟩
  headers c among h its := by
    obtain rfl | ⟨stored, -⟩ := (summary.separated.mem_insertRange_iff valid).1 among
    · obtain ⟨best, first⟩ := merge_header its
      refine ⟨?_, first ▸ Nat.le_max_right ..⟩
      obtain given | ⟨-, d, touching, its⟩ := candidate_eq_some best
      · exact ⟨i, by simp, given⟩
      · obtain ⟨⟨j, member, given⟩, -⟩ := summary.headers d (mem_touched_iff.1 touching).1 h its
        exact ⟨j, List.mem_append_left _ member, given⟩
    · obtain ⟨⟨j, member, given⟩, first⟩ := summary.headers c stored h its
      exact ⟨⟨j, List.mem_append_left _ member, given⟩, first⟩
  anchored inside c among h its := by
    obtain ⟨inside, last⟩ := List.forall_mem_append.1 inside
    have old := summary.anchored inside
    obtain rfl | ⟨stored, -⟩ := (summary.separated.mem_insertRange_iff valid).1 among
    · obtain ⟨best, first⟩ := merge_header its
      obtain ⟨low, lows⟩ := span_first_le i.1 (touched ranges i.1)
      rw [first]
      obtain given | ⟨-, d, touching, its⟩ := candidate_eq_some best
      · have above := (last i (List.mem_singleton_self i) h given).1
        omega
      · have above := old d (mem_touched_iff.1 touching).1 h its
        have low := lows d touching
        omega
    · exact old c stored h its
  whole headless height := by
    obtain ⟨headless, last⟩ := List.forall_mem_append.1 headless
    rw [last i (List.mem_singleton_self i),
      summary.separated.covered_insertRange_iff valid (summary.bare headless), summary.whole headless height]
    simp only [List.mem_append, List.mem_singleton, or_and_right, exists_or, exists_eq_left]

theorem start : Summarises [] HeaderCache.empty.ranges where
  separated := ⟨fun _ _ found => (nomatch found), fun _ among => (nomatch among), fun _ among => (nomatch among)⟩
  covered _ covered := by
    obtain ⟨_, among, -⟩ := covered
    cases among
  headers _ among := (nomatch among)
  anchored _ _ among := (nomatch among)
  whole _ height := by
    constructor <;> rintro ⟨_, wrong, -⟩ <;> cases wrong

/-- Any insertions of valid ranges. -/
theorem of_insertions (valid : ∀ i ∈ insertions, i.1.Valid) :
    Summarises insertions (insertAll insertions).ranges := by
  induction insertions using List.reverseRecOn with
  | nil => exact start
  | append_singleton insertions i ih =>
    obtain ⟨valid, last⟩ := List.forall_mem_append.1 valid
    rw [ranges_insertAll_concat]
    exact (ih valid).inserted (last i (List.mem_singleton_self i))

end Summarises

/-- The ranges after any insertions. Each stands under its first block, any two have a block between them, and
all blocks in them were inserted. A header in them was inserted, and its range begins with it or later; it
begins with it when all headers were inserted with ranges that they are in. Without headers the ranges cover
all blocks that were inserted, and are the same in whatever order that was done. -/
theorem ranges_of_insertions {insertions : List Insertion} (valid : ∀ i ∈ insertions, i.1.Valid) :
    let ranges := (insertAll insertions).ranges
    (∀ first c, (first, c) ∈ ranges.entries → first = c.range.first ∧ c.range.first ≤ c.range.last) ∧
    ranges.values.Pairwise (fun a b => a.range.last + 1 < b.range.first) ∧
    (∀ c ∈ ranges.values, ∀ height, c.range.Covers height → ∃ i ∈ insertions, i.1.Covers height) ∧
    (∀ c ∈ ranges.values, ∀ h, c.header = some h →
      (∃ i ∈ insertions, i.2 = some h) ∧ h.number ≤ c.range.first) ∧
    ((∀ i ∈ insertions, ∀ h, i.2 = some h → i.1.Covers h.number) →
      ∀ c ∈ ranges.values, ∀ h, c.header = some h → h.number = c.range.first) ∧
    ((∀ i ∈ insertions, i.2 = none) →
      (∀ height, (∃ c ∈ ranges.values, c.range.Covers height) ↔ ∃ i ∈ insertions, i.1.Covers height) ∧
      ∀ insertions', insertions.Perm insertions' → (insertAll insertions').ranges = ranges) := by
  intro ranges
  have summary : Summarises insertions ranges := .of_insertions valid
  refine ⟨fun first c among => ?_, ?_, fun c among height covers => summary.covered height ⟨c, among, covers⟩,
    summary.headers, summary.anchored, fun headless => ⟨summary.whole headless, fun insertions' order => ?_⟩⟩
  · have found := Table.find?_eq_some_iff.2 among
    have valid := summary.separated.valid c (Table.mem_values_iff.2 ⟨first, found⟩)
    exact ⟨(summary.separated.keyed first c found).symm, valid.ordered⟩
  · refine List.pairwise_map.2 (ranges.sorted.imp_of_mem fun {a b} among among' less => ?_)
    have key := summary.separated.keyed a.1 a.2 (Table.find?_eq_some_iff.2 among)
    have key' := summary.separated.keyed b.1 b.2 (Table.find?_eq_some_iff.2 among')
    refine summary.separated.apart a.2 (List.mem_map_of_mem among) b.2 (List.mem_map_of_mem among') ?_
    rw [key, key']
    exact Nat.compare_eq_lt.1 less
  · have summary' : Summarises insertions' (insertAll insertions').ranges :=
      .of_insertions fun i member => valid i (order.mem_iff.2 member)
    have headless' : ∀ i ∈ insertions', i.2 = none := fun i member => headless i (order.mem_iff.2 member)
    refine summary'.separated.eq_of_covered summary.separated (fun height => ?_) (summary'.bare headless')
      (summary.bare headless)
    rw [summary'.whole headless', summary.whole headless]
    simp only [order.mem_iff]

/-- Ranges up to the last height, one of them with a header and one that closes a gap. -/
theorem ranges_of_insertions_closed :
    let header : BlockHeader := ⟨60, .zero, 0⟩
    let insertions : List Insertion :=
      [(⟨21, 40⟩, none), (⟨50, topHeight⟩, some header), (⟨1, 10⟩, none), (⟨8, 20⟩, none)]
    let ranges := (insertAll insertions).ranges
    (∀ i ∈ insertions, i.1.Valid) ∧
    ranges.values = [⟨⟨1, 40⟩, none⟩, ⟨⟨60, topHeight⟩, some header⟩] ∧
    ranges.values.Pairwise (fun a b => a.range.last + 1 < b.range.first) ∧
    ∀ c ∈ ranges.values, ∀ h, c.header = some h → h.number = c.range.first := by
  intro header insertions ranges
  have valid : ∀ i ∈ insertions, i.1.Valid := by
    simp only [insertions, List.forall_mem_cons]
    exact ⟨⟨by decide, by decide⟩, ⟨by decide +kernel, Nat.le_refl _⟩, ⟨by decide, by decide⟩,
      ⟨by decide, by decide⟩, List.forall_mem_nil _⟩
  obtain ⟨-, apart, -, -, anchored, -⟩ := ranges_of_insertions valid
  refine ⟨valid, by decide +kernel, apart, anchored fun i member h given => ?_⟩
  simp only [insertions, List.mem_cons, List.not_mem_nil, or_false] at member
  rcases member with rfl | rfl | rfl | rfl <;> cases given
  exact ⟨by decide, by decide +kernel⟩

end Insertions

end HeaderCache
end StakeIndex
