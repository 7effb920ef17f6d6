import StakeIndex.Job
import StakeIndex.Table

/-!
Headers that were read before, and the ranges of blocks that they cover. Ranges that touch are merged;
a range starts no earlier than the block of its header.
-/
namespace StakeIndex

/-- Blocks from one to another, both included. -/
structure BlockRange where
  first : Nat
  last : Nat
deriving DecidableEq, Repr, Inhabited

/-- Whether two ranges overlap or follow each other without a gap. -/
def BlockRange.touches (a b : BlockRange) : Bool :=
  a.first ≤ min (b.last + 1) topHeight && b.first ≤ min (a.last + 1) topHeight

structure CoveredRange where
  range : BlockRange
  header : Option BlockHeader
deriving DecidableEq, Repr, Inhabited

/-- Headers by the number in them, and ranges by their first block. -/
structure HeaderCache where
  ranges : Table Nat CoveredRange
  headers : Table Nat BlockHeader
deriving Repr

namespace HeaderCache

def empty : HeaderCache := ⟨∅, ∅⟩

instance : Inhabited HeaderCache := ⟨empty⟩

/-- The later of two headers, the first one if they are of one block. -/
def later : Option BlockHeader → Option BlockHeader → Option BlockHeader
  | some a, some b => some (if a.number < b.number then b else a)
  | some a, none => some a
  | none, b => b

/-- A range merged with ranges that touch it. A header given with the range counts before theirs; a
header of a block beyond the merged range does not count. -/
def merge (range : BlockRange) (header : Option BlockHeader) (touching : List CoveredRange) :
    CoveredRange :=
  let first := touching.foldl (fun n stored => min n stored.range.first) range.first
  let last := touching.foldl (fun n stored => max n stored.range.last) range.last
  let best : Option BlockHeader := match header with
    | some h => some h
    | none => touching.foldl (fun best (stored : CoveredRange) => later best stored.header) none
  match best.filter (·.number ≤ last) with
  | some h => ⟨⟨max first h.number, last⟩, some h⟩
  | none => ⟨⟨first, last⟩, none⟩

def insertRange (ranges : Table Nat CoveredRange) (range : BlockRange)
    (header : Option BlockHeader) : Table Nat CoveredRange :=
  let merged := merge range header (ranges.filter fun _ stored => stored.range.touches range).values
  (ranges.filter fun _ stored => !stored.range.touches range).insert merged.range.first merged

/-- The cache with a range of blocks, and a header if one is known. -/
def insert (cache : HeaderCache) (range : BlockRange) (header : Option BlockHeader) :
    HeaderCache where
  ranges := insertRange cache.ranges range header
  headers := match header with
    | some h => cache.headers.insert h.number h
    | none => cache.headers

def get? (cache : HeaderCache) (height : Nat) : Option BlockHeader := cache.headers.find? height

/-- The header of a block from the cache, or else from the chain; the cache keeps what it gets. -/
def fetch (cache : HeaderCache) (height : Nat) : Steps (Except Stop BlockHeader × HeaderCache) :=
  match cache.get? height with
  | some header => return (.ok header, cache)
  | none => do
    match ← (Job.header height).outcome with
    | .ok header => return (.ok header, cache.insert ⟨height, height⟩ (some header))
    | .error stop => return (.error stop, cache)

end HeaderCache
end StakeIndex
