import StakeIndex.Abi.Value
import StakeIndex.Text.Utf8

/-!
Reading contract values. Reading is lenient: bytes behind the values do not count, a word is taken whole
whatever the width of its type, and a tail may stand anywhere in the body around it. It fails where
bytes are missing, where a place or length is beyond the body, and where values are too deep inside each
other.
-/
namespace StakeIndex.Abi

/-- Bodies inside each other go at most this deep. -/
def depthLimit : Nat := 16

/-- A place in a body of values. -/
structure Cursor where
  body : List UInt8
  offset : Nat
  depth : Nat

namespace Cursor

def start (bs : List UInt8) : Cursor := ⟨bs, 0, 0⟩

def wordsLeft (c : Cursor) : Nat := (c.body.length - c.offset) / 32

/-- The next word, and the place behind it. -/
def word? (c : Cursor) : Option (List UInt8 × Cursor) :=
  if c.offset + 32 ≤ c.body.length then
    some ((c.body.drop c.offset).take 32, { c with offset := c.offset + 32 })
  else none

/-- The next word as a place or length, which must fit a register. -/
def size? (c : Cursor) : Option (Nat × Cursor) := do
  let (word, c) ← c.word?
  let n := Word.natOfBytes word
  if n < registerSize then return (n, c) else none

/-- The body that starts somewhere in this one. -/
def enter? (c : Cursor) (place : Nat) : Option Cursor :=
  if c.depth < depthLimit ∧ place ≤ c.body.length then
    some ⟨c.body.drop place, 0, c.depth + 1⟩
  else none

/-- The body at the place that the next word holds, and the place behind the word. -/
def follow? (c : Cursor) : Option (Cursor × Cursor) := do
  let (place, c) ← c.size?
  return (← c.enter? place, c)

/-- The bytes whose count comes first in a body. -/
def counted? (c : Cursor) : Option (List UInt8) := do
  let (size, c) ← c.size?
  if c.offset + size ≤ c.body.length then return (c.body.drop c.offset).take size else none

end Cursor

namespace Kind

/-- The value in a word of a type that takes one word. -/
def ofWord : Kind → List UInt8 → Value
  | bool, bs => .bool (bs.any (· ≠ 0))
  | uint bits, bs => .uint (.ofBytes bs) bits
  | int bits, bs =>
    let n := Word.natOfBytes bs
    .int (if n < 1 <<< 255 then n else (n : Int) - (1 <<< 256 : Nat)) bits
  | address, bs => .address (.ofWord (.ofBytes bs))
  | fixedBytes size, bs => .fixedBytes (bs.take size)
  | function, bs => .function (bs.take 24)
  | _, bs => .fixedBytes bs

def repeatRead (read : Cursor → Option (Value × Cursor)) :
    Nat → Cursor → Option (List Value × Cursor)
  | 0, c => some ([], c)
  | n + 1, c => do
    let (v, c) ← read c
    let (rest, c) ← repeatRead read n c
    return (v :: rest, c)

/-- Values that stand in a body of their own when they are dynamic, and in place when they are not. -/
def nested (dynamic : Bool) (read : Cursor → Option (List Value × Cursor)) (c : Cursor) :
    Option (List Value × Cursor) :=
  if dynamic then do
    let (inner, after) ← c.follow?
    let (values, _) ← read inner
    return (values, after)
  else do
    let inner ← c.enter? c.offset
    let (values, inner) ← read inner
    return (values, { c with offset := c.offset + inner.offset })

mutual

/-- The value of a type at a place. -/
def read : Kind → Cursor → Option (Value × Cursor)
  | bytes, c => do
    let (inner, after) ← c.follow?
    return (.bytes (← inner.counted?), after)
  | string, c => do
    let (inner, after) ← c.follow?
    return (.string (Utf8.text (← inner.counted?)), after)
  | array item, c => do
    let (inner, after) ← c.follow?
    let (count, inner) ← inner.size?
    if count = 0 then return (.array [], after)
    else
      let items ← inner.enter? inner.offset
      if items.wordsLeft < count * item.leastWords then none
      else
        let (values, _) ← repeatRead (read item) count items
        return (.array values, after)
  | fixedArray item size, c =>
    (nested (fixedArray item size).isDynamic (repeatRead (read item) size) c).map
      fun (values, after) => (.fixedArray values, after)
  | tuple parts, c =>
    (nested (anyDynamic parts) (readAll parts) c).map fun (values, after) => (.tuple values, after)
  | unknown _, _ => none
  | kind, c => c.word?.map fun (bs, after) => (kind.ofWord bs, after)

def readAll : List Kind → Cursor → Option (List Value × Cursor)
  | [], c => some ([], c)
  | kind :: rest, c => do
    let (v, c) ← read kind c
    let (values, c) ← readAll rest c
    return (v :: values, c)

end

mutual

/-- The only value of a type that takes no room. -/
def emptyValue : Kind → Value
  | fixedArray item size => .fixedArray (List.replicate size (emptyValue item))
  | tuple parts => .tuple (emptyValues parts)
  | _ => .tuple []

def emptyValues : List Kind → List Value
  | [] => []
  | kind :: rest => emptyValue kind :: emptyValues rest

end

end Kind

/-- The values of a list of types, encoded together. -/
def decode? (kinds : List Kind) (bs : List UInt8) : Option (List Value) :=
  let c := Cursor.start bs
  if Kind.areEmpty kinds then some (Kind.emptyValues kinds)
  else if c.wordsLeft < Kind.leastWordsOf kinds then none
  else (Kind.readAll kinds c).map (·.1)

/-- The values of a list of types, each looked for behind the one before. -/
def decodeEach (kinds : List Kind) (bs : List UInt8) : Option (List Value) :=
  go kinds (Cursor.start bs)
where
  go : List Kind → Cursor → Option (List Value)
    | [], _ => some []
    | kind :: rest, c =>
      if kind.isEmpty then (go rest c).map (kind.emptyValue :: ·)
      else if c.wordsLeft < kind.leastWords then none
      else do
        let (v, c) ← kind.read c
        return v :: (← go rest c)

end StakeIndex.Abi
