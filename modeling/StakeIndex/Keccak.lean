import StakeIndex.Word

/-!
The Keccak-256 digest: the sponge with 136 bytes of rate over the permutation of 25 lanes, and padding
that starts with the bit of value one.
-/
namespace StakeIndex.Keccak

/-- The constants that break the symmetry of the rounds. -/
def roundConstants : List UInt64 :=
  [0x0000000000000001, 0x0000000000008082, 0x800000000000808A, 0x8000000080008000,
   0x000000000000808B, 0x0000000080000001, 0x8000000080008081, 0x8000000000008009,
   0x000000000000008A, 0x0000000000000088, 0x0000000080008009, 0x000000008000000A,
   0x000000008000808B, 0x800000000000008B, 0x8000000000008089, 0x8000000000008003,
   0x8000000000008002, 0x8000000000000080, 0x000000000000800A, 0x800000008000000A,
   0x8000000080008081, 0x8000000000008080, 0x0000000080000001, 0x8000000080008008]

/-- How far each lane turns; lane `x + 5 * y` stands at column `x` of row `y`. -/
def turns : Array UInt64 :=
  #[0, 1, 62, 28, 27, 36, 44, 6, 55, 20, 3, 10, 43, 25, 39, 41, 45, 15, 21, 8, 18, 2, 61, 56, 14]

def turn (lane : UInt64) (by_ : UInt64) : UInt64 :=
  if by_ = 0 then lane else (lane <<< by_) ||| (lane >>> (64 - by_))

def lane (state : Array UInt64) (i : Nat) : UInt64 := state.getD i 0

/-- The sums of the columns spread over their neighbours. -/
def spread (state : Array UInt64) : Array UInt64 :=
  let sums := Array.ofFn fun x : Fin 5 =>
    lane state x ^^^ lane state (x + 5) ^^^ lane state (x + 10) ^^^ lane state (x + 15) ^^^
      lane state (x + 20)
  Array.ofFn fun i : Fin 25 =>
    lane state i ^^^ lane sums ((i + 4) % 5) ^^^ turn (lane sums ((i + 1) % 5)) 1

/-- The lanes turned and moved: the lane that comes to column `x` of row `y` was at column
`x + 3 * y` of row `x`. -/
def move (state : Array UInt64) : Array UInt64 :=
  Array.ofFn fun i : Fin 25 =>
    let x := i.val % 5
    let y := i.val / 5
    let source := (x + 3 * y) % 5 + 5 * x
    turn (lane state source) (turns.getD source 0)

/-- The one step that is not linear, along the rows. -/
def mix (state : Array UInt64) : Array UInt64 :=
  Array.ofFn fun i : Fin 25 =>
    let row := i.val / 5 * 5
    lane state i ^^^
      ((lane state (row + (i + 1) % 5) ^^^ 0xFFFFFFFFFFFFFFFF) &&& lane state (row + (i + 2) % 5))

def round (state : Array UInt64) (constant : UInt64) : Array UInt64 :=
  let mixed := mix (move (spread state))
  mixed.setIfInBounds 0 (lane mixed 0 ^^^ constant)

def permute (state : Array UInt64) : Array UInt64 := roundConstants.foldl round state

/-- Eight bytes as a lane, least significant first. -/
def laneOfBytes (bs : List UInt8) : UInt64 :=
  bs.foldr (fun b n => (n <<< 8) ||| b.toUInt64) 0

/-- A block of 136 bytes taken into the state. -/
def absorb (state : Array UInt64) (block : List UInt8) : Array UInt64 :=
  permute (Array.ofFn fun i : Fin 25 =>
    lane state i ^^^ laneOfBytes ((block.drop (8 * i)).take 8))

/-- Blocks one after another; the last one is padded and may hold padding only. -/
def absorbAll : Nat → Array UInt64 → List UInt8 → Array UInt64
  | 0, state, _ => state
  | fuel + 1, state, bs =>
    if bs.length < 136 then
      let missing := 136 - bs.length
      let padding := if missing = 1 then [0x81]
        else 0x01 :: (List.replicate (missing - 2) 0 ++ [0x80])
      absorb state (bs ++ padding)
    else absorbAll fuel (absorb state (bs.take 136)) (bs.drop 136)

/-- The eight bytes of a lane, least significant first. -/
def bytesOfLane (l : UInt64) : List UInt8 :=
  (List.range 8).map fun i => (l >>> (8 * UInt64.ofNat i)).toUInt8

/-- The 32 bytes of the digest. -/
def digest (bs : List UInt8) : List UInt8 :=
  let state := absorbAll (bs.length / 136 + 1) (Array.replicate 25 0) bs
  (List.range 4).flatMap fun i => bytesOfLane (lane state i)

def ofText (text : String) : List UInt8 := digest text.toUTF8.toList

end StakeIndex.Keccak

namespace StakeIndex.Address

/-- Hexadecimal text whose letters are capitals where the digest of the lower-case text has a digit of
eight or more. -/
def checksummed (a : Address) : String :=
  let lower := Hex.digits 40 a.toNat
  let marks := (Keccak.digest (String.ofList lower).toUTF8.toList).flatMap fun b =>
    [b.toNat / 16, b.toNat % 16]
  String.ofList ('0' :: 'x' ::
    (lower.zip marks).map fun (c, mark) => if 8 ≤ mark then c.toUpper else c)

end StakeIndex.Address
