import StakeIndex.Abi.Value
import StakeIndex.Text.Utf8

/-!
Writing contract values: each list of values has a head of one place per value, and the dynamic values
follow the head, which holds where each of them starts.
-/
namespace StakeIndex.Abi

def wordOf (n : Nat) : List UInt8 := (Word.ofNat n).toBytes

/-- Bytes with zeros on the right, up to a whole number of words. -/
def padded (bs : List UInt8) : List UInt8 :=
  bs ++ List.replicate ((32 - bs.length % 32) % 32) 0

/-- The encoding of one value of a list: its bytes, and whether they stand behind the head. -/
structure Part where
  behind : Bool
  bytes : List UInt8

namespace Part

def headSize (p : Part) : Nat := if p.behind then 32 else p.bytes.length

/-- Heads and tails of parts; the tails start at some place. -/
def layOut : List Part → Nat → List UInt8 × List UInt8
  | [], _ => ([], [])
  | p :: rest, start =>
    if p.behind then
      let (heads, tails) := layOut rest (start + p.bytes.length)
      (wordOf start ++ heads, p.bytes ++ tails)
    else
      let (heads, tails) := layOut rest start
      (p.bytes ++ heads, tails)

def join (parts : List Part) : List UInt8 :=
  let (heads, tails) := layOut parts (parts.foldl (fun n p => n + p.headSize) 0)
  heads ++ tails

/-- Parts inside one value, which is dynamic if one of them is. -/
def group (parts : List Part) : Part := ⟨parts.any (·.behind), join parts⟩

end Part

namespace Value

mutual

def part : Value → Part
  | bool b => ⟨false, wordOf (if b then 1 else 0)⟩
  | uint n _ => ⟨false, n.toBytes⟩
  | int n _ => ⟨false, wordOf (n % (1 <<< 256 : Nat)).toNat⟩
  | address a => ⟨false, a.toWord.toBytes⟩
  | fixedBytes bs => ⟨false, padded bs⟩
  | function bs => ⟨false, padded bs⟩
  | bytes bs => ⟨true, wordOf bs.length ++ padded bs⟩
  | string s =>
    let bs := Utf8.bytes s
    ⟨true, wordOf bs.length ++ padded bs⟩
  | array items => ⟨true, wordOf items.length ++ Part.join (parts items)⟩
  | fixedArray items => Part.group (parts items)
  | tuple fields => Part.group (parts fields)

def parts : List Value → List Part
  | [] => []
  | v :: rest => part v :: parts rest

end

end Value

/-- The encoding of a list of values, as of the arguments of a call. -/
def encode (values : List Value) : List UInt8 := Part.join (Value.parts values)

end StakeIndex.Abi
