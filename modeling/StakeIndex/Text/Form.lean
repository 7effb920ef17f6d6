import StakeIndex.Text.Blank
import StakeIndex.Text.Hex
import StakeIndex.Text.Utf8

/-!
Text in addresses of the web: bytes written as a percent sign with two hexadecimal digits, and the query
of an address as pairs of names and values.
-/
namespace StakeIndex.Form

/-- Bytes with every percent sign before two hexadecimal digits replaced by their byte. -/
def percentDecode : List UInt8 → List UInt8
  | 0x25 :: a :: b :: rest =>
    match Hex.value? (Char.ofNat a.toNat), Hex.value? (Char.ofNat b.toNat) with
    | some high, some low => UInt8.ofNat (16 * high + low) :: percentDecode rest
    | _, _ => 0x25 :: percentDecode (a :: b :: rest)
  | b :: rest => b :: percentDecode rest
  | [] => []
termination_by bs => bs.length

/-- The text of a part of a query, in which a plus sign is a blank. -/
def decodePart (cs : List Char) : String :=
  let spaced := cs.map fun c => if c = '+' then ' ' else c
  Utf8.text (percentDecode (Utf8.bytes (String.ofList spaced)))

/-- The pairs of a query; a name without an equals sign has the empty value. -/
def pairs (query : List Char) : List (String × String) :=
  ((splitAtChar '&' query).filter fun part => !part.isEmpty).map fun part =>
    (decodePart (part.takeWhile (· ≠ '=')), decodePart ((part.dropWhile (· ≠ '=')).drop 1))

/-- The last value of a name. -/
def last? (name : String) (pairs : List (String × String)) : Option String :=
  (pairs.reverse.find? fun pair => pair.1 == name).map (·.2)

end StakeIndex.Form
