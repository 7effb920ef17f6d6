/-!
Hexadecimal text of numbers and of byte sequences. Writing is lower case; reading takes either case.
-/
namespace StakeIndex.Hex

def digit (n : Nat) : Char :=
  if n < 10 then Char.ofNat (48 + n) else Char.ofNat (87 + n)

def value? (c : Char) : Option Nat :=
  if '0' ≤ c ∧ c ≤ '9' then some (c.toNat - 48)
  else if 'a' ≤ c ∧ c ≤ 'f' then some (c.toNat - 87)
  else if 'A' ≤ c ∧ c ≤ 'F' then some (c.toNat - 55)
  else none

/-- The last `width` hexadecimal digits of a number, most significant first. -/
def digits : Nat → Nat → List Char
  | 0, _ => []
  | width + 1, n => digits width (n / 16) ++ [digit (n % 16)]

/-- The number of hexadecimal digits that a number needs, at least one. -/
def width (n : Nat) : Nat :=
  if n = 0 then 1 else Nat.log2 n / 4 + 1

/-- A number without leading zeros, introduced by `0x`. -/
def number (n : Nat) : String :=
  String.ofList ('0' :: 'x' :: digits (width n) n)

/-- A number as exactly `size` bytes, introduced by `0x`. -/
def fixed (size n : Nat) : String :=
  String.ofList ('0' :: 'x' :: digits (2 * size) n)

/-- The number that a list of hexadecimal digits stands for. -/
def number? (cs : List Char) : Option Nat :=
  cs.foldlM (fun n c => (value? c).map (16 * n + ·)) 0

/-- Bytes without an introduction. -/
def plain (bytes : List UInt8) : List Char :=
  bytes.flatMap fun b => digits 2 b.toNat

/-- Bytes introduced by `0x`. -/
def bytes (bs : List UInt8) : String :=
  String.ofList ('0' :: 'x' :: plain bs)

/-- Bytes from pairs of digits. -/
def plain? : List Char → Option (List UInt8)
  | [] => some []
  | [_] => none
  | a :: b :: rest => do
    let high ← value? a
    let low ← value? b
    let tail ← plain? rest
    return UInt8.ofNat (16 * high + low) :: tail

/-- Digits with an optional `0x` or `0X` in front. -/
def dropMark : List Char → List Char
  | '0' :: 'x' :: rest => rest
  | '0' :: 'X' :: rest => rest
  | cs => cs

/-- Bytes from text with an optional `0x` in front. -/
def bytes? (text : String) : Option (List UInt8) :=
  plain? (dropMark text.toList)

/-- A number written as exactly `size` bytes, with an optional `0x` in front. -/
def fixed? (size : Nat) (text : String) : Option Nat :=
  let cs := dropMark text.toList
  if cs.length = 2 * size then number? cs else none

end StakeIndex.Hex
