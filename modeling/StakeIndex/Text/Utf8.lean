/-!
Reading text from bytes that may not be UTF-8: each longest start of a character that breaks off, and each
byte that starts none, becomes one replacement character.
-/
namespace StakeIndex.Utf8

/-- The character that stands for what is no text. -/
def replacement : Char := Char.ofNat 0xFFFD

/-- Whether a byte continues a character. -/
def isContinuation (b : UInt8) : Bool := 0x80 ≤ b && b ≤ 0xBF

/-- How many bytes follow a first byte, its share of the character, and the bounds of the second byte;
none if no character starts so. -/
def lead? (b : UInt8) : Option (Nat × Nat × UInt8 × UInt8) :=
  if 0xC2 ≤ b && b ≤ 0xDF then some (1, b.toNat - 0xC0, 0x80, 0xBF)
  else if b = 0xE0 then some (2, 0, 0xA0, 0xBF)
  else if b = 0xED then some (2, 13, 0x80, 0x9F)
  else if 0xE1 ≤ b && b ≤ 0xEF then some (2, b.toNat - 0xE0, 0x80, 0xBF)
  else if b = 0xF0 then some (3, 0, 0x90, 0xBF)
  else if b = 0xF4 then some (3, 4, 0x80, 0x8F)
  else if 0xF1 ≤ b && b ≤ 0xF3 then some (3, b.toNat - 0xF0, 0x80, 0xBF)
  else none

/-- The characters of some bytes. The state is the character begun: how many bytes it still lacks, its
bits so far and the bounds of its next byte. -/
def scan : Option (Nat × Nat × UInt8 × UInt8) → List UInt8 → List Char
  | none, [] => []
  | some _, [] => [replacement]
  | state, b :: rest =>
    let fresh := fun (_ : Unit) =>
      if b < 0x80 then Char.ofNat b.toNat :: scan none rest
      else match lead? b with
        | some begun => scan (some begun) rest
        | none => replacement :: scan none rest
    match state with
    | none => fresh ()
    | some (missing, bits, low, high) =>
      if low ≤ b && b ≤ high then
        let bits := bits * 64 + (b.toNat - 0x80)
        if missing ≤ 1 then Char.ofNat bits :: scan none rest
        else scan (some (missing - 1, bits, 0x80, 0xBF)) rest
      else replacement :: fresh ()

def text (bs : List UInt8) : String := String.ofList (scan none bs)

def bytes (s : String) : List UInt8 := s.toUTF8.toList

def read? (bs : List UInt8) : Option String :=
  if bytes (text bs) = bs then some (text bs) else none

end StakeIndex.Utf8
