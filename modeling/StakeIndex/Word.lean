import StakeIndex.Text.Hex
import StakeIndex.Text.Numeral

/-!
The chain's fixed-width values: 256-bit words, 160-bit addresses and 256-bit hashes. Each is a natural
number with its bound, so that arithmetic is arithmetic of numbers and the order is the numbers' order.
-/
namespace StakeIndex

/-- The first value beyond a 64-bit register, in which heights, positions and times are kept. -/
def registerSize : Nat := 1 <<< 64

/-- The greatest block height there can be. -/
def topHeight : Nat := (1 <<< 64) - 1

/-- An unsigned integer of 256 bits. -/
structure Word where
  toNat : Nat
  toNat_lt : toNat < 1 <<< 256
deriving DecidableEq, Repr

namespace Word

@[ext] theorem ext {a b : Word} (h : a.toNat = b.toNat) : a = b := by
  cases a; cases b; cases h; rfl

def ofNat? (n : Nat) : Option Word :=
  if h : n < 1 <<< 256 then some ⟨n, h⟩ else none

/-- The word of a number modulo 2^256. -/
def ofNat (n : Nat) : Word :=
  ⟨n % (1 <<< 256), Nat.mod_lt _ (by decide)⟩

/-- The greatest word not above a number. -/
def clamp (n : Nat) : Word :=
  ⟨min n ((1 <<< 256) - 1), by
    have : 0 < 1 <<< 256 := by decide
    omega⟩

instance (n : Nat) : OfNat Word n := ⟨ofNat n⟩
instance : Inhabited Word := ⟨0⟩
instance : LT Word := ⟨fun a b => a.toNat < b.toNat⟩
instance : LE Word := ⟨fun a b => a.toNat ≤ b.toNat⟩
instance (a b : Word) : Decidable (a < b) := inferInstanceAs (Decidable (a.toNat < b.toNat))
instance (a b : Word) : Decidable (a ≤ b) := inferInstanceAs (Decidable (a.toNat ≤ b.toNat))
instance : Ord Word := ⟨compareOn toNat⟩
instance : Std.TransOrd Word := inferInstanceAs (Std.TransCmp (compareOn toNat))
instance : Std.LawfulEqOrd Word where
  eq_of_compare h := ext (Nat.compare_eq_eq.1 h)

/-- A sum that stops at the greatest word. -/
def saturatingAdd (a b : Word) : Word := clamp (a.toNat + b.toNat)

def next? (a : Word) : Option Word := ofNat? (a.toNat + 1)

/-- The value as a 64-bit number, the greatest one for all values beyond. -/
def toHeight (a : Word) : Nat := min a.toNat topHeight

def decimal (a : Word) : String := toString a.toNat

def hex (a : Word) : String := Hex.number a.toNat

/-- One more digit in a radix up to sixteen; an underscore is passed over. -/
def pushDigit (radix : Nat) (n : Nat) (c : Char) : Option Nat :=
  if c = '_' then some n
  else do
    let d ← Hex.value? c
    if d < radix then some (radix * n + d) else none

/-- A word from text: decimal, or hexadecimal, octal or binary digits behind `0x`, `0o` or `0b`. No
digits at all stand for zero. -/
def read? (text : String) : Option Word := do
  let (radix, cs) := match text.toList with
    | '0' :: 'x' :: rest => (16, rest)
    | '0' :: 'X' :: rest => (16, rest)
    | '0' :: 'o' :: rest => (8, rest)
    | '0' :: 'O' :: rest => (8, rest)
    | '0' :: 'b' :: rest => (2, rest)
    | '0' :: 'B' :: rest => (2, rest)
    | cs => (10, cs)
  ofNat? (← cs.foldlM (pushDigit radix) 0)

/-- The 32 bytes of a word, most significant first. -/
def toBytes (a : Word) : List UInt8 :=
  (List.range 32).map fun i => UInt8.ofNat (a.toNat >>> (8 * (31 - i)))

/-- The number that bytes stand for, most significant first. -/
def natOfBytes (bs : List UInt8) : Nat :=
  bs.foldl (fun n b => 256 * n + b.toNat) 0

/-- The word in the first bytes of a list, read as if zeros followed a shorter one. -/
def ofBytes (bs : List UInt8) : Word := ofNat (natOfBytes bs)

end Word

structure Address where
  toNat : Nat
  toNat_lt : toNat < 1 <<< 160
deriving DecidableEq, Repr

namespace Address

@[ext] theorem ext {a b : Address} (h : a.toNat = b.toNat) : a = b := by
  cases a; cases b; cases h; rfl

def ofNat? (n : Nat) : Option Address :=
  if h : n < 1 <<< 160 then some ⟨n, h⟩ else none

/-- The address in the low 20 bytes of a word. -/
def ofWord (w : Word) : Address :=
  ⟨w.toNat % (1 <<< 160), Nat.mod_lt _ (by decide)⟩

/-- The address that is no account. -/
def zero : Address := ⟨0, by decide⟩

instance : Inhabited Address := ⟨zero⟩
instance : LT Address := ⟨fun a b => a.toNat < b.toNat⟩
instance : LE Address := ⟨fun a b => a.toNat ≤ b.toNat⟩
instance (a b : Address) : Decidable (a < b) := inferInstanceAs (Decidable (a.toNat < b.toNat))
instance (a b : Address) : Decidable (a ≤ b) := inferInstanceAs (Decidable (a.toNat ≤ b.toNat))
instance : Ord Address := ⟨compareOn toNat⟩
instance : Std.TransOrd Address := inferInstanceAs (Std.TransCmp (compareOn toNat))
instance : Std.LawfulEqOrd Address where
  eq_of_compare h := ext (Nat.compare_eq_eq.1 h)

def toWord (a : Address) : Word :=
  ⟨a.toNat, Nat.lt_trans a.toNat_lt (by decide)⟩

/-- Lower-case hexadecimal text of all 20 bytes. -/
def hex (a : Address) : String := Hex.fixed 20 a.toNat

/-- An address from 40 hexadecimal digits with an optional `0x`. -/
def read? (text : String) : Option Address :=
  (Hex.fixed? 20 text).bind ofNat?

/-- The address whose 20 bytes are all the same. -/
def repeated (b : UInt8) : Address :=
  ofWord (Word.ofBytes (List.replicate 20 b))

end Address

/-- A transaction's or block's identity, or a topic of a log. -/
structure Hash where
  toNat : Nat
  toNat_lt : toNat < 1 <<< 256
deriving DecidableEq, Repr

namespace Hash

@[ext] theorem ext {a b : Hash} (h : a.toNat = b.toNat) : a = b := by
  cases a; cases b; cases h; rfl

def ofWord (w : Word) : Hash := ⟨w.toNat, w.toNat_lt⟩

def toWord (h : Hash) : Word := ⟨h.toNat, h.toNat_lt⟩

def zero : Hash := ⟨0, by decide⟩

instance : Inhabited Hash := ⟨zero⟩
instance : LT Hash := ⟨fun a b => a.toNat < b.toNat⟩
instance : LE Hash := ⟨fun a b => a.toNat ≤ b.toNat⟩
instance (a b : Hash) : Decidable (a < b) := inferInstanceAs (Decidable (a.toNat < b.toNat))
instance (a b : Hash) : Decidable (a ≤ b) := inferInstanceAs (Decidable (a.toNat ≤ b.toNat))
instance : Ord Hash := ⟨compareOn toNat⟩
instance : Std.TransOrd Hash := inferInstanceAs (Std.TransCmp (compareOn toNat))
instance : Std.LawfulEqOrd Hash where
  eq_of_compare h := ext (Nat.compare_eq_eq.1 h)

def toBytes (h : Hash) : List UInt8 := h.toWord.toBytes

def ofBytes (bs : List UInt8) : Hash := ofWord (Word.ofBytes bs)

/-- Lower-case hexadecimal text of all 32 bytes. -/
def hex (h : Hash) : String := Hex.fixed 32 h.toNat

/-- A hash from 64 hexadecimal digits with an optional `0x`. -/
def read? (text : String) : Option Hash :=
  (Hex.fixed? 32 text).map fun n => ofWord (Word.ofNat n)

end Hash
end StakeIndex
