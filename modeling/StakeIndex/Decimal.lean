import StakeIndex.Text.Numeral
import StakeIndex.Word

/-!
Decimal numbers as they are stored in numeric columns: an integer of digits and a count of places.
The same number has many such forms; reading keeps the form and printing shows it.
-/
namespace StakeIndex

/-- The number `digits / 10 ^ places`; negative places stand for zeros to add on the right. -/
structure Decimal where
  digits : Int
  places : Int
deriving DecidableEq, Repr

namespace Decimal

def ofInt (n : Int) : Decimal := ⟨n, 0⟩

instance : Inhabited Decimal := ⟨ofInt 0⟩

/-- Digits in which underscores after the first one are passed over. -/
def readDigits (cs : List Char) : Option Nat :=
  match cs with
  | [] => none
  | '_' :: _ => none
  | _ => cs.foldlM (fun n c => if c = '_' then some n else (Numeral.digit? c).map (10 * n + ·)) 0

/-- Digits behind an optional sign. -/
def readSigned (cs : List Char) : Option Int :=
  match cs with
  | '-' :: rest => (readDigits rest).map fun n => -(n : Int)
  | '+' :: rest => (readDigits rest).map fun n => (n : Int)
  | _ => (readDigits cs).map fun n => (n : Int)

/-- An exponent: digits only, behind an optional sign. -/
def readExponent (cs : List Char) : Option Int :=
  match cs with
  | '-' :: rest => (Numeral.digits? rest).map fun n => -(n : Int)
  | '+' :: rest => (Numeral.digits? rest).map fun n => (n : Int)
  | _ => (Numeral.digits? cs).map fun n => (n : Int)

/-- A decimal from text such as `12`, `-1.50` or `1e3`. -/
def read? (text : String) : Option Decimal := do
  let cs := text.toList
  let isMark := fun c => c = 'e' || c = 'E'
  let base := cs.takeWhile (fun c => !isMark c)
  let exponent ← match cs.dropWhile (fun c => !isMark c) with
    | [] => some 0
    | _ :: rest => readExponent rest
  let whole := base.takeWhile (· ≠ '.')
  let fraction := (base.dropWhile (· ≠ '.')).drop 1
  let digits ← readSigned (whole ++ fraction)
  let places : Int := ((fraction.filter (· ≠ '_')).length : Int) - exponent
  if -(1 <<< 63 : Nat) ≤ places ∧ places < (1 <<< 63 : Nat) then return ⟨digits, places⟩ else none

/-- The digits with a point before the last `places` of them, and at least one digit before it. -/
def withPoint (places : Nat) (ds : List Char) : List Char :=
  let filled := List.replicate (places + 1 - ds.length) '0' ++ ds
  filled.take (filled.length - places) ++ '.' :: filled.drop (filled.length - places)

def signedText (n : Int) : String := if n < 0 then toString n else "+" ++ toString n

/-- The text of a decimal with the digits that it was written with. More than fifteen zeros to add on
the right become an exponent, and so do more than five zeros after the point. -/
def text (d : Decimal) : String :=
  let ds := (toString d.digits.natAbs).toList
  let sign := if d.digits < 0 then "-" else ""
  if 0 < d.places ∧ 5 < d.places - ds.length then
    let exponent : Int := -d.places + (ds.length : Int) - 1
    let mantissa := match ds with
      | [] => []
      | [c] => [c]
      | c :: rest => c :: '.' :: rest
    sign ++ String.ofList mantissa ++ "E" ++ signedText exponent
  else if 0 < d.places then sign ++ String.ofList (withPoint d.places.toNat ds)
  else if 15 < -d.places then sign ++ String.ofList ds ++ "e" ++ signedText (-d.places)
  else sign ++ String.ofList (ds ++ List.replicate (-d.places).toNat '0')

def plainText (d : Decimal) : String :=
  let ds := (toString d.digits.natAbs).toList
  let sign := if d.digits < 0 then "-" else ""
  if 0 < d.places then sign ++ String.ofList (withPoint d.places.toNat ds)
  else if d.digits = 0 then "0"
  else sign ++ String.ofList (ds ++ List.replicate (-d.places).toNat '0')

/-- How often ten divides a positive number, counted at most `fuel` times. -/
def tens : Nat → Nat → Nat
  | 0, _ => 0
  | fuel + 1, n => if n ≠ 0 ∧ n % 10 = 0 then tens fuel (n / 10) + 1 else 0

/-- The form of the same number without zeros at the end of its digits. -/
def normalised (d : Decimal) : Decimal :=
  if d.digits = 0 then ⟨0, 0⟩
  else
    let n := d.digits.natAbs
    let k := tens (Nat.log2 n + 1) n
    ⟨d.digits / Nat.pow 10 k, d.places - k⟩

/-- The number without zero groups at the end of its digits, when these stand in groups of four; taken
away at most `fuel` times. -/
def dropGroups : Nat → Decimal → Decimal
  | 0, d => d
  | fuel + 1, d =>
    if d.digits ≠ 0 ∧ d.digits % 10000 = 0 then dropGroups fuel ⟨d.digits / 10000, d.places - 4⟩ else d

/-- The form of a number whose digits were kept in groups of four around the point. -/
def inGroups (d : Decimal) : Decimal :=
  if d.digits = 0 then ⟨0, 0⟩
  else
    let places := (d.places + 3) / 4 * 4
    let digits := d.digits * Nat.pow 10 (places - d.places).toNat
    dropGroups (Nat.log2 digits.natAbs + 1) ⟨digits, places⟩

/-- Why a decimal is no word of the chain. -/
inductive Fault where
  | negative
  | fractional
  | tooLarge
deriving DecidableEq, Repr

/-- The word that a decimal is equal to. No number with more than 78 zeros fits, so a long row of zeros
is never written out. -/
def toWord (d : Decimal) : Except Fault Word :=
  let n := d.normalised
  if n.digits < 0 then .error .negative
  else if 0 < n.places then .error .fractional
  else if 78 < -n.places then .error .tooLarge
  else match Word.ofNat? (n.digits.toNat * Nat.pow 10 (-n.places).toNat) with
    | some w => .ok w
    | none => .error .tooLarge

def ofWord (w : Word) : Decimal := ofInt w.toNat

/-- The decimal of an address: its 20 bytes as an integer. -/
def ofAddress (a : Address) : Decimal := ofInt a.toNat

def difference (before after : Word) : Decimal := ofInt ((after.toNat : Int) - before.toNat)

end Decimal
end StakeIndex
