import StakeIndex.Text.Blank
import StakeIndex.Text.Numeral

/-!
The types of contract values, their names and the room that they take in an encoding.
-/
namespace StakeIndex.Abi

/-- The type of a contract value. A name that stands for no type is kept, so that its owner is refused
only where it is used. -/
inductive Kind where
  | bool
  | uint (bits : Nat)
  | int (bits : Nat)
  | address
  | fixedBytes (size : Nat)
  | function
  | bytes
  | string
  | array (item : Kind)
  | fixedArray (item : Kind) (size : Nat)
  | tuple (parts : List Kind)
  | unknown (name : String)
deriving Inhabited, Repr

namespace Kind

mutual

def name : Kind → String
  | bool => "bool"
  | uint bits => "uint" ++ toString bits
  | int bits => "int" ++ toString bits
  | address => "address"
  | fixedBytes size => "bytes" ++ toString size
  | function => "function"
  | bytes => "bytes"
  | string => "string"
  | array item => name item ++ "[]"
  | fixedArray item size => name item ++ "[" ++ toString size ++ "]"
  | tuple parts => "(" ++ String.intercalate "," (names parts) ++ ")"
  | unknown name => name

def names : List Kind → List String
  | [] => []
  | part :: rest => name part :: names rest

end

mutual

/-- Whether every name in a type stands for a type. -/
def isKnown : Kind → Bool
  | unknown _ => false
  | array item => isKnown item
  | fixedArray item _ => isKnown item
  | tuple parts => areKnown parts
  | _ => true

def areKnown : List Kind → Bool
  | [] => true
  | part :: rest => isKnown part && areKnown rest

end

mutual

/-- Whether the length of an encoding depends on the value. -/
def isDynamic : Kind → Bool
  | bytes => true
  | string => true
  | array _ => true
  | fixedArray item _ => isDynamic item
  | tuple parts => anyDynamic parts
  | _ => false

def anyDynamic : List Kind → Bool
  | [] => false
  | part :: rest => isDynamic part || anyDynamic rest

end

mutual

/-- How many words must be left for a value: one for each dynamic one and each single word. -/
def leastWords : Kind → Nat
  | fixedArray item size => size * leastWords item
  | tuple parts => leastWordsOf parts
  | _ => 1

def leastWordsOf : List Kind → Nat
  | [] => 0
  | part :: rest => leastWords part + leastWordsOf rest

end

mutual

/-- Whether a type has one value only, which takes no room. -/
def isEmpty : Kind → Bool
  | fixedArray item size => size == 0 || isEmpty item
  | tuple parts => areEmpty parts
  | _ => false

def areEmpty : List Kind → Bool
  | [] => true
  | part :: rest => isEmpty part && areEmpty rest

end

/-- Whether a value takes exactly one word and stands in it. -/
def isSingleWord : Kind → Bool
  | bool => true
  | uint _ => true
  | int _ => true
  | address => true
  | fixedBytes _ => true
  | function => true
  | _ => false

def startsName (c : Char) : Bool := c.isAlpha || c = '_' || c = '$'

def isName : List Char → Bool
  | [] => false
  | c :: rest => startsName c && rest.all fun c => startsName c || c.isDigit

/-- The sizes in brackets at the end of a type, in their order; `none` is a size that is left open. -/
def sizes? : Nat → List Char → Option (List (Option Nat))
  | 0, _ => none
  | _ + 1, [] => some []
  | fuel + 1, '[' :: rest => do
    let digits := rest.takeWhile (· ≠ ']')
    let size ← if digits.isEmpty then some none else (Numeral.digits? digits).map some
    match rest.dropWhile (· ≠ ']') with
    | _ :: rest => if size = some 0 then none else return size :: (← sizes? fuel rest)
    | [] => none
  | _, _ => none

/-- The number behind a name. -/
def suffix? (start : String) (cs : List Char) : Option Nat := do
  if start.toList.isPrefixOf cs then
    let digits := cs.drop start.length
    if digits.head? = some '0' then none else Numeral.digits? digits
  else none

/-- The type with a name and no brackets. -/
def plain (cs : List Char) : Kind :=
  let text := String.ofList cs
  if text = "bool" then bool
  else if text = "address" then address
  else if text = "function" then function
  else if text = "bytes" then bytes
  else if text = "string" then string
  else
    let width := fun (make : Nat → Kind) (bits : Nat) =>
      if bits % 8 = 0 ∧ 8 ≤ bits ∧ bits ≤ 256 then make bits else unknown text
    match suffix? "uint" cs, suffix? "int" cs, suffix? "bytes" cs with
    | some bits, _, _ => width uint bits
    | _, some bits, _ => width int bits
    | _, _, some size => if 1 ≤ size ∧ size ≤ 32 then fixedBytes size else unknown text
    | _, _, _ => unknown text

/-- A type inside arrays of some sizes, the innermost first. -/
def within (kind : Kind) (sizes : List (Option Nat)) : Kind :=
  sizes.foldl (fun kind size =>
    match size with
    | none => array kind
    | some n => fixedArray kind n) kind

/-- The type that a text without components names: a name and brackets. An integer must have its
width. -/
def read? (text : String) : Option Kind := do
  let cs := text.toList
  let stem := cs.takeWhile (· ≠ '[')
  let sizes ← sizes? (cs.length + 1) (cs.dropWhile (· ≠ '['))
  if isName stem ∧ stem ≠ "uint".toList ∧ stem ≠ "int".toList then
    return (plain stem).within sizes
  else none

/-- The type of a text that starts with `tuple` and some components. -/
def ofComponents? (text : String) (parts : List Kind) : Option Kind :=
  let cs := text.toList
  if "tuple".toList.isPrefixOf cs then
    match sizes? (cs.length + 1) (cs.drop 5) with
    | some sizes => some ((tuple parts).within sizes)
    | none => some (unknown ((tuple parts).name ++ String.ofList (cs.drop 5)))
  else none

end Kind
end StakeIndex.Abi
