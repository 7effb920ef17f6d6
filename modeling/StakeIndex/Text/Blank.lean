/-!
White space in the sense of Unicode, the pieces of a text, and values that go by fixed names.
-/
namespace StakeIndex

/-- The characters with the White_Space property. -/
def isBlank (c : Char) : Bool :=
  let n := c.toNat
  (9 ≤ n && n ≤ 13) || n == 0x20 || n == 0x85 || n == 0xA0 || n == 0x1680 ||
    (0x2000 ≤ n && n ≤ 0x200A) || n == 0x2028 || n == 0x2029 || n == 0x202F || n == 0x205F ||
    n == 0x3000

def dropBlanks (cs : List Char) : List Char := cs.dropWhile isBlank

def trimBlanks (cs : List Char) : List Char :=
  (dropBlanks (dropBlanks cs).reverse).reverse

def trimText (text : String) : String := String.ofList (trimBlanks text.toList)

/-- Letters of the English alphabet in lower case, all else unchanged. -/
def lowerText (text : String) : String := text.map Char.toLower

/-- The pieces of a text between the occurrences of a character. -/
def splitAtChar (mark : Char) : List Char → List (List Char)
  | [] => [[]]
  | c :: rest =>
    if c = mark then [] :: splitAtChar mark rest
    else match splitAtChar mark rest with
      | [] => [[c]]
      | piece :: pieces => (c :: piece) :: pieces

def occursIn (part : List Char) : List Char → Bool
  | [] => part.isEmpty
  | c :: rest => part.isPrefixOf (c :: rest) || occursIn part rest

/-- A type of finitely many values with a name for each. -/
class Named (α : Type) where
  all : List α
  name : α → String

namespace Named

def read? {α : Type} [Named α] (text : String) : Option α :=
  (Named.all : List α).find? fun a => Named.name a == text

end Named

end StakeIndex
