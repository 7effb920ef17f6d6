import StakeIndex.Text.Hex

/-!
JSON values. An object read from text has its members sorted by name with one value for each; a number
is an integer when it is written as one that a signed or unsigned 64-bit register holds, and is kept as
its text otherwise.
-/
namespace StakeIndex

inductive Json where
  | null
  | bool (b : Bool)
  | int (n : Int)
  | real (numeral : String)
  | text (s : String)
  | list (items : List Json)
  | object (members : List (String × Json))
deriving Inhabited, Repr

namespace Json

/-- No value that was read from a text has parts inside each other deeper than this. -/
def depthBound : Nat := 128

/-- Sets a member of a sorted list of members. -/
def setMember (name : String) (value : Json) : List (String × Json) → List (String × Json)
  | [] => [(name, value)]
  | (n, v) :: rest =>
    if name < n then (name, value) :: (n, v) :: rest
    else if name = n then (name, value) :: rest
    else (n, v) :: setMember name value rest

/-- The object of some members; of two with one name the later counts. -/
def ofMembers (members : List (String × Json)) : Json :=
  .object (members.foldl (fun ms (n, v) => setMember n v ms) [])

def nat (n : Nat) : Json := .int n

def optional {α : Type} (f : α → Json) : Option α → Json
  | none => .null
  | some a => f a

/-- The value of a member with some name, the last one if there are several. -/
def find (name : String) : List (String × Json) → Option Json
  | [] => none
  | (n, v) :: rest =>
    match find name rest with
    | some w => some w
    | none => if n = name then some v else none

def member? (j : Json) (name : String) : Option Json :=
  match j with
  | .object members => find name members
  | _ => none

def members? : Json → Option (List (String × Json))
  | .object members => some members
  | _ => none

def list? : Json → Option (List Json)
  | .list items => some items
  | _ => none

def text? : Json → Option String
  | .text s => some s
  | _ => none

def bool? : Json → Option Bool
  | .bool b => some b
  | _ => none

def int? : Json → Option Int
  | .int n => some n
  | _ => none

/-- An integer from zero up to below a bound. -/
def natBelow? (limit : Nat) : Json → Option Nat
  | .int n => if 0 ≤ n ∧ n < limit then some n.toNat else none
  | _ => none

def isNull : Json → Bool
  | .null => true
  | _ => false

/-- A value that is neither missing nor null. -/
def present? : Option Json → Option Json
  | some .null => none
  | j => j

def escape (c : Char) : List Char :=
  if c = '"' then ['\\', '"']
  else if c = '\\' then ['\\', '\\']
  else if c = '\n' then ['\\', 'n']
  else if c = '\r' then ['\\', 'r']
  else if c = '\t' then ['\\', 't']
  else if c.toNat = 8 then ['\\', 'b']
  else if c.toNat = 12 then ['\\', 'f']
  else if c.toNat < 32 then '\\' :: 'u' :: Hex.digits 4 c.toNat
  else [c]

def quoted (s : String) : String :=
  String.ofList ('"' :: (s.toList.flatMap escape ++ ['"']))

mutual

/-- The shortest text of a value, without blanks. -/
def print : Json → String
  | .null => "null"
  | .bool true => "true"
  | .bool false => "false"
  | .int n => toString n
  | .real numeral => numeral
  | .text s => quoted s
  | .list items => "[" ++ printItems items ++ "]"
  | .object members => "\x7b" ++ printMembers members ++ "\x7d"

def printItems : List Json → String
  | [] => ""
  | [item] => print item
  | item :: rest => print item ++ "," ++ printItems rest

def printMembers : List (String × Json) → String
  | [] => ""
  | [(name, value)] => quoted name ++ ":" ++ print value
  | (name, value) :: rest => quoted name ++ ":" ++ print value ++ "," ++ printMembers rest

end

end Json
end StakeIndex
