import StakeIndex.Abi.Kind
import StakeIndex.Failure
import StakeIndex.Json.Basic
import StakeIndex.Keccak
import StakeIndex.Table

/-!
Contract values: what the fields of events and the answers of view calls hold.
-/
namespace StakeIndex.Abi

/-- A contract value. Integers carry the width of their type. -/
inductive Value where
  | bool (b : Bool)
  | uint (n : Word) (bits : Nat)
  | int (n : Int) (bits : Nat)
  | address (a : Address)
  | fixedBytes (bs : List UInt8)
  | function (bs : List UInt8)
  | bytes (bs : List UInt8)
  | string (s : String)
  | array (items : List Value)
  | fixedArray (items : List Value)
  | tuple (parts : List Value)
deriving Inhabited, Repr

namespace Value

mutual

/-- The JSON form of a value: numbers as decimal text, bytes as hexadecimal text. -/
def json : Value → Json
  | bool b => .bool b
  | uint n _ => .text n.decimal
  | int n _ => .text (toString n)
  | address a => .text a.checksummed
  | fixedBytes bs => .text (Hex.bytes bs)
  | function bs => .text (Hex.bytes bs)
  | bytes bs => .text (Hex.bytes bs)
  | string s => .text s
  | array items => .list (jsonList items)
  | fixedArray items => .list (jsonList items)
  | tuple parts => .list (jsonList parts)

def jsonList : List Value → List Json
  | [] => []
  | v :: rest => json v :: jsonList rest

end

mutual

def hasKind : Value → Kind → Bool
  | bool _, .bool => true
  | uint _ bits, .uint width => bits == width
  | int _ bits, .int width => bits == width
  | address _, .address => true
  | fixedBytes bs, .fixedBytes size => bs.length == size
  | function _, .function => true
  | bytes _, .bytes => true
  | string _, .string => true
  | array items, .array item => allHaveKind items item
  | fixedArray items, .fixedArray item size => items.length == size && allHaveKind items item
  | tuple parts, .tuple kinds => haveKinds parts kinds
  | _, _ => false

def allHaveKind : List Value → Kind → Bool
  | [], _ => true
  | v :: rest, kind => hasKind v kind && allHaveKind rest kind

def haveKinds : List Value → List Kind → Bool
  | [], [] => true
  | v :: rest, kind :: kinds => hasKind v kind && haveKinds rest kinds
  | _, _ => false

end

/-- A value is not of the type that a field called `name` must have. -/
def refused (name expected : String) : Failure :=
  .invalidParameter (name ++ " is not " ++ expected)

def asUint (name : String) : Value → Except Failure Word
  | uint n _ => .ok n
  | _ => .error (refused name "an unsigned integer")

def asAddress (name : String) : Value → Except Failure Address
  | address a => .ok a
  | _ => .error (refused name "an address")

def asBool (name : String) : Value → Except Failure Bool
  | bool b => .ok b
  | _ => .error (refused name "a bool")

def asText (name : String) : Value → Except Failure String
  | string s => .ok s
  | _ => .error (refused name "a string")

def asFixedBytes (name : String) : Value → Except Failure (List UInt8)
  | fixedBytes bs => .ok bs
  | _ => .error (refused name "fixed bytes")

/-- The numbers in a field that is an array of any length. -/
def asUintArray (name : String) : Value → Except Failure (List Word)
  | array items => items.mapM (asUint name)
  | _ => .error (refused name "an array")

/-- The fields of an answer: a single tuple stands for its parts. -/
def flatten : List Value → List Value
  | [tuple parts] => parts
  | values => values

def field (values : List Value) (index : Nat) (name : String) : Except Failure Value :=
  match values[index]? with
  | some v => .ok v
  | none => .error (.decode ("missing field " ++ toString index ++ " (" ++ name ++ ")"))

end Value

abbrev Params := Table String Value

namespace Params

def require (params : Params) (name : String) : Except Failure Value :=
  match params.find? name with
  | some v => .ok v
  | none => .error (.invalidParameter ("missing parameter " ++ name))

def uint (params : Params) (name : String) : Except Failure Word := do
  (← params.require name).asUint name

def address (params : Params) (name : String) : Except Failure Address := do
  (← params.require name).asAddress name

/-- The number in the first of some fields that is there. -/
def uintAny (params : Params) (names : List String) : Except Failure Word :=
  match names.findSome? fun name => (params.find? name).map (·.asUint name) with
  | some read => read
  | none => .error (.invalidParameter ("missing parameter " ++ String.intercalate "|" names))

def json (params : Params) : Json :=
  .object (params.entries.map fun e => (e.1, e.2.json))

end Params
end StakeIndex.Abi
