import StakeIndex.Net.Ipv4
import StakeIndex.Sql.Statement

/-!
Reading rows: the value of a column as what it stands for. Stored heights are signed and come back as
the number with the same 64 bits.
-/
namespace StakeIndex.Sql

def noColumn (column : String) : Failure :=
  .database ("no column found for name: " ++ column)

def otherType (column : String) : Failure :=
  .database ("error occurred while decoding column \"" ++ column ++ "\": mismatched types")

def readHash (text : String) : Except Failure Hash :=
  match Hash.read? text with
  | some h => .ok h
  | none => .error (.decode ("invalid hash " ++ text ++ ": expected 64 hexadecimal digits"))

def readIp (text : String) : Except Failure Ipv4 :=
  match Ipv4.read? text with
  | some ip => .ok ip
  | none => .error (.decode ("invalid ip " ++ text ++ ": invalid IPv4 address syntax"))

def readHeight (n : Int) : Nat := (n % (1 <<< 64 : Nat)).toNat

namespace Row

variable (row : Row) (column : String)

def cell : Except Failure Cell :=
  match row.lookup column with
  | some c => .ok c
  | none => .error (noColumn column)

/-- A number with its digits. -/
def numeric : Except Failure Decimal := do
  match ← cell row column with
  | .numeric d => .ok d
  | _ => .error (otherType column)

def word : Except Failure Word := do (← numeric row column).word

def address : Except Failure Address := do (← numeric row column).address

def integer : Except Failure Int := do
  match ← cell row column with
  | .integer n => .ok n
  | _ => .error (otherType column)

/-- A height or a place in a block. -/
def height : Except Failure Nat := do return readHeight (← integer row column)

def text : Except Failure String := do
  match ← cell row column with
  | .text s => .ok s
  | _ => .error (otherType column)

def text? : Except Failure (Option String) := do
  match ← cell row column with
  | .text s => .ok (some s)
  | .null => .ok none
  | _ => .error (otherType column)

def boolean : Except Failure Bool := do
  match ← cell row column with
  | .boolean b => .ok b
  | _ => .error (otherType column)

def time : Except Failure Instant := do
  match ← cell row column with
  | .time t => .ok t
  | _ => .error (otherType column)

def json : Except Failure Json := do
  match ← cell row column with
  | .json j => .ok j
  | _ => .error (otherType column)

/-- Several numbers with their digits. -/
def numerics : Except Failure (List Decimal) := do
  match ← cell row column with
  | .numerics ds => .ok ds
  | _ => .error (otherType column)

def hash : Except Failure Hash := do readHash (← text row column)

def ip : Except Failure Ipv4 := do readIp (← text row column)

/-- The word in the first column, whatever its name. -/
def firstWord : Except Failure Word :=
  match row with
  | (_, .numeric d) :: _ => d.word
  | (name, _) :: _ => .error (otherType name)
  | [] => .error (noColumn "0")

end Row
end StakeIndex.Sql
