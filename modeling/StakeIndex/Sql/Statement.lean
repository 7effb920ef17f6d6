import StakeIndex.Calendar
import StakeIndex.Dialogue
import StakeIndex.Failure
import StakeIndex.Json.Basic

/-!
Statements to a relational database and the dialogues that send them. A dialogue ends at the first
statement that fails; a transaction that ends so is never committed, and the database takes it back.
-/
namespace StakeIndex

namespace Sql

inductive Cell where
  | null
  | numeric (d : Decimal)
  | integer (n : Int)
  | text (s : String)
  | boolean (b : Bool)
  | time (t : Instant)
  | json (j : Json)
  | numerics (ds : List Decimal)
  | integers (ns : List Int)
deriving Repr, Inhabited

/-- The greatest number of a signed column of 64 bits. -/
def topInteger : Nat := (1 <<< 63) - 1

namespace Cell

def word (w : Word) : Cell := .numeric (.ofWord w)

def address (a : Address) : Cell := .numeric (.ofAddress a)

/-- A height in a signed column: those beyond the greatest number become it. -/
def height (n : Nat) : Cell := .integer (min n topInteger : Nat)

/-- A small number, such as the code of a figure. -/
def code (n : Int) : Cell := .integer n

def optional {α : Type} (f : α → Cell) : Option α → Cell
  | none => .null
  | some a => f a

end Cell

/-- The values of a row by the names of their columns. -/
abbrev Row := List (String × Cell)

/-- The text of a statement and what is bound to its parameters in order. -/
structure Statement where
  text : String
  params : List Cell
deriving Repr, Inhabited

namespace Statement

def start : Statement := ⟨"BEGIN", []⟩

/-- Lets a transaction run as if it were alone. -/
def isolate : Statement := ⟨"SET TRANSACTION ISOLATION LEVEL SERIALIZABLE", []⟩

def commit : Statement := ⟨"COMMIT", []⟩

def oneLine (parts : List String) : String := String.intercalate " " parts

def listed (names : List String) : String := String.intercalate ", " names

def insert (table : String) (row : Row) : Statement :=
  let places := (List.range row.length).map fun i => "$" ++ toString (i + 1)
  ⟨"INSERT INTO " ++ table ++ " (" ++ listed (row.map (·.1)) ++ ") VALUES (" ++ listed places ++ ")",
    row.map (·.2)⟩

/-- Adds a row to a table; where there is one with the same key, some of its columns take the new
values. -/
def upsert (table : String) (key updated : List String) (row : Row) : Statement :=
  let added := insert table row
  ⟨added.text ++ " ON CONFLICT (" ++ listed key ++ ") DO UPDATE SET " ++
    listed (updated.map fun c => c ++ " = EXCLUDED." ++ c), added.params⟩

def others (row : Row) (names : List String) : List String :=
  (row.map (·.1)).filter fun c => !names.contains c

end Statement

/-- A message to the database: a statement that only has an effect, or one that answers rows. -/
inductive Request where
  | run (s : Statement)
  | query (s : Statement)

abbrev Request.Answer : Request → Type
  | run _ => Except Failure Unit
  | query _ => Except Failure (List Row)

end Sql

/-- Work on the database that ends with a result or with the first failure. -/
abbrev Sql := ExceptT Failure (Dialogue Sql.Request Sql.Request.Answer)

namespace Sql

/-- Sends a statement for its effect. -/
def run (s : Statement) : Sql Unit := ExceptT.mk (.ask (.run s) .done)

/-- Sends a statement for its rows. -/
def query (s : Statement) : Sql (List Row) := ExceptT.mk (.ask (.query s) .done)

def lift {α : Type} (r : Except Failure α) : Sql α := ExceptT.mk (.done r)

/-- A row was expected and none came. -/
def noRow : Failure :=
  .database "no rows returned by a query that expected to return at least one row"

/-- Sends a statement for the first of its rows. -/
def queryOne (s : Statement) : Sql Row := do
  match ← query s with
  | [] => throw noRow
  | row :: _ => return row

def transaction {α : Type} (work : Sql α) : Sql α := do
  run .start
  let result ← work
  run .commit
  return result

/-- Work inside one transaction that runs as if it were alone. -/
def isolated {α : Type} (work : Sql α) : Sql α :=
  transaction do
    run .isolate
    work

end Sql
end StakeIndex
