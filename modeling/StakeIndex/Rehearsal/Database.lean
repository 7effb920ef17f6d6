import StakeIndex.Sql.Store

/-!
A database that follows a script: it accepts every statement, keeps it, and answers queries with the rows
that the script holds for them.
-/
namespace StakeIndex

open Sql

/-- Rows for the first query that contains a text; they are answered once. -/
structure ScriptedReply where
  part : String
  rows : List Row

/-- A scripted database and what was sent to it, the latest statement first. One of the statements may be
refused with a message. -/
structure ScriptedDatabase where
  replies : List ScriptedReply
  refused : Option (Nat × String) := none
  sent : List Statement := []

namespace ScriptedDatabase

/-- The first reply for a query and the replies that are left. -/
def take (query : String) : List ScriptedReply → Option (List Row × List ScriptedReply)
  | [] => none
  | r :: rest =>
    if occursIn r.part.toList query.toList then some (r.rows, rest)
    else (take query rest).map fun (rows, left) => (rows, r :: left)

/-- The rows of a query that the script is silent about: one zero for a sum or a count. -/
def plainRows (query : String) : List Row :=
  if query.startsWith "SELECT COALESCE(" || query.startsWith "SELECT COUNT(" then
    [[("amount", .numeric (.ofInt 0))]]
  else []

/-- Keeps a statement; tells whether it is refused. -/
def receive (s : Statement) (script : ScriptedDatabase) : Except Failure Unit × ScriptedDatabase :=
  let script := { script with sent := s :: script.sent }
  match script.refused with
  | some (at_, message) =>
    if script.sent.length = at_ then
      (.error (.database ("error returned from database: " ++ message)), script)
    else (.ok (), script)
  | none => (.ok (), script)

def answer : (r : Sql.Request) → ScriptedDatabase → r.Answer × ScriptedDatabase
  | .run s, script => script.receive s
  | .query s, script =>
    match script.receive s with
    | (.error f, script) => (.error f, script)
    | (.ok (), script) =>
      match take s.text script.replies with
      | some (rows, replies) => (.ok rows, { script with replies })
      | none => (.ok (plainRows s.text), script)

/-- A bound value as it is written down: numbers plainly, and moments to the microsecond. -/
def cellJson : Cell → Json
  | .null => .null
  | .numeric d => .text d.plainText
  | .integer n => .int n
  | .text s => .text s
  | .boolean b => .bool b
  | .time t => .text t.cutToMicros.text
  | .json j => j
  | .numerics ds => .list (ds.map fun d => .text d.plainText)
  | .integers ns => .list (ns.map Json.int)

/-- What was sent, in order. -/
def statements (script : ScriptedDatabase) : Json :=
  .list (script.sent.reverse.map fun s => .list [.text s.text, .list (s.params.map cellJson)])

def perform {α : Type} (work : Sql α) (script : ScriptedDatabase) : Except Failure α × ScriptedDatabase :=
  (ExceptT.run work).run answer script

end ScriptedDatabase
end StakeIndex
