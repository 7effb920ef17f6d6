import StakeIndex.Json.Event
import StakeIndex.Word

/-!
Reading a record of plain values from JSON text in one pass. The first fault on the way counts: the text
is broken, or it goes on as JSON but not as the record.
-/
namespace StakeIndex.Json

inductive RecordFault where
  | broken
  | shape
deriving DecidableEq, Repr

/-- A field of a record: its name, the plain values it may have, and whether it may be missing from an
object or from the end of a list. -/
structure RecordField where
  name : String
  admits : Json → Bool
  mayMissIn : Bool
  mayMissAtEnd : Bool

namespace RecordField

/-- A text that must be there. -/
def text (name : String) : RecordField := ⟨name, fun j => j.text?.isSome, false, false⟩

/-- A number of a register that must be there. -/
def nat (name : String) : RecordField :=
  ⟨name, fun j => (natBelow? registerSize j).isSome, false, false⟩

/-- The same field, whose value may also be null. It may be missing from an object. -/
def orNull (f : RecordField) (mayMissAtEnd : Bool) : RecordField :=
  ⟨f.name, fun j => j.isNull || f.admits j, true, mayMissAtEnd⟩

end RecordField

/-- The events after a value that does not count; the depth says how many containers are open. -/
def skipValue : Nat → List Event → Option (List Event)
  | _, [] => none
  | depth, event :: rest =>
    let after := fun (depth : Nat) => if depth = 0 then some rest else skipValue depth rest
    match event with
    | .openList => skipValue (depth + 1) rest
    | .openObject => skipValue (depth + 1) rest
    | .closeList => after (depth - 1)
    | .closeObject => after (depth - 1)
    | .key _ => skipValue depth rest
    | .scalar _ => after depth

/-- The fields of an object whose opening was read. -/
def recordInObject (fields : List RecordField) :
    Nat → List (String × Json) → List Event →
      Except RecordFault (List (String × Json) × List Event)
  | 0, _, _ => .error .broken
  | fuel + 1, found, events =>
    match events with
    | .closeObject :: rest =>
      if fields.all fun f => f.mayMissIn || (find f.name found).isSome then .ok (found, rest)
      else .error .shape
    | .key name :: rest =>
      match fields.find? fun f => f.name == name with
      | none =>
        match skipValue 0 rest with
        | some rest => recordInObject fields fuel found rest
        | none => .error .broken
      | some f =>
        if (find name found).isSome then .error .shape
        else match rest with
          | .scalar value :: rest =>
            if f.admits value then recordInObject fields fuel ((name, value) :: found) rest
            else .error .shape
          | [] => .error .broken
          | _ => .error .shape
    | _ => .error .broken

/-- The fields of a list whose opening was read, in their order. -/
def recordInList : List RecordField → List Event →
    Except RecordFault (List (String × Json) × List Event)
  | [], .closeList :: rest => .ok ([], rest)
  | [], _ => .error .broken
  | f :: fields, events =>
    match events with
    | .scalar value :: rest =>
      if f.admits value then
        (recordInList fields rest).map fun (found, rest) => ((f.name, value) :: found, rest)
      else .error .shape
    | .closeList :: rest =>
      if (f :: fields).all (·.mayMissAtEnd) then .ok ([], rest) else .error .shape
    | [] => .error .broken
    | _ => .error .shape

def readRecord (fields : List RecordField) (text : String) :
    Except RecordFault (List (String × Json)) := do
  let (events, ending) := events text
  let (found, rest) ← match events with
    | [] => .error .broken
    | .openObject :: rest => recordInObject fields (rest.length + 1) [] rest
    | .openList :: rest => recordInList fields rest
    | _ => .error .shape
  if rest.isEmpty ∧ ending = .complete then return found else .error .broken

end StakeIndex.Json
