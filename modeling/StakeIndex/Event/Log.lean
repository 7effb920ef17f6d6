import StakeIndex.Contract.Registry
import StakeIndex.Entity.Event

/-!
Decoding logs: the first topic names the event, and every input of the event gets its value from the
topics or from the data.
-/
namespace StakeIndex

/-- A log with its event and the values of the event's inputs. -/
structure DecodedLog where
  event : String
  params : Abi.Params
deriving Repr

namespace DecodedLog

/-- The name under which the value of an input is kept; one without a name goes by its place. -/
def inputName (place : Nat) (input : Abi.Param) : String :=
  if input.name.isEmpty then "param" ++ toString place else input.name

/-- Each input from some place on with its value: the next one of the topics or the next one of the
data. -/
def assign : Nat → List Abi.Param → List Abi.Value → List Abi.Value →
    Except Nat (List (String × Abi.Value))
  | _, [], _, _ => .ok []
  | place, input :: rest, topics, body =>
    match input.indexed, topics, body with
    | true, v :: topics, body =>
      (assign (place + 1) rest topics body).map ((inputName place input, v) :: ·)
    | false, topics, v :: body =>
      (assign (place + 1) rest topics body).map ((inputName place input, v) :: ·)
    | _, _, _ => .error place

/-- A way to find the values of an event in topics and data: those of the inputs that stand in topics, and
those of the others. -/
abbrev Reader :=
  Abi.EventSchema → List Hash → List UInt8 → Option (List Abi.Value × List Abi.Value)

/-- A log as one event reads it. Of two inputs of one name the later counts. -/
def readBy (read : Reader) (schema : Abi.EventSchema) (log : RawLog) : Except Failure DecodedLog :=
  match read schema log.topics log.data with
  | none => .error (.decode (schema.name ++ ": the log does not fit the event"))
  | some (topics, body) =>
    match assign 0 schema.inputs topics body with
    | .error place =>
      .error (.decode (schema.name ++ ": missing value for input " ++ toString place))
    | .ok named => .ok ⟨schema.name, .ofList named⟩

/-- The event and values of a log, whichever way they are found. -/
def ofLogBy (read : Reader) (registry : Registry) (log : RawLog) : Except Failure DecodedLog :=
  match log.topics with
  | [] => .error (.decode "log has no topics")
  | selector :: _ =>
    match registry.event? selector with
    | none => .error (.decode ("unknown event selector " ++ selector.hex))
    | some schema => readBy read schema log

/-- The event and values of a log. -/
def ofLog (registry : Registry) (log : RawLog) : Except Failure DecodedLog :=
  ofLogBy Abi.EventSchema.values? registry log

end DecodedLog
end StakeIndex
