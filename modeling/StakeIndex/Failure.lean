import StakeIndex.Decimal

/-!
What can go wrong while the index is built: the kind of a failure decides how it is answered over the
control surface and whether a later attempt may succeed.
-/
namespace StakeIndex

/-- A failure and what is said about it. -/
inductive Failure where
  | database (detail : String)
  | transport (detail : String)
  | notFound (detail : String)
  | emptyResponse
  | decode (detail : String)
  | invalidParameter (detail : String)
  | notSupported (detail : String)
  | timeout (detail : String)
  | config (detail : String)
  | internal (detail : String)
deriving DecidableEq, Repr

namespace Failure

def kind : Failure → String
  | database _ => "Database"
  | transport _ => "Transport"
  | notFound _ => "NotFound"
  | emptyResponse => "EmptyResponse"
  | decode _ => "Decode"
  | invalidParameter _ => "InvalidParameter"
  | notSupported _ => "NotSupported"
  | timeout _ => "Timeout"
  | config _ => "Config"
  | internal _ => "Internal"

def message : Failure → String
  | database detail => "Database error: " ++ detail
  | transport detail => "Transport error: " ++ detail
  | notFound detail => "Not found: " ++ detail
  | emptyResponse => "Empty response"
  | decode detail => "Decode error: " ++ detail
  | invalidParameter detail => "Invalid parameter: " ++ detail
  | notSupported detail => "Not supported: " ++ detail
  | timeout detail => "Timed out: " ++ detail
  | config detail => "Configuration error: " ++ detail
  | internal detail => "Internal error: " ++ detail

/-- The HTTP status that answers a failed control request. -/
def status : Failure → Nat
  | notFound _ => 404
  | invalidParameter _ => 400
  | notSupported _ => 501
  | transport _ => 502
  | timeout _ => 502
  | _ => 500

/-- Whether the same work may succeed later. -/
def isRetryable : Failure → Bool
  | transport _ => true
  | timeout _ => true
  | database _ => true
  | _ => false

/-- Whether the chain answered with nothing, as it does for an id that does not exist. -/
def isEmptyResponse : Failure → Bool
  | emptyResponse => true
  | _ => false

/-- All connections of the store are in use. -/
def poolTimedOut : Failure := database "pool timed out while waiting for an open connection"

/-- A stored decimal is no word of the chain. -/
def ofDecimal (d : Decimal) : Decimal.Fault → Failure
  | .negative => decode ("negative chain integer " ++ d.text)
  | .fractional => decode ("fractional chain integer " ++ d.text)
  | .tooLarge => decode ("chain integer " ++ d.text ++ " out of range: more than 256 bits")

end Failure

namespace Decimal

def word (d : Decimal) : Except Failure Word :=
  (d.toWord).mapError (Failure.ofDecimal d)

def address (d : Decimal) : Except Failure Address := do
  let w ← d.word
  match Address.ofNat? w.toNat with
  | some a => return a
  | none => .error (.decode (d.text ++ " does not fit in an address"))

end Decimal
end StakeIndex
