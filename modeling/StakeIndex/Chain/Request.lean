import StakeIndex.Entity.Event

/-!
What can be asked of the chain.
-/
namespace StakeIndex

/-- The state of the chain that a view call reads. -/
inductive BlockRef where
  | number (height : Nat)
  | latest
  | pending
deriving DecidableEq, Repr, Inhabited

namespace BlockRef

def text : BlockRef → String
  | number n => "Number(" ++ toString n ++ ")"
  | latest => "Latest"
  | pending => "Pending"

/-- The height of a block, or the name of a state without one. -/
def plainText : BlockRef → String
  | number n => toString n
  | latest => "latest"
  | pending => "pending"

end BlockRef

/-- Which states a node of the chain can answer for: all, or only the latest. -/
inductive NodeMode where
  | archive
  | recent
deriving DecidableEq, Repr, Inhabited

namespace NodeMode

def text : NodeMode → String
  | archive => "Archive"
  | recent => "Recent"

/-- The mode with a name, in letters of either case. -/
def find (name : String) : Except Failure NodeMode :=
  match lowerText name with
  | "archive" => .ok archive
  | "recent" => .ok recent
  | other => .error (.config ("unknown node mode " ++ other))

end NodeMode

inductive ChainRequest where
  | logs (first last : Nat) (addresses : List Address)
  | header (height : Nat)
  | head
  | call (block : BlockRef) (contract : Address) (input : List UInt8)
deriving Repr

namespace ChainRequest

abbrev Result : ChainRequest → Type
  | logs _ _ _ => List RawLog
  | header _ => BlockHeader
  | head => Nat
  | call _ _ _ => List UInt8

end ChainRequest

/-- Why the chain gave no answer: it failed, or it said nothing for too long. -/
inductive ChainFault where
  | failed (failure : Failure)
  | silent
deriving DecidableEq, Repr

/-- The failure that a fault is, when the time given for `what` is over. -/
def ChainFault.toFailure (what : String) : ChainFault → Failure
  | failed failure => failure
  | silent => .timeout what

end StakeIndex
