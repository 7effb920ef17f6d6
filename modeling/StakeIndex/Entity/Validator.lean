import StakeIndex.Calendar
import StakeIndex.Word

/-!
Validators as they stood at some height, and the figures kept about them over time.
-/
namespace StakeIndex

/-- A validator at a block. The three counters belong to the latest block at which it is known. -/
structure Validator where
  id : Word
  name : String
  address : Address
  requestedAddress : Address
  description : String
  feeRate : Word
  registered : Instant
  minimumDelegation : Word
  acceptsRequests : Bool
  authorized : Bool
  activeNodes : Word
  linkedNodes : Word
  staked : Word
  height : Nat
deriving DecidableEq, Repr, Inhabited

inductive ValidatorFigure where
  | totalStake
  | activeNodes
  | linkedNodes
deriving DecidableEq, Repr, Inhabited

namespace ValidatorFigure

def text : ValidatorFigure → String
  | totalStake => "TOTAL_STAKE"
  | activeNodes => "ACTIVE_NODES"
  | linkedNodes => "LINKED_NODES"

/-- The number of a figure in its column. -/
def code : ValidatorFigure → Nat
  | totalStake => 1
  | activeNodes => 2
  | linkedNodes => 3

def all : List ValidatorFigure := [totalStake, activeNodes, linkedNodes]

def ofCode? (code : Int) : Option ValidatorFigure :=
  all.find? fun figure => (figure.code : Int) == code

instance : Named ValidatorFigure := ⟨all, text⟩
theorem code_inj {a b : ValidatorFigure} (h : a.code = b.code) : a = b := by
  cases a <;> cases b <;> first | rfl | cases h

instance : Ord ValidatorFigure := ⟨compareOn code⟩
instance : Std.TransOrd ValidatorFigure := inferInstanceAs (Std.TransCmp (compareOn code))
instance : Std.LawfulEqOrd ValidatorFigure where
  eq_of_compare h := code_inj (Nat.compare_eq_eq.1 h)

end ValidatorFigure

namespace Validator

/-- The counter that shows a figure. -/
def counter (v : Validator) : ValidatorFigure → Word
  | .totalStake => v.staked
  | .activeNodes => v.activeNodes
  | .linkedNodes => v.linkedNodes

def setCounter (v : Validator) (figure : ValidatorFigure) (amount : Word) : Validator :=
  match figure with
  | .totalStake => { v with staked := amount }
  | .activeNodes => { v with activeNodes := amount }
  | .linkedNodes => { v with linkedNodes := amount }

end Validator

/-- A figure of a validator from a block on. -/
structure ValidatorStatistic where
  validatorId : Word
  height : Nat
  time : Instant
  figure : ValidatorFigure
  amount : Word
deriving DecidableEq, Repr, Inhabited

/-- All figures of a validator at the start of an epoch. -/
structure ValidatorSnapshot where
  validatorId : Word
  activeNodes : Word
  linkedNodes : Word
  totalStake : Word
deriving DecidableEq, Repr, Inhabited

namespace ValidatorSnapshot

def amount (s : ValidatorSnapshot) : ValidatorFigure → Word
  | .totalStake => s.totalStake
  | .activeNodes => s.activeNodes
  | .linkedNodes => s.linkedNodes

end ValidatorSnapshot
end StakeIndex
