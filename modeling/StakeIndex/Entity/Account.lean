import StakeIndex.Calendar
import StakeIndex.Word

/-!
Accounts, the rewards that they claim and the figures kept about their holders.
-/
namespace StakeIndex

/-- What an account is known to be. A later one in this order is never taken back. -/
inductive AccountType where
  | default
  | delegator
  | validator
deriving DecidableEq, Repr, Inhabited

namespace AccountType

def text : AccountType → String
  | default => "default"
  | delegator => "delegator"
  | validator => "validator"

def all : List AccountType := [default, delegator, validator]

instance : Named AccountType := ⟨all, text⟩

/-- The number of a type in its column and its place in the order. -/
def rank : AccountType → Nat
  | default => 0
  | delegator => 1
  | validator => 2

theorem rank_inj {a b : AccountType} (h : a.rank = b.rank) : a = b := by
  cases a <;> cases b <;> first | rfl | cases h

instance : Ord AccountType := ⟨compareOn rank⟩
instance : Std.TransOrd AccountType := inferInstanceAs (Std.TransCmp (compareOn rank))
instance : Std.LawfulEqOrd AccountType where
  eq_of_compare h := rank_inj (Nat.compare_eq_eq.1 h)

/-- The type with a number; all others are the default. -/
def ofRank : Int → AccountType
  | 2 => validator
  | 1 => delegator
  | _ => default

def max (a b : AccountType) : AccountType := if a.rank < b.rank then b else a

end AccountType

structure Account where
  address : Address
  type : AccountType
deriving DecidableEq, Repr, Inhabited

inductive DelegatorFigure where
  | claimedRewards
  | unclaimedRewards
deriving DecidableEq, Repr, Inhabited

namespace DelegatorFigure

def text : DelegatorFigure → String
  | claimedRewards => "CLAIMED_REWARDS"
  | unclaimedRewards => "UNCLAIMED_REWARDS"

/-- The number of a figure in its column. -/
def code : DelegatorFigure → Nat
  | claimedRewards => 1
  | unclaimedRewards => 2

def all : List DelegatorFigure := [claimedRewards, unclaimedRewards]

def ofCode? (code : Int) : Option DelegatorFigure :=
  all.find? fun figure => (figure.code : Int) == code

instance : Named DelegatorFigure := ⟨all, text⟩
theorem code_inj {a b : DelegatorFigure} (h : a.code = b.code) : a = b := by
  cases a <;> cases b <;> first | rfl | cases h

instance : Ord DelegatorFigure := ⟨compareOn code⟩
instance : Std.TransOrd DelegatorFigure := inferInstanceAs (Std.TransCmp (compareOn code))
instance : Std.LawfulEqOrd DelegatorFigure where
  eq_of_compare h := code_inj (Nat.compare_eq_eq.1 h)

end DelegatorFigure

/-- A figure of a delegator from a block on. -/
structure DelegatorStatistic where
  holder : Address
  height : Nat
  time : Instant
  figure : DelegatorFigure
  amount : Word
deriving DecidableEq, Repr, Inhabited

/-- One payment of rewards, known by its place in the chain. -/
structure RewardClaim where
  holder : Address
  height : Nat
  logIndex : Nat
  time : Instant
  amount : Word
deriving DecidableEq, Repr, Inhabited

end StakeIndex
