import StakeIndex.Failure
import StakeIndex.Text.Blank

/-!
The roles that contracts of the staking system play.
-/
namespace StakeIndex

/-- The role of a deployed contract. -/
inductive ContractName where
  | validatorService
  | delegationController
  | nodes
  | distributor
  | punisher
  | manager
  | token
  | bounty
  | bountyV2
deriving DecidableEq, Repr, Inhabited

namespace ContractName

def all : List ContractName :=
  [validatorService, delegationController, nodes, distributor, punisher, manager, token, bounty,
    bountyV2]

def text : ContractName → String
  | validatorService => "validator_service"
  | delegationController => "delegation_controller"
  | nodes => "nodes"
  | distributor => "distributor"
  | punisher => "punisher"
  | manager => "skale_manager"
  | token => "skale_token"
  | bounty => "bounty"
  | bountyV2 => "bounty_v2"

def rank (name : ContractName) : Nat := name.ctorIdx

instance : Named ContractName := ⟨all, text⟩
theorem rank_inj {a b : ContractName} (h : a.rank = b.rank) : a = b := by
  cases a <;> cases b <;> first | rfl | cases h

instance : Ord ContractName := ⟨compareOn rank⟩
instance : Std.TransOrd ContractName := inferInstanceAs (Std.TransCmp (compareOn rank))
instance : Std.LawfulEqOrd ContractName where
  eq_of_compare h := rank_inj (Nat.compare_eq_eq.1 h)
instance : ToString ContractName := ⟨text⟩

def find (name : String) : Except Failure ContractName :=
  match Named.read? name with
  | some role => .ok role
  | none => .error (.notFound ("unknown contract name " ++ name))

end ContractName
end StakeIndex
