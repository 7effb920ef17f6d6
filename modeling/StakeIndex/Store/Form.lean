import StakeIndex.Entity.Record
import StakeIndex.Store.Request

/-!
Questions to the store and its answers as JSON. The conditions of a question are the members of an
object; a missing or null one admits everything.
-/
namespace StakeIndex

open Json (field?)

namespace StoreRequest

def condition {α : Type} [JsonForm α] (part : String → Option Json) (name : String) :
    Option (Option α) := do
  return (← field? (α := Option α) part name).join

def listCondition {α : Type} [JsonForm α] (part : String → Option Json) (name : String) :
    Option (List α) := do
  return (← condition part name).getD []

def heightRange? (part : String → Option Json) : Option HeightRange := do
  return ⟨← condition part "from_height", ← condition part "to_height"⟩

def question? (what : String) (conditions : Json) : Option StoreRequest := do
  let part := conditions.member?
  match what with
  | "validators" =>
    return validators ⟨← condition part "validator_id", ← condition part "validator_address",
      ← condition part "before_height"⟩
  | "delegations" =>
    return delegations ⟨← condition part "delegation_id", ← condition part "validator_id",
      ← condition part "holder", ← listCondition part "states", ← condition part "before_height"⟩
  | "nodes" =>
    return nodes ⟨← condition part "node_id", ← condition part "validator_id",
      ← condition part "status", ← condition part "before_height"⟩
  | "accounts" => return accounts ⟨← condition part "address", ← condition part "account_type"⟩
  | "contract_events" =>
    return contractEvents ⟨← condition part "contract_address", ← condition part "event_name",
      ← condition part "bound_type", ← condition part "bound_id", ← condition part "bound_address",
      ← heightRange? part⟩
  | "validator_statistics" =>
    return validatorStatistics ⟨← condition part "validator_id", ← condition part "statistic_type",
      ← heightRange? part⟩
  | "delegator_statistics" =>
    return delegatorStatistics ⟨← condition part "holder", ← condition part "statistic_type",
      ← heightRange? part⟩
  | "system_events" =>
    return systemEvents ⟨← condition part "kind", ← condition part "sender_id",
      ← condition part "recipient_id", ← condition part "address", ← heightRange? part⟩
  | _ => none

def kinds : List String :=
  ["validators", "delegations", "nodes", "accounts", "contract_events", "validator_statistics",
    "delegator_statistics", "system_events"]

/-- An answer as JSON: entities as objects, amounts as decimal text, and null for a write. -/
def resultJson : (r : StoreRequest) → r.Result → Json
  | validators _, found => .of found
  | delegations _, found => .of found
  | nodes _, found => .of found
  | accounts _, found => .of found
  | contractEvents _, found => .of found
  | validatorStatistics _, found => .of found
  | delegatorStatistics _, found => .of found
  | systemEvents _, found => .of found
  | setting _, found => .of found
  | calculate _ _, amount => .text amount.decimal
  | _, _ => .null

end StoreRequest
end StakeIndex
