import StakeIndex.Chain.Request
import StakeIndex.Entity.Record
import StakeIndex.Store.Request

/-!
Transcripts: what a job asked of the chain and wrote to the store, in order.
-/
namespace StakeIndex

/-- What was asked in the course of a step. -/
structure Transcript where
  writes : List StoreRequest
  calls : List (BlockRef × Address × List UInt8)
  headers : List Nat
  logQueries : List (Nat × Nat × Nat)
  headFetches : Nat

def Transcript.empty : Transcript := ⟨[], [], [], [], 0⟩

instance : Inhabited Transcript := ⟨.empty⟩

def StoreRequest.name : StoreRequest → String
  | saveContractEvent _ => "save_contract_event"
  | saveValidator _ => "save_validator"
  | saveDelegation _ => "save_delegation"
  | saveNodes _ => "save_nodes"
  | saveAccount _ => "save_account"
  | saveValidatorStatistic _ => "save_validator_statistic"
  | recordRewardClaim _ => "record_reward_claim"
  | saveSystemEvent _ => "save_system_event"
  | updateCounts _ => "update_counts_of_validator"
  | calculate .totalStake _ => "calculate_total_stake"
  | calculate .activeNodes _ => "calculate_active_nodes"
  | calculate .linkedNodes _ => "calculate_linked_nodes"
  | saveValidatorSnapshots _ _ _ => "save_validator_snapshots"
  | validators _ => "get_validators"
  | delegations _ => "get_delegations"
  | nodes _ => "get_nodes"
  | accounts _ => "get_accounts"
  | contractEvents _ => "get_contract_events"
  | validatorStatistics _ => "get_validator_statistics"
  | delegatorStatistics _ => "get_delegator_statistics"
  | systemEvents _ => "get_system_events"
  | setting _ => "get_state"
  | setSetting _ _ => "set_state"

/-- Whether an operation is written down: those that write entities and figures are. -/
def StoreRequest.isEntityWrite : StoreRequest → Bool
  | validators _ | delegations _ | nodes _ | accounts _ | contractEvents _ => false
  | validatorStatistics _ | delegatorStatistics _ | systemEvents _ => false
  | setting _ | setSetting _ _ => false
  | _ => true

/-- A write as it is written down: its name and what it was about. -/
def StoreRequest.entry (r : StoreRequest) : Json :=
  let about := fun (parts : List Json) => Json.list (.text r.name :: parts)
  match r with
  | saveContractEvent e => about [.text e.event]
  | saveValidator v => about [.text v.id.decimal, .nat v.height]
  | saveDelegation d => about [.text d.id.decimal, .nat d.height]
  | saveNodes ns => about [.list (ns.map fun n => .text n.id.decimal)]
  | saveAccount a => about [.of a.address, .of a.type]
  | saveValidatorStatistic s => about [.text s.validatorId.decimal, .of s.figure]
  | recordRewardClaim c => about [.of c.holder, .nat c.height]
  | saveSystemEvent e => about [.of e.kind]
  | updateCounts id => .list [.text "update_counts", .text id.decimal]
  | calculate _ c => about [.text c.validatorId.decimal]
  | saveValidatorSnapshots s _ _ => about [.nat s.length]
  | _ => about []

namespace Transcript

/-- A list as a member, if it is not empty. -/
def listed {α : Type} (name : String) (form : α → Json) (items : List α) : List (String × Json) :=
  if items.isEmpty then [] else [(name, .list (items.map form))]

/-- What was asked, by kind, without the kinds of which nothing was asked. -/
def members (t : Transcript) : List (String × Json) :=
  listed "ops" StoreRequest.entry t.writes ++
    listed "calls" (fun (block, contract, selector) =>
      .list [.text block.plainText, .of contract, .text (Hex.bytes selector)]) t.calls ++
    listed "headers" Json.nat t.headers ++
    listed "log_queries" (fun (first, last, addresses) =>
      .list [.nat first, .nat last, .nat addresses]) t.logQueries ++
    (if t.headFetches = 0 then [] else [("head_fetches", .nat t.headFetches)])

end Transcript

end StakeIndex
