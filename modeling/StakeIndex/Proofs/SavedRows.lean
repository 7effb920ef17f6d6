import StakeIndex.Proofs.RowReading
import StakeIndex.Sql.Store

/-!
What the store writes is what it reads. Saving an entity sends a statement that adds a row with the entity's columns,
and any row that holds them is read as the same entity.
-/
namespace StakeIndex.Sql

variable {α β : Type} {s : Statement}

/-- Work on the database sends a statement once all that it sends before has been carried out. -/
inductive Sends (s : Statement) : Dialogue Request Request.Answer α → Prop where
  | now (next : Request.Answer (.run s) → Dialogue Request Request.Answer α) : Sends s (.ask (.run s) next)
  | later (before : Statement) (next : Request.Answer (.run before) → Dialogue Request Request.Answer α)
      (sends : Sends s (next (.ok ()))) : Sends s (.ask (.run before) next)

namespace Sends

theorem andThen {d : Dialogue Request Request.Answer α} (sends : Sends s d)
    (f : α → Dialogue Request Request.Answer β) : Sends s (d.andThen f) := by
  induction sends with
  | now next => exact .now _
  | later before next _ ih => exact .later before _ ih

/-- What the first part of some work sends, the work sends. -/
theorem bind {work : Sql α} (sends : Sends s (ExceptT.run work)) (f : α → Sql β) :
    Sends s (ExceptT.run (work >>= f)) :=
  sends.andThen _

theorem run_bind {before : Statement} {f : Unit → Sql α} (sends : Sends s (ExceptT.run (f ()))) :
    Sends s (ExceptT.run (Sql.run before >>= f)) :=
  .later before _ sends

theorem transaction {work : Sql α} (sends : Sends s (ExceptT.run work)) :
    Sends s (ExceptT.run (Sql.transaction work)) :=
  run_bind (sends.bind _)

/-- A loop sends the statements of all its elements. -/
theorem forIn {γ : Type} {xs : List γ} {x : γ} (statement : γ → Statement) (member : x ∈ xs) :
    Sends (statement x) (ExceptT.run (do for x in xs do Sql.run (statement x) : Sql Unit)) := by
  induction xs with
  | nil => cases member
  | cons y ys ih =>
    -- The first element's statement comes first; those of the others follow once it is carried out.
    rw [List.forIn_cons]
    obtain rfl | member := List.mem_cons.1 member
    · exact .now _
    · exact .later _ _ (ih member)

end Sends

/-- The places of parameters in their order, each with its type if that is written. -/
def places (types : List String) : String :=
  Statement.listed (types.zipIdx.map fun (type, i) => "$" ++ toString (i + 1) ++ type)

/-- A statement adds a row to a table: it names the columns of the row and binds their values in this order. -/
structure Statement.Adds (s : Statement) (table : String) (row : Row) : Prop where
  named : ∃ before opening types after, opening ∈ [") VALUES (", ") SELECT "] ∧ types.length = row.length ∧
    s.text = before ++ "INSERT INTO " ++ table ++ " (" ++ Statement.listed (row.map (·.1)) ++ opening ++
      places types ++ after
  bound : s.params = row.map (·.2)

theorem places_replicate (n : Nat) :
    places (List.replicate n "") = Statement.listed ((List.range n).map fun i => "$" ++ toString (i + 1)) := by
  have same : (List.replicate n "").zipIdx.map (fun (type, i) => "$" ++ toString (i + 1) ++ type) =
      (List.range n).map fun i => "$" ++ toString (i + 1) := by
    apply List.ext_getElem <;> simp
  exact congrArg Statement.listed same

namespace Statement

theorem insert_adds (table after : String) (row : Row) :
    Adds ⟨(insert table row).text ++ after, (insert table row).params⟩ table row := by
  refine ⟨⟨"", ") VALUES (", List.replicate row.length "", ")" ++ after, by simp, by simp, ?_⟩, rfl⟩
  unfold insert
  simp only [places_replicate, String.append_assoc, String.empty_append]

theorem upsert_adds (table : String) (key updated : List String) (row : Row) :
    (upsert table key updated row).Adds table row := by
  rw [upsert]
  simp only [String.append_assoc]
  exact insert_adds table _ row

theorem upsert_statistic_adds (f : ValidatorStatistic) : f.upsert.Adds "validator_statistics" f.columns := by
  refine ⟨⟨oneLine [
      "WITH prev AS ( SELECT amount FROM validator_statistics",
      "WHERE validator_id = $1 AND statistic_type = $4 AND block_height < $2",
      "ORDER BY block_height DESC LIMIT 1 ), redundant AS (",
      "DELETE FROM validator_statistics",
      "WHERE validator_id = $1 AND statistic_type = $4 AND block_height = $2",
      "AND EXISTS (SELECT 1 FROM prev WHERE amount = $5) ) "],
    ") SELECT ", ["::NUMERIC", "::BIGINT", "::TIMESTAMPTZ", "::SMALLINT", "::NUMERIC"], oneLine [
      " WHERE NOT EXISTS (SELECT 1 FROM prev WHERE amount = $5)",
      "ON CONFLICT (validator_id, block_height, statistic_type)",
      "DO UPDATE SET amount = EXCLUDED.amount, block_time = EXCLUDED.block_time"], by simp, rfl, ?_⟩, rfl⟩
  have names : f.columns.map (·.1) =
      ["validator_id", "block_height", "block_time", "statistic_type", "amount"] := rfl
  rw [names]
  dsimp only [ValidatorStatistic.upsert]
  decide +kernel

end Statement
end Sql

open Sql (Row topInteger)

namespace StoreRequest

/-- A request to the store adds a row to a table. -/
def Adds (request : StoreRequest) (table : String) (row : Row) : Prop :=
  ∃ s : Sql.Statement, Sql.Sends s (ExceptT.run request.onDatabase) ∧ s.Adds table row

theorem saveValidator_adds (v : Validator) : (saveValidator v).Adds "validators" v.columns :=
  ⟨_, .now _, Sql.Statement.upsert_adds _ _ _ _⟩

theorem saveDelegation_adds (d : Delegation) : (saveDelegation d).Adds "delegations" d.columns :=
  ⟨_, .now _, Sql.Statement.upsert_adds _ _ _ _⟩

theorem saveNodes_adds {n : Node} {ns : List Node} (member : n ∈ ns) : (saveNodes ns).Adds "nodes" n.columns := by
  let key := ["node_id", "block_height"]
  let written := fun n : Node => Sql.Statement.upsert "nodes" key (Sql.Statement.others n.columns key) n.columns
  refine ⟨written n, ?_, Sql.Statement.upsert_adds _ _ _ _⟩
  have filled : ¬ns.isEmpty := by simpa using List.ne_nil_of_mem member
  rw [onDatabase, Sql.saveNodes, if_neg filled]
  exact .transaction (.forIn written member)

theorem saveContractEvent_adds (e : ContractEvent) : (saveContractEvent e).Adds "contract_events" e.columns :=
  ⟨_, .now _, Sql.Statement.upsert_adds _ _ _ _⟩

theorem saveSystemEvent_adds (e : SystemEvent) : (saveSystemEvent e).Adds "system_events" e.columns :=
  ⟨_, .now _, Sql.Statement.upsert_adds _ _ _ _⟩

theorem saveAccount_adds (a : Account) : (saveAccount a).Adds "accounts" a.columns :=
  ⟨_, .now _, Sql.Statement.insert_adds _ _ _⟩

theorem saveValidatorStatistic_adds (f : ValidatorStatistic) :
    (saveValidatorStatistic f).Adds "validator_statistics" f.columns :=
  ⟨_, .now _, Sql.Statement.upsert_statistic_adds f⟩

/-- The claim is added once its holder's ledger is locked. -/
theorem recordRewardClaim_adds (c : RewardClaim) : (recordRewardClaim c).Adds "reward_claims" c.columns :=
  ⟨_, .transaction (.run_bind (.now _)), Sql.Statement.upsert_adds _ _ _ _⟩

end StoreRequest

/-- Rows undo what saving binds. Each request that saves an entity adds a row with the entity's columns to the table
of its kind, and every row that holds these columns is accepted and read as the same entity, if its heights and its
place in a block are numbers that a signed column can hold and the port of a node is one of 16 bits. An event comes
back under the number that its row has, a figure is read from a row that calls the validator its subject, and a
claim from a row of its holder's ledger. -/
theorem saved_rows_read_back :
    (∀ v : Validator, v.height ≤ topInteger →
      (StoreRequest.saveValidator v).Adds "validators" v.columns ∧
        ∀ row : Row, row.Holds v.columns → Validator.ofRow row = .ok v) ∧
    (∀ d : Delegation, d.height ≤ topInteger →
      (StoreRequest.saveDelegation d).Adds "delegations" d.columns ∧
        ∀ row : Row, row.Holds d.columns → Delegation.ofRow row = .ok d) ∧
    (∀ ns : List Node, ∀ n ∈ ns, n.height ≤ topInteger → n.port < 65536 →
      (StoreRequest.saveNodes ns).Adds "nodes" n.columns ∧
        ∀ row : Row, row.Holds n.columns → Node.ofRow row = .ok n) ∧
    (∀ e : ContractEvent, e.height ≤ topInteger → e.logIndex ≤ topInteger →
      (StoreRequest.saveContractEvent e).Adds "contract_events" e.columns ∧
        ∀ (id : Int) (row : Row), row.Holds (("id", .integer id) :: e.columns) →
          ContractEvent.ofRow row = .ok { e with id := some id }) ∧
    (∀ e : SystemEvent, e.height ≤ topInteger →
      (StoreRequest.saveSystemEvent e).Adds "system_events" e.columns ∧
        ∀ row : Row, row.Holds e.columns → SystemEvent.ofRow row = .ok e) ∧
    (∀ a : Account,
      (StoreRequest.saveAccount a).Adds "accounts" a.columns ∧
        ∀ row : Row, row.Holds a.columns → Account.ofRow row = .ok a) ∧
    (∀ f : ValidatorStatistic, f.height ≤ topInteger →
      (StoreRequest.saveValidatorStatistic f).Adds "validator_statistics" f.columns ∧
        ∀ row : Row, row.Holds (("subject", .word f.validatorId) :: f.columns.tail) →
          ValidatorStatistic.ofRow row = .ok f) ∧
    (∀ c : RewardClaim, c.height ≤ topInteger → c.logIndex ≤ topInteger →
      (StoreRequest.recordRewardClaim c).Adds "reward_claims" c.columns ∧
        ∀ row : Row, row.Holds c.columns.tail → RewardClaim.ofRow c.holder row = .ok c) := by
  refine ⟨?validator, ?delegation, ?node, ?contractEvent, ?systemEvent, ?account, ?statistic, ?claim⟩
  case validator =>
    exact fun v low => ⟨StoreRequest.saveValidator_adds v, fun _ held => Validator.ofRow_eq low held⟩
  case delegation =>
    exact fun d low => ⟨StoreRequest.saveDelegation_adds d, fun _ held => Delegation.ofRow_eq low held⟩
  case node =>
    exact fun ns n member low port =>
      ⟨StoreRequest.saveNodes_adds member, fun _ held => Node.ofRow_eq low port held⟩
  case contractEvent =>
    refine fun e low place => ⟨StoreRequest.saveContractEvent_adds e, fun id row held => ?_⟩
    obtain ⟨numbered, held⟩ := List.forall_mem_cons.1 held
    exact ContractEvent.ofRow_eq low place numbered held
  case systemEvent =>
    exact fun e low => ⟨StoreRequest.saveSystemEvent_adds e, fun _ held => SystemEvent.ofRow_eq low held⟩
  case account =>
    exact fun a => ⟨StoreRequest.saveAccount_adds a, fun _ held => Account.ofRow_eq held⟩
  case statistic =>
    exact fun f low =>
      ⟨StoreRequest.saveValidatorStatistic_adds f, fun _ held => ValidatorStatistic.ofRow_eq low held⟩
  case claim =>
    exact fun c low place =>
      ⟨StoreRequest.recordRewardClaim_adds c, fun _ held => RewardClaim.ofRow_eq low place held⟩

/-- Of entities at the last height and the last places that fit, in the kinds that are stored in a way of their own,
the rows with the columns the other way round. -/
theorem saved_rows_read_back_reversed :
    let v : Validator := { (default : Validator) with staked := .clamp (1 <<< 256), height := topInteger }
    let d : Delegation := { (default : Delegation) with state := .unknown, height := topInteger }
    let n : Node :=
      { (default : Node) with ip := ⟨10, 0, 255, 9⟩, port := 65535, status := .left, height := topInteger }
    let e : ContractEvent :=
      { (default : ContractEvent) with boundIds := [1, .clamp (1 <<< 256)], boundType := some .node, height := 7,
                                       logIndex := topInteger }
    let s : SystemEvent := { (default : SystemEvent) with change := ⟨-15, 1⟩, height := topInteger }
    let a : Account := { (default : Account) with type := .validator }
    let f : ValidatorStatistic := { (default : ValidatorStatistic) with validatorId := 4, height := topInteger }
    let c : RewardClaim := { (default : RewardClaim) with amount := 12, height := 7, logIndex := topInteger }
    Validator.ofRow v.columns.reverse = .ok v ∧
      Delegation.ofRow d.columns.reverse = .ok d ∧
      Node.ofRow n.columns.reverse = .ok n ∧
      ContractEvent.ofRow (("id", .integer 3) :: e.columns).reverse = .ok { e with id := some 3 } ∧
      SystemEvent.ofRow s.columns.reverse = .ok s ∧
      Account.ofRow a.columns.reverse = .ok a ∧
      ValidatorStatistic.ofRow (("subject", .word f.validatorId) :: f.columns.tail).reverse = .ok f ∧
      RewardClaim.ofRow c.holder c.columns.tail.reverse = .ok c := by
  obtain ⟨validators, delegations, nodes, contractEvents, systemEvents, accounts, statistics, claims⟩ :=
    saved_rows_read_back
  have top : topInteger ≤ topInteger := Nat.le_refl _
  have seven : 7 ≤ topInteger := by decide
  intro v d n e s a f c
  refine ⟨(validators v top).2 _ ?_, (delegations d top).2 _ ?_, (nodes [n] n (by simp) top (by decide)).2 _ ?_,
    (contractEvents e seven top).2 3 _ ?_, (systemEvents s top).2 _ ?_, (accounts a).2 _ ?_,
    (statistics f top).2 _ ?_, (claims c seven top).2 _ ?_⟩
  all_goals exact Row.holds_of_perm (by decide) (List.reverse_perm _)

end StakeIndex
