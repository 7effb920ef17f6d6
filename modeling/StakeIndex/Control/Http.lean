import StakeIndex.Index.Indexer
import StakeIndex.Json.Record
import StakeIndex.Net.MediaType
import StakeIndex.Text.Form

/-!
The control surface: requests over HTTP that start scrapes and synchronisations, and their answers.
-/
namespace StakeIndex.Control

/-- A request: the target is a path with an optional query behind a question mark. What follows a number
sign does not count. -/
structure HttpRequest where
  method : String
  target : String
  contentType : Option String
  body : String
deriving Repr

inductive Body where
  | empty
  | text (s : String)
  | json (j : Json)

structure Response where
  status : Nat
  body : Body

namespace Response

def bare (status : Nat) : Response := ⟨status, .empty⟩

def ofFailure (failure : Failure) : Response :=
  ⟨failure.status, .json (.ofMembers [
    ("error", .text failure.message), ("code", .nat failure.status)])⟩

/-- The answer to a request whose body is no record: the text is no JSON, or not of the right shape. -/
def ofFault : Json.RecordFault → Response
  | .broken => bare 400
  | .shape => bare 422

end Response

def scrapeSummary (report : ScrapeReport) : Json :=
  .ofMembers [
    ("from", .nat report.range.first), ("to", .nat report.range.last),
    ("logs", .nat report.total), ("processed", .nat report.processed),
    ("errors", .list (report.failures.map fun (output, failure) => .ofMembers [
      ("block_height", .nat output.log.height), ("log_index", .nat output.log.logIndex),
      ("tx_hash", .text output.log.txHash.hex), ("error", .text failure.message)])),
    ("cancelled", .bool report.cancelled)]

def catchUpSummary (report : CatchUpReport) : Json :=
  .ofMembers (("last_height", .nat report.lastHeight) ::
    match report.error with
    | some error => [("error", .text error)]
    | none => [])

def syncSummary (s : SyncSummary) : Json :=
  .ofMembers [
    ("block_height", .nat s.height), ("validators", .nat s.validators), ("nodes", .nat s.nodes),
    ("delegations", .nat s.delegations)]

def blockNumber (pairs : List (String × String)) (name : String) : Except Failure Nat :=
  match Form.last? name pairs with
  | none => .error (.invalidParameter ("missing " ++ name))
  | some raw =>
    match Numeral.read? registerSize (trimText raw) with
    | some n => .ok n
    | none =>
      .error (.invalidParameter (name ++ " must be a decimal block number, got " ++ raw))

def catchUpFields : List Json.RecordField :=
  [.text "network", (Json.RecordField.nat "chain_id").orNull true,
    (Json.RecordField.text "version").orNull true, .nat "last_height"]

def catchUpRequest (found : List (String × Json)) : CatchUpRequest where
  network := ((Json.find "network" found).bind Json.text?).getD ""
  chainId := (Json.find "chain_id" found).bind (Json.natBelow? registerSize)
  version := (Json.find "version" found).bind Json.text?
  lastHeight := ((Json.find "last_height" found).bind (Json.natBelow? registerSize)).getD 0

def syncFields : List Json.RecordField :=
  [(Json.RecordField.text "version").orNull false,
    (Json.RecordField.nat "block_height").orNull false]

def answer {α : Type} (job : Job α) (present : α → Response) : Job Response :=
  ExceptT.mk do
    match ← job.outcome with
    | .ok a => return .ok (present a)
    | .error (.failed failure) => return .ok (.ofFailure failure)
    | .error .crashed => return .error .crashed

def withRecord (r : HttpRequest) (fields : List Json.RecordField)
    (respond : List (String × Json) → Job Response) : Job Response :=
  match (r.contentType.bind MediaType.read?).map MediaType.isJson with
  | some true =>
    match Json.readRecord fields r.body with
    | .ok found => respond found
    | .error fault => return .ofFault fault
  | _ => return .bare 415

def postScrape (i : Indexer) (pairs : List (String × String)) : Job Response :=
  let job : Job ScrapeReport := do
    let first ← .lift (blockNumber pairs "from")
    let last ← .lift (blockNumber pairs "to")
    i.scrapeRange first last
  answer job fun report => ⟨200, .json (scrapeSummary report)⟩

def postCatchUp (i : Indexer) (r : HttpRequest) : Job Response :=
  withRecord r catchUpFields fun found =>
    answer (i.scrapeLatest (catchUpRequest found)) fun
      | .completed report => ⟨200, .json (catchUpSummary report)⟩
      | .processing report => ⟨202, .json (catchUpSummary report)⟩

def postSync (i : Indexer) (r : HttpRequest) : Job Response :=
  withRecord r syncFields fun found =>
    let version := (Json.find "version" found).bind Json.text?
    let height := (Json.find "block_height" found).bind (Json.natBelow? registerSize)
    answer (i.sync version height) fun s => ⟨200, .json (syncSummary s)⟩

def respond (i : Indexer) (r : HttpRequest) : Job Response :=
  let cs := r.target.toList.takeWhile (· ≠ '#')
  let path := String.ofList (cs.takeWhile (· ≠ '?'))
  let pairs := Form.pairs ((cs.dropWhile (· ≠ '?')).drop 1)
  let onPost := fun (job : Job Response) =>
    if r.method = "POST" then job else return .bare 405
  match path with
  | "/scrape" => onPost (postScrape i pairs)
  | "/scrape/latest" => onPost (postCatchUp i r)
  | "/sync" => onPost (postSync i r)
  | "/health" =>
    if r.method = "GET" then return ⟨200, .text "OK"⟩
    else if r.method = "HEAD" then return ⟨200, .text ""⟩
    else return .bare 405
  | _ => return .bare 404

end StakeIndex.Control
