import StakeIndex.Chain.Request
import StakeIndex.Json.Form
import StakeIndex.Net.Url

/-!
Questions to the chain as calls of a node over JSON-RPC: the method and parameters of each question, and
what a reply means for it. A view call that is reverted without data answers nothing.
-/
namespace StakeIndex

/-- What a call brings back: a result, an error of the node, or nothing that could be understood. -/
inductive RpcReply where
  | result (value : Json)
  | error (code : Int) (message : String) (data : Option Json)
  | broken (reason : String)

namespace RpcReply

def ofJson (j : Json) : RpcReply :=
  match j.member? "result", j.member? "error" with
  | some value, _ => .result value
  | none, some e =>
    match e.member? "code", e.member? "message" with
    | some (.int code), some (.text message) => .error code message (e.member? "data")
    | _, _ => .broken ("deserialization error: unexpected " ++ j.print)
  | none, none => .broken ("deserialization error: unexpected " ++ j.print)

/-- Whether a node's error says that a call was reverted without data. -/
def isEmptyRevert : RpcReply → Bool
  | error _ message data =>
    occursIn "revert".toList (lowerText message).toList &&
      match data with
      | none | some .null | some (.text "") | some (.text "0x") => true
      | _ => false
  | _ => false

/-- The failure of a question whose reply is no result. -/
def toFailure : RpcReply → Failure
  | error code message _ =>
    .transport ("server returned an error response: error code " ++ toString code ++ ": " ++ message)
  | broken reason => .transport reason
  | result value => .transport ("deserialization error: unexpected " ++ value.print)

end RpcReply

namespace Rpc

def quantity (n : Nat) : Json := .text (Hex.number n)

/-- A number of a 64-bit register from hexadecimal text. -/
def quantity? (j : Json) : Option Nat := do
  match (← j.text?).toList with
  | '0' :: 'x' :: [] => none
  | '0' :: 'x' :: digits =>
    let n ← Hex.number? digits
    if n < registerSize then return n else none
  | _ => none

def quantityOrZero (j : Option Json) : Option Nat :=
  match Json.present? j with
  | none => some 0
  | some j => quantity? j

/-- A log of a reply; what a log of a block not yet closed lacks is zero. -/
def log? (j : Json) : Option RawLog := do
  let part := j.member?
  return {
    address := ← Json.field part "address"
    topics := ← Json.field part "topics"
    data := ← Hex.bytes? (← (← part "data").text?)
    height := ← quantityOrZero (part "blockNumber")
    txHash := (← Json.field? part "transactionHash").getD .zero
    logIndex := ← quantityOrZero (part "logIndex")
    removed := (← Json.field? part "removed").getD false }

def header? (j : Json) : Option BlockHeader := do
  return ⟨← quantity? (← j.member? "number"), ← Json.get? (← j.member? "hash"),
    ← quantity? (← j.member? "timestamp")⟩

end Rpc

namespace BlockRef

def tag : BlockRef → Json
  | number n => Rpc.quantity n
  | block => .text block.plainText

end BlockRef

namespace ChainRequest

def method : ChainRequest → String
  | logs _ _ _ => "eth_getLogs"
  | header _ => "eth_getBlockByNumber"
  | head => "eth_blockNumber"
  | call _ _ _ => "eth_call"

def params : ChainRequest → Option Json
  | logs first last addresses =>
    let places : List (String × Json) := match addresses with
      | [] => []
      | [a] => [("address", .of a)]
      | addresses => [("address", .of addresses)]
    some (.list [.ofMembers ([("fromBlock", Rpc.quantity first), ("toBlock", Rpc.quantity last),
      ("topics", .list [])] ++ places)])
  | header height => some (.list [Rpc.quantity height, .bool false])
  | head => none
  | call block contract input =>
    some (.list [.ofMembers [("to", .of contract), ("input", .text (Hex.bytes input))], block.tag])

/-- A value that was read, or the failure of a reply that could not be. -/
def readOr {α : Type} (reply : RpcReply) : Option α → Except Failure α
  | some a => .ok a
  | none => .error reply.toFailure

def readReply : (r : ChainRequest) → RpcReply → Except Failure r.Result
  | logs _ _ _, reply@(.result value) => readOr reply (Json.listOf? Rpc.log? value)
  | header height, .result .null =>
    .error (.notFound ("Block " ++ toString height ++ " not found"))
  | header _, reply@(.result value) => readOr reply (Rpc.header? value)
  | head, reply@(.result value) => readOr reply (Rpc.quantity? value)
  | call _ _ _, reply@(.result value) => do
    let output ← readOr reply (value.text?.bind Hex.bytes?)
    if output.isEmpty then .error .emptyResponse else return output
  | call _ _ _, reply => .error (if reply.isEmptyRevert then .emptyResponse else reply.toFailure)
  | _, reply => .error reply.toFailure

end ChainRequest

/-- Checks the address of a node. -/
def nodeAddress (address : String) : Except Failure Url :=
  (Url.read address).mapError fun fault =>
    .config ("invalid RPC_URL " ++ address ++ ": " ++ fault.message)

end StakeIndex
