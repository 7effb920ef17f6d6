import StakeIndex.Failure
import StakeIndex.Json.Basic
import StakeIndex.Net.Url

/-!
Sessions with the database: what the address of a database says about the session to open. Settings in
the query of the address take precedence over its other parts; unknown ones are passed over.
-/
namespace StakeIndex.Sql

structure Session where
  user : Option String
  password : Option String := none
  host : String
  port : Nat := 5432
  database : Option String
  applicationName : String
  connections : Nat
deriving DecidableEq, Repr

def indexerName : String := "skale-indexer"

def badAddress (detail : String) : Failure := .database ("error with configuration: " ++ detail)

/-- The text of an escaped part of an address; nothing if the part is empty. -/
def unescape (part : String) : Except Failure (Option String) :=
  if part.isEmpty then .ok none
  else match Utf8.read? (Form.percentDecode (Utf8.bytes part)) with
    | some text => .ok (some text)
    | none => .error (badAddress "invalid utf-8 sequence")

def securityModes : List String := ["disable", "allow", "prefer", "require", "verify-ca", "verify-full"]

def readBounded (limit : Nat) (text : String) : Except Failure Nat :=
  (Numeral.read limit text).mapError fun fault => badAddress fault.message

namespace Session

def setting (s : Session) (name value : String) : Except Failure Session :=
  match name with
  | "sslmode" | "ssl-mode" =>
    if securityModes.contains (lowerText value) then .ok s
    else .error (badAddress
      ("error with configuration: unknown value " ++ Json.quoted value ++ " for `ssl_mode`"))
  | "statement-cache-capacity" => do
    let _ ← readBounded (1 <<< 64) value
    return s
  | "host" => .ok { s with host := value }
  | "hostaddr" =>
    if (Ipv4.read? value).isSome || (Ipv6.read? value.toList).isSome then .ok { s with host := value }
    else .error (badAddress "invalid IP address syntax")
  | "port" => do return { s with port := ← readBounded (1 <<< 16) value }
  | "dbname" => .ok { s with database := some value }
  | "user" => .ok { s with user := some value }
  | "password" => .ok { s with password := some value }
  | _ => .ok s

/-- The session for an address, with at most so many connections. The application's name is always the
indexer's own. -/
def ofUrl (address : String) (connections : Nat) : Except Failure Session := do
  let url ← (Url.read address).mapError fun fault => badAddress fault.message
  let user ← unescape url.user
  let password ← (url.password.mapM unescape)
  let database ← unescape (String.ofList (url.path.toList.dropWhile (· = '/')))
  let plain : Session := {
    user, password := password.join, host := url.host, port := url.port.getD 5432, database,
    applicationName := indexerName, connections }
  (Form.pairs (url.query.getD "").toList).foldlM (fun s (name, value) => s.setting name value) plain

inductive Opening where
  | opened
  | refused (message : String)
  | unreachable (reason : String)

/-- Why a session cannot be used after an attempt to open it. Without any connection to open it on, the
time given for that passes. -/
def failure? (s : Session) (opening : Opening) : Option Failure :=
  if s.connections = 0 then some .poolTimedOut
  else match opening with
    | .opened => none
    | .refused message => some (.database ("error returned from database: " ++ message))
    | .unreachable reason => some (.database ("error communicating with database: " ++ reason))

end Session
end StakeIndex.Sql
