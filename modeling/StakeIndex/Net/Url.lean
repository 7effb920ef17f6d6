import StakeIndex.Net.Ipv6
import StakeIndex.Text.Form
import StakeIndex.Text.Numeral

/-!
Absolute addresses of the web, as far as a program needs them that connects to a server: the scheme, who
logs in, the host with its port, the path and the query. International names are kept as they are.
-/
namespace StakeIndex

/-- Why a text is no absolute address. -/
inductive UrlFault where
  | relative
  | emptyHost
  | invalidPort
  | invalidIpv4
  | invalidIpv6
  | invalidHost
deriving DecidableEq, Repr

def UrlFault.message : UrlFault → String
  | relative => "relative URL without a base"
  | emptyHost => "empty host"
  | invalidPort => "invalid port number"
  | invalidIpv4 => "invalid IPv4 address"
  | invalidIpv6 => "invalid IPv6 address"
  | invalidHost => "invalid international domain name"

/-- An absolute address. What is escaped in it is still so. -/
structure Url where
  scheme : String
  user : String
  password : Option String
  host : String
  port : Option Nat
  path : String
  query : Option String
deriving DecidableEq, Repr, Inhabited

namespace Url

/-- A text without blanks and control characters at its ends and without line breaks and tabs. -/
def clean (cs : List Char) : List Char :=
  let outer := fun (c : Char) => c.toNat ≤ 32
  let trimmed := ((cs.dropWhile outer).reverse.dropWhile outer).reverse
  trimmed.filter fun c => c ≠ '\t' && c ≠ '\n' && c ≠ '\r'

/-- The scheme before the first colon, in lower case, and the rest. -/
def scheme? (cs : List Char) : Option (String × List Char) :=
  let name := cs.takeWhile fun c => c.isAlphanum || c = '+' || c = '-' || c = '.'
  match name, cs.drop name.length with
  | first :: _, ':' :: rest =>
    if first.isAlpha then some (lowerText (String.ofList name), rest) else none
  | _, _ => none

/-- The port that a scheme of the web has unless another is given. -/
def defaultPort : String → Option Nat
  | "http" => some 80
  | "ws" => some 80
  | "https" => some 443
  | "wss" => some 443
  | "ftp" => some 21
  | _ => none

/-- Whether a scheme always names a host, with slashes of either kind before it. -/
def isWeb (scheme : String) : Bool := (defaultPort scheme).isSome

/-- Whether a character ends the part of an address that names the server. -/
def endsAuthority (web : Bool) (c : Char) : Bool :=
  c = '/' || c = '?' || c = '#' || (web && c = '\\')

/-- The text before the last occurrence of a character and the text behind it. -/
def atLast (mark : Char) (cs : List Char) : Option (List Char × List Char) :=
  let back := cs.reverse.takeWhile (· ≠ mark)
  match cs.reverse.drop back.length with
  | _ :: front => some (front.reverse, back.reverse)
  | [] => none

/-- A number of an address of the fourth version: hexadecimal behind `0x`, octal behind a zero. -/
def ipv4Number? : List Char → Option Nat
  | [] => none
  | ['0'] => some 0
  | '0' :: 'x' :: rest => Hex.number? rest
  | '0' :: 'X' :: rest => Hex.number? rest
  | '0' :: rest => rest.foldlM (fun n c =>
      if '0' ≤ c ∧ c ≤ '7' then some (8 * n + (c.toNat - 48)) else none) 0
  | cs => Numeral.digits? cs

/-- The labels of a name without an empty one at its end. -/
def labels (host : List Char) : List (List Char) :=
  let parts := splitAtChar '.' host
  if 1 < parts.length && (parts.getLast?.map List.isEmpty).getD false then parts.dropLast else parts

/-- Whether the last label of a name is a number, so that the whole must be an address. -/
def endsInNumber (host : List Char) : Bool :=
  match (labels host).getLast? with
  | some last => !last.isEmpty && (last.all Char.isDigit || (ipv4Number? last).isSome)
  | none => false

/-- Whether numbers, of which the last fills all places left, are an address of four bytes. -/
def isIpv4 (host : List Char) : Bool :=
  let parts := labels host
  match parts.mapM ipv4Number? with
  | none => false
  | some numbers =>
    numbers.length ≤ 4 && numbers.dropLast.all (· ≤ 255) &&
      (numbers.getLast?.map fun n => decide (n < Nat.pow 256 (5 - numbers.length))).getD false

/-- Whether a character cannot stand in the name of a host. -/
def isForbidden (web : Bool) (c : Char) : Bool :=
  c = ' ' || c = '#' || c = '/' || c = ':' || c = '<' || c = '>' || c = '?' || c = '@' || c = '[' ||
    c = '\\' || c = ']' || c = '^' || c = '|' || c.toNat = 0 ||
    (web && (c = '%' || c.toNat < 32 || c.toNat = 127))

def readHost (web : Bool) (cs : List Char) : Except UrlFault String :=
  match cs with
  | '[' :: rest =>
    if rest.getLast? = some ']' ∧ (Ipv6.read? rest.dropLast).isSome then .ok (String.ofList cs)
    else .error .invalidIpv6
  | _ =>
    let plain := if web then
        (Utf8.text (Form.percentDecode (Utf8.bytes (String.ofList cs)))).toList
      else cs
    if plain.any (isForbidden web) then .error .invalidHost
    else if web && endsInNumber plain && !isIpv4 plain then .error .invalidIpv4
    else .ok (String.ofList plain)

/-- The port behind a colon. None is given by no digits, or by the scheme's own port. -/
def readPort (scheme : String) (cs : List Char) : Except UrlFault (Option Nat) :=
  match cs with
  | [] => .ok none
  | _ =>
    match Numeral.digits? cs with
    | some n =>
      if n < 1 <<< 16 then .ok (if defaultPort scheme = some n then none else some n)
      else .error .invalidPort
    | none => .error .invalidPort

/-- Who logs in: a name and a password behind the first colon. -/
def readUser (cs : List Char) : String × Option String :=
  let name := String.ofList (cs.takeWhile (· ≠ ':'))
  match cs.dropWhile (· ≠ ':') with
  | [] => (name, none)
  | _ :: password => (name, if password.isEmpty then none else some (String.ofList password))

/-- The host and the port; the host ends at the first colon outside of brackets. -/
def splitHost (cs : List Char) : List Char × Option (List Char) :=
  let inBrackets := match cs with
    | '[' :: _ => (cs.takeWhile (· ≠ ']')).length + 1
    | _ => 0
  let rest := cs.drop inBrackets
  let host := cs.take inBrackets ++ rest.takeWhile (· ≠ ':')
  match rest.dropWhile (· ≠ ':') with
  | [] => (host, none)
  | _ :: port => (host, some port)

/-- Path and query, without what follows a number sign. -/
def splitPath (cs : List Char) : String × Option String :=
  let cs := cs.takeWhile (· ≠ '#')
  let path := String.ofList (cs.takeWhile (· ≠ '?'))
  match cs.dropWhile (· ≠ '?') with
  | [] => (path, none)
  | _ :: query => (path, some (String.ofList query))

/-- An address from the part behind the slashes. -/
def readServer (scheme : String) (cs : List Char) : Except UrlFault Url := do
  let web := isWeb scheme
  let authority := cs.takeWhile fun c => !endsAuthority web c
  let (path, query) := splitPath (cs.drop authority.length)
  let (user, password, server) := match atLast '@' authority with
    | none => ("", none, authority)
    | some (front, server) =>
      let (user, password) := readUser front
      (user, password, server)
  let (hostText, portText) := splitHost server
  let host ← readHost web hostText
  if hostText.isEmpty && (web || portText.isSome || (atLast '@' authority).isSome) then
    throw .emptyHost
  let port ← readPort scheme (portText.getD [])
  return { scheme, user, password, host, port, path, query }

def read (text : String) : Except UrlFault Url :=
  match scheme? (clean text.toList) with
  | none => .error .relative
  | some (scheme, rest) =>
    if isWeb scheme then readServer scheme (rest.dropWhile fun c => c = '/' || c = '\\')
    else match rest with
      | '/' :: '/' :: rest => readServer scheme rest
      | rest =>
        let (path, query) := splitPath rest
        .ok { scheme, user := "", password := none, host := "", port := none, path, query }

end Url
end StakeIndex
