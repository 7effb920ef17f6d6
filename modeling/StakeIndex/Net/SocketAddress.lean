import StakeIndex.Net.Ipv6
import StakeIndex.Text.Numeral

/-!
The address of a service: an address of the internet protocol and a port.
-/
namespace StakeIndex

/-- Where a service listens. An address of the sixth version can be bound to an interface. -/
inductive SocketAddress where
  | v4 (ip : Ipv4) (port : Nat)
  | v6 (ip : Ipv6) (scope : Nat) (port : Nat)
deriving DecidableEq, Repr, Inhabited

namespace SocketAddress

/-- Digits of a number below a bound; leading zeros are allowed, a sign is not. -/
def number? (limit : Nat) (cs : List Char) : Option Nat := do
  let n ← Numeral.digits? cs
  if n < limit then some n else none

def port? : List Char → Option Nat
  | ':' :: rest => number? (1 <<< 16) rest
  | _ => none

/-- The address inside the brackets, with an interface behind a percent sign. -/
def scoped? (cs : List Char) : Option (Ipv6 × Nat) := do
  let ip ← Ipv6.read? (cs.takeWhile (· ≠ '%'))
  match cs.dropWhile (· ≠ '%') with
  | [] => return (ip, 0)
  | _ :: scope => return (ip, ← number? (1 <<< 32) scope)

def read? (text : String) : Option SocketAddress :=
  match text.toList with
  | '[' :: rest => do
    let (ip, scope) ← scoped? (rest.takeWhile (· ≠ ']'))
    return .v6 ip scope (← port? ((rest.dropWhile (· ≠ ']')).drop 1))
  | cs => do
    let ip ← Ipv4.read? (String.ofList (cs.takeWhile (· ≠ ':')))
    return .v4 ip (← port? (cs.dropWhile (· ≠ ':')))

/-- Whether an address is the host's own: a loopback address, or the one that stands for all. -/
def isLocal : SocketAddress → Bool
  | v4 ip _ => ip.first = 127 || ip == ⟨0, 0, 0, 0⟩
  | v6 ip _ _ => ip.groups.take 7 == List.replicate 7 0 && (ip.groups.getD 7 0 ≤ 1)

def text : SocketAddress → String
  | v4 ip port => ip.text ++ ":" ++ toString port
  | v6 ip scope port =>
    let place := if scope = 0 then "" else "%" ++ toString scope
    "[" ++ ip.text ++ place ++ "]:" ++ toString port

end SocketAddress
end StakeIndex
