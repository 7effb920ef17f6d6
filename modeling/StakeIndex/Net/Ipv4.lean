import StakeIndex.Text.Blank
import StakeIndex.Text.Numeral

/-!
Addresses of the internet protocol's fourth version and their dotted text.
-/
namespace StakeIndex

structure Ipv4 where
  first : UInt8
  second : UInt8
  third : UInt8
  fourth : UInt8
deriving DecidableEq, Repr, Inhabited

namespace Ipv4

/-- Four numbers separated by points. -/
def text (ip : Ipv4) : String :=
  toString ip.first.toNat ++ "." ++ toString ip.second.toNat ++ "." ++
    toString ip.third.toNat ++ "." ++ toString ip.fourth.toNat

/-- A byte in decimal without leading zeros. -/
def octet? (cs : List Char) : Option UInt8 := do
  let n ← Numeral.digits? cs
  if n < 256 ∧ cs.length ≤ 3 ∧ (cs.length = 1 ∨ cs.head? ≠ some '0') then
    return UInt8.ofNat n
  else none

def read? (text : String) : Option Ipv4 :=
  match splitAtChar '.' text.toList with
  | [a, b, c, d] => do return ⟨← octet? a, ← octet? b, ← octet? c, ← octet? d⟩
  | _ => none

/-- The address in the first four of some bytes. -/
def ofBytes (bs : List UInt8) : Ipv4 :=
  ⟨bs.getD 0 0, bs.getD 1 0, bs.getD 2 0, bs.getD 3 0⟩

end Ipv4
end StakeIndex
