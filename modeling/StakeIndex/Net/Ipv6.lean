import StakeIndex.Net.Ipv4
import StakeIndex.Text.Hex

/-!
Addresses of the internet protocol's sixth version: eight groups of sixteen bits. In text the longest
run of two or more zero groups is left out, and the last two groups may be written as an address of the
fourth version.
-/
namespace StakeIndex

structure Ipv6 where
  groups : List Nat
deriving DecidableEq, Repr, Inhabited

namespace Ipv6

/-- A group of one to four hexadecimal digits. -/
def group? (cs : List Char) : Option Nat :=
  if cs.isEmpty || 4 < cs.length then none else Hex.number? cs

/-- Groups separated by colons; the last piece may be an address of the fourth version. -/
def pieces? : List (List Char) → Option (List Nat)
  | [] => some []
  | [last] =>
    match Ipv4.read? (String.ofList last) with
    | some ip => some [256 * ip.first.toNat + ip.second.toNat, 256 * ip.third.toNat + ip.fourth.toNat]
    | none => (group? last).map ([·])
  | piece :: rest => do return (← group? piece) :: (← pieces? rest)

/-- Groups only, without an address of the fourth version. -/
def plain? (cs : List Char) : Option (List Nat) :=
  if cs.isEmpty then some [] else (splitAtChar ':' cs).mapM group?

/-- Groups of a text that may be empty. -/
def groups? (cs : List Char) : Option (List Nat) :=
  if cs.isEmpty then some [] else pieces? (splitAtChar ':' cs)

/-- The text before the first pair of colons and the text behind it. -/
def atGap : List Char → Option (List Char × List Char)
  | ':' :: ':' :: rest => some ([], rest)
  | c :: rest => (atGap rest).map fun (front, back) => (c :: front, back)
  | [] => none

/-- An address from its text. A gap stands for at least one group. -/
def read? (cs : List Char) : Option Ipv6 :=
  match atGap cs with
  | none => do
    let groups ← groups? cs
    if groups.length = 8 then some ⟨groups⟩ else none
  | some (front, back) => do
    let head ← plain? front
    let tail ← groups? back
    if head.length + tail.length ≤ 7 then
      some ⟨head ++ List.replicate (8 - head.length - tail.length) 0 ++ tail⟩
    else none

/-- Where the longest run of zeros begins and how long it is; of two the first. The arguments are the
place of the first group, the run that is going on and the longest one so far, as start and length. -/
def zeros : Nat → Nat × Nat → Nat × Nat → List Nat → Nat × Nat
  | _, _, best, [] => best
  | i, current, best, g :: rest =>
    if g = 0 then
      let current := if current.2 = 0 then (i, 1) else (current.1, current.2 + 1)
      zeros (i + 1) current (if best.2 < current.2 then current else best) rest
    else zeros (i + 1) (0, 0) best rest

/-- Groups without leading zeros, separated by colons. -/
def groupsText (groups : List Nat) : String :=
  String.intercalate ":" (groups.map fun g => String.ofList (Hex.digits (Hex.width g) g))

/-- The text of an address. One that stands for an address of the fourth version shows it. -/
def text (ip : Ipv6) : String :=
  match ip.groups with
  | [0, 0, 0, 0, 0, 0xFFFF, a, b] =>
    "::ffff:" ++ (Ipv4.ofBytes [.ofNat (a / 256), .ofNat a, .ofNat (b / 256), .ofNat b]).text
  | groups =>
    let (start, length) := zeros 0 (0, 0) (0, 0) groups
    if 1 < length then
      groupsText (groups.take start) ++ "::" ++ groupsText (groups.drop (start + length))
    else groupsText groups

end Ipv6
end StakeIndex
