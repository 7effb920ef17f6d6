import StakeIndex.Table
import StakeIndex.Text.Blank
import StakeIndex.Text.Numeral
import StakeIndex.Word

/-!
Versions of contracts. Any text is a version; versions are ordered by their components between points,
numbers as numbers and above everything else, and by their text where the components are the same.
-/
namespace StakeIndex

inductive VersionPart where
  | text (s : String)
  | number (n : Nat)
deriving DecidableEq, Repr

namespace VersionPart

/-- Texts come before numbers. -/
def rank : VersionPart → Nat × Nat × String
  | text s => (0, 0, s)
  | number n => (1, n, "")

theorem rank_inj {a b : VersionPart} (h : a.rank = b.rank) : a = b := by
  cases a <;> cases b <;> simp_all [rank]

instance : Ord VersionPart := ⟨compareOn rank⟩
instance : Std.TransOrd VersionPart := inferInstanceAs (Std.TransCmp (compareOn rank))
instance : Std.LawfulEqOrd VersionPart where
  eq_of_compare h := rank_inj (Std.LawfulEqOrd.eq_of_compare (α := Nat × Nat × String) h)

/-- The component in a text: a number if it is the numeral of one that a register holds. -/
def read (cs : List Char) : VersionPart :=
  match Numeral.read? registerSize (String.ofList cs) with
  | some n => number n
  | none => text (String.ofList cs)

end VersionPart

structure Version where
  text : String
deriving DecidableEq, Repr, Inhabited

namespace Version

@[ext] theorem ext {a b : Version} (h : a.text = b.text) : a = b := by
  cases a; cases b; cases h; rfl

/-- The version that a text names: blanks around it and letters `v` in front of it do not count. -/
def read (text : String) : Version :=
  ⟨String.ofList ((trimBlanks text.toList).dropWhile (· = 'v'))⟩

def parts (v : Version) : List VersionPart :=
  (splitAtChar '.' v.text.toList).map VersionPart.read

/-- The order of versions: components first, then the text. -/
def order : Version → Version → Ordering := compareLex (compareOn parts) (compareOn text)

instance : Ord Version := ⟨order⟩
instance : Std.TransOrd Version :=
  inferInstanceAs (Std.TransCmp (compareLex (compareOn parts) (compareOn text)))
instance : Std.LawfulEqOrd Version where
  eq_of_compare h := ext (Std.LawfulEqOrd.eq_of_compare (α := String)
    (Ordering.then_eq_eq.1 h).2)

end Version
end StakeIndex
