/-!
Unsigned decimal numerals of a bounded type. A leading plus sign and leading zeros are read; anything
else beside digits is refused. The first character that fails decides which fault is reported.
-/
namespace StakeIndex

inductive NumeralFault where
  | empty
  | invalid
  | tooLarge
deriving DecidableEq, Repr

namespace NumeralFault

def message : NumeralFault → String
  | empty => "cannot parse integer from empty string"
  | invalid => "invalid digit found in string"
  | tooLarge => "number too large to fit in target type"

end NumeralFault

namespace Numeral

def digit? (c : Char) : Option Nat :=
  if '0' ≤ c ∧ c ≤ '9' then some (c.toNat - 48) else none

/-- One more digit after the value read so far. -/
def push (limit : Nat) (n : Nat) (c : Char) : Except NumeralFault Nat :=
  match digit? c with
  | none => .error .invalid
  | some d => if 10 * n + d < limit then .ok (10 * n + d) else .error .tooLarge

/-- The value below `limit` of a text. -/
def read (limit : Nat) (text : String) : Except NumeralFault Nat :=
  match text.toList with
  | [] => .error .empty
  | ['+'] => .error .invalid
  | '+' :: rest => rest.foldlM (push limit) 0
  | cs => cs.foldlM (push limit) 0

def read? (limit : Nat) (text : String) : Option Nat :=
  (read limit text).toOption

/-- Digits only, without sign or bound. -/
def digits? (cs : List Char) : Option Nat :=
  if cs.isEmpty then none
  else cs.foldlM (fun n c => (digit? c).map (10 * n + ·)) 0

end Numeral
end StakeIndex
