import Mathlib.Algebra.Group.Nat.Defs
import StakeIndex.Text.Numeral

/-!
Numerals of numbers are read back as these numbers, as far as they are below the bound, with or without zeros
behind them.
-/
namespace StakeIndex.Numeral

theorem toList_toString (n : Nat) : (toString n).toList = Nat.toDigits 10 n := by
  rw [Nat.toString_eq_ofList_toDigits, String.toList_ofList]

theorem isDigit_iff {c : Char} : c.isDigit ↔ '0' ≤ c ∧ c ≤ '9' := by
  rw [Char.isDigit, Bool.and_eq_true, decide_eq_true_iff, decide_eq_true_iff]
  rfl

theorem digit?_of_isDigit {c : Char} (digit : c.isDigit) : digit? c = some (c.toNat - 48) :=
  if_pos (isDigit_iff.1 digit)

theorem le_ofDigitChars (ds : List Char) (n : Nat) : n ≤ Nat.ofDigitChars 10 ds n := by
  induction ds generalizing n with
  | nil => exact Nat.le_refl n
  | cons c rest ih =>
    rw [Nat.ofDigitChars_cons]
    exact Nat.le_trans (by omega) (ih _)

/-- Digits are read one after another as long as the number that they make is below the limit. -/
theorem foldlM_push {cs : List Char} (digits : ∀ c ∈ cs, c.isDigit) {limit n : Nat} (low : n < limit) :
    cs.foldlM (push limit) n =
      if Nat.ofDigitChars 10 cs n < limit then .ok (Nat.ofDigitChars 10 cs n) else .error .tooLarge := by
  induction cs generalizing n with
  | nil =>
    rw [Nat.ofDigitChars_nil, if_pos low]
    rfl
  | cons c cs ih =>
    obtain ⟨digit, digits⟩ := List.forall_mem_cons.1 digits
    rw [List.foldlM_cons, push, digit?_of_isDigit digit, Nat.ofDigitChars_cons]
    dsimp only
    by_cases below : 10 * n + (c.toNat - 48) < limit
    · rw [if_pos below]
      exact ih digits below
    · -- The number only grows with the digits behind.
      have more := le_ofDigitChars cs (10 * n + (c.toNat - '0'.toNat))
      rw [if_neg below, if_neg fun low => below (Nat.lt_of_le_of_lt more low)]
      rfl

/-- A numeral of digits only is read as its number below the limit. -/
theorem read_digits {cs : List Char} (filled : cs ≠ []) (digits : ∀ c ∈ cs, c.isDigit) {limit : Nat}
    (positive : 0 < limit) : read limit (String.ofList cs) =
      if Nat.ofDigitChars 10 cs 0 < limit then .ok (Nat.ofDigitChars 10 cs 0) else .error .tooLarge := by
  unfold read
  rw [String.toList_ofList]
  split
  next => exact absurd rfl filled
  next => cases digits '+' List.mem_cons_self
  next => cases digits '+' List.mem_cons_self
  next => exact foldlM_push digits positive

theorem isDigit_toDigits (n : Nat) : ∀ c ∈ Nat.toDigits 10 n, c.isDigit := fun _ member =>
  Nat.isDigit_of_mem_toDigits (by decide) (by decide) member

/-- The numeral of a number below a bound is read as the number. -/
theorem read_toString {limit n : Nat} (low : n < limit) : read limit (toString n) = .ok n := by
  rw [Nat.toString_eq_ofList_toDigits,
    read_digits Nat.toDigits_ne_nil (isDigit_toDigits n) (Nat.zero_lt_of_lt low),
    Nat.ofDigitChars_ten_toDigits, if_pos low]

/-- With zeros behind it, it is read as the number times a power of ten. -/
theorem read_toDigits_zeros {limit : Nat} (positive : 0 < limit) (n zeros : Nat) :
    read limit (String.ofList (Nat.toDigits 10 n ++ List.replicate zeros '0')) =
      if n * 10 ^ zeros < limit then .ok (n * 10 ^ zeros) else .error .tooLarge := by
  have digits : ∀ c ∈ Nat.toDigits 10 n ++ List.replicate zeros '0', c.isDigit :=
    List.forall_mem_append.2 ⟨isDigit_toDigits n, fun c member => List.eq_of_mem_replicate member ▸ rfl⟩
  rw [read_digits (List.append_ne_nil_of_left_ne_nil Nat.toDigits_ne_nil _) digits positive,
    Nat.ofDigitChars_append, Nat.ofDigitChars_ten_toDigits, Nat.ofDigitChars_replicate_zero, Nat.mul_comm]

end StakeIndex.Numeral
