import Mathlib.Algebra.Order.Field.Power
import Mathlib.Algebra.Order.Ring.Rat
import Mathlib.Data.List.TakeWhile
import Mathlib.Tactic.NormNum
import Mathlib.Tactic.Positivity
import StakeIndex.Failure
import StakeIndex.Proofs.Numerals
import StakeIndex.Proofs.Words

/-!
The number that a decimal stands for. Taking zeros from the end of the digits leaves the number as it is, and a decimal
is read as a word or an address of the chain exactly when its number is one, whatever the form in which it is written.
-/
namespace StakeIndex

theorem Word.ofNat?_eq_some_iff {n : Nat} {w : Word} : ofNat? n = some w ↔ n = w.toNat := by
  unfold ofNat?
  split
  next low =>
    rw [Option.some.injEq]
    exact ⟨fun same => same ▸ rfl, fun same => ext same⟩
  next high =>
    simp only [reduceCtorEq, false_iff]
    exact fun same => high (same ▸ w.toNat_lt)

theorem Address.ofNat?_eq_some_iff {n : Nat} {a : Address} : ofNat? n = some a ↔ n = a.toNat := by
  unfold ofNat?
  split
  next low =>
    rw [Option.some.injEq]
    exact ⟨fun same => same ▸ rfl, fun same => ext same⟩
  next high =>
    simp only [reduceCtorEq, false_iff]
    exact fun same => high (same ▸ a.toNat_lt)

/-- The 20 bytes of an address, most significant first: the last ones of its word. -/
def Address.bytes (a : Address) : List UInt8 := a.toWord.toBytes.drop 12

namespace Address

theorem length_bytes (a : Address) : a.bytes.length = 20 := by
  rw [bytes, List.length_drop, Word.length_toBytes]

/-- Zeros stand before the bytes of an address in its word. -/
theorem toBytes_toWord (a : Address) : a.toWord.toBytes = List.replicate 12 0 ++ a.bytes := by
  have zeros : a.toWord.toBytes.take 12 = List.replicate 12 0 := by
    have byte (i : Nat) (first : i < 12) : UInt8.ofNat (a.toNat >>> (8 * (31 - i))) = 0 := by
      have power : (1 <<< 160 : Nat) ≤ 2 ^ (8 * (31 - i)) := by
        rw [Nat.one_shiftLeft]
        exact Nat.pow_le_pow_right (by decide) (by omega)
      rw [Nat.shiftRight_eq_div_pow, Nat.div_eq_of_lt (Nat.lt_of_lt_of_le a.toNat_lt power)]
      rfl
    have range : (List.range 32).take 12 = List.range 12 := rfl
    rw [Word.toBytes, ← List.map_take, range, List.eq_replicate_iff]
    refine ⟨rfl, fun b member => ?_⟩
    obtain ⟨i, below, rfl⟩ := List.mem_map.1 member
    exact byte i (List.mem_range.1 below)
  rw [bytes, ← zeros, List.take_append_drop]

theorem natOfBytes_bytes (a : Address) : Word.natOfBytes a.bytes = a.toNat := by
  have whole := Word.natOfBytes_toBytes a.toWord
  rw [toBytes_toWord, Word.natOfBytes, List.foldl_append] at whole
  exact whole

end Address

namespace Decimal

/-- The number of a decimal. -/
def value (d : Decimal) : ℚ := d.digits * (10 : ℚ) ^ (-d.places)

@[simp] theorem value_ofInt (n : Int) : (ofInt n).value = n := by
  simp [value, ofInt]

section Zeros

variable {fuel n : Nat}

/-- Only zeros are counted. -/
theorem pow_tens_dvd : 10 ^ tens fuel n ∣ n := by
  induction fuel generalizing n with
  | zero => exact Nat.one_dvd n
  | succ fuel ih =>
    rw [tens]
    split
    next last =>
      rw [Nat.pow_succ']
      exact Nat.mul_dvd_of_dvd_div (Nat.dvd_of_mod_eq_zero last.2) ih
    next => exact Nat.one_dvd n

/-- As many zeros are counted as there are, if the count is allowed to go on for all digits. -/
theorem not_dvd_div_pow_tens (filled : n ≠ 0) (enough : n < 10 ^ fuel) : ¬10 ∣ n / 10 ^ tens fuel n := by
  induction fuel generalizing n with
  | zero => exact absurd (Nat.lt_one_iff.1 enough) filled
  | succ fuel ih =>
    rw [tens]
    split
    next last =>
      have tenth : n / 10 ≠ 0 := by omega
      rw [Nat.pow_succ', ← Nat.div_div_eq_div_mul]
      exact ih tenth (by rw [Nat.pow_succ] at enough; omega)
    next last =>
      rw [Nat.pow_zero, Nat.div_one]
      exact fun zero => last ⟨filled, Nat.mod_eq_zero_of_dvd zero⟩

theorem lt_ten_pow_log2 (filled : n ≠ 0) : n < 10 ^ (Nat.log2 n + 1) :=
  Nat.lt_of_lt_of_le ((Nat.log2_lt filled).1 (Nat.lt_succ_self _)) (Nat.pow_le_pow_left (by decide) _)

end Zeros

variable {d : Decimal}

/-- The form without zeros has lost all zeros at the end of its digits, and as many places. -/
theorem exists_normalised (filled : d.digits ≠ 0) :
    ∃ (k : Nat) (m : Int), d.normalised = ⟨m, d.places - k⟩ ∧ d.digits = m * 10 ^ k ∧ ¬(10 : Int) ∣ m := by
  have some : d.digits.natAbs ≠ 0 := Int.natAbs_ne_zero.2 filled
  have ends := not_dvd_div_pow_tens some (lt_ten_pow_log2 some)
  have form : d.normalised = ⟨d.digits / ((10 ^ tens (Nat.log2 d.digits.natAbs + 1) d.digits.natAbs : Nat) : Int),
      d.places - tens (Nat.log2 d.digits.natAbs + 1) d.digits.natAbs⟩ := if_neg filled
  rw [form]
  generalize count : tens (Nat.log2 d.digits.natAbs + 1) d.digits.natAbs = k at ends ⊢
  have whole : ((10 ^ k : Nat) : Int) ∣ d.digits := Int.natCast_dvd.2 (count ▸ pow_tens_dvd)
  refine ⟨k, _, rfl, ?_, fun zero => ends ?_⟩
  · exact_mod_cast (Int.ediv_mul_cancel whole).symm
  · have tenth := Int.natAbs_dvd_natAbs.2 zero
    rwa [Int.natAbs_ediv_of_dvd whole] at tenth

theorem normalised_of_zero (zero : d.digits = 0) : d.normalised = ⟨0, 0⟩ := if_pos zero

/-- The form without zeros is the same number. -/
theorem value_normalised : d.normalised.value = d.value := by
  by_cases zero : d.digits = 0
  · simp [normalised_of_zero zero, value, zero]
  · obtain ⟨k, m, form, digits, -⟩ := exists_normalised zero
    have ten : (10 : ℚ) ≠ 0 := by norm_num
    have places : -(d.places - (k : Int)) = k + -d.places := by omega
    rw [form, value, value, digits, places, zpow_add₀ ten, zpow_natCast, Int.cast_mul, mul_assoc]
    push_cast
    rfl

/-- The form without zeros ends in another digit, or is zero without places. -/
theorem normalised_ends : d.normalised = ⟨0, 0⟩ ∨ ¬(10 : Int) ∣ d.normalised.digits := by
  by_cases zero : d.digits = 0
  · exact .inl (normalised_of_zero zero)
  · obtain ⟨k, m, form, -, ends⟩ := exists_normalised zero
    exact .inr (form ▸ ends)

/-- A number with places is a whole one only if its digits end in a zero. -/
theorem dvd_digits_of_value {n : Nat} (fraction : 0 < d.places) (same : d.value = n) : (10 : Int) ∣ d.digits := by
  have ten : (10 : ℚ) ≠ 0 := by norm_num
  have power : (10 : ℚ) ^ d.places = 10 ^ d.places.toNat := by
    rw [← zpow_natCast, Int.toNat_of_nonneg fraction.le]
  have scaled : (d.digits : ℚ) = n * 10 ^ d.places.toNat := by
    rw [← same, value, ← power, mul_assoc, ← zpow_add₀ ten, neg_add_cancel, zpow_zero, mul_one]
  have digits : d.digits = n * 10 ^ d.places.toNat := by exact_mod_cast scaled
  rw [digits]
  exact Dvd.dvd.mul_left (dvd_pow_self 10 (by omega)) _

/-- Without places the number is the digits with the zeros to add. -/
theorem value_of_whole (positive : 0 ≤ d.digits) (whole : d.places ≤ 0) :
    d.value = ((d.digits.toNat * 10 ^ (-d.places).toNat : Nat) : ℚ) := by
  have zeros : -d.places = ((-d.places).toNat : Int) := by omega
  have digits : (d.digits : ℚ) = ((d.digits.toNat : Int) : ℚ) := by rw [Int.toNat_of_nonneg positive]
  rw [value, zeros, zpow_natCast, digits, Int.toNat_natCast]
  push_cast
  rfl

/-- What has more than 78 zeros behind its digits is too large for a word. Only zero could have so many zeros and
fit, but its form has no places. -/
theorem limit_le_of_long (ends : d = ⟨0, 0⟩ ∨ ¬(10 : Int) ∣ d.digits) (positive : 0 ≤ d.digits)
    (long : 78 < -d.places) : 2 ^ 256 ≤ d.digits.toNat * 10 ^ (-d.places).toNat := by
  have filled : 1 ≤ d.digits.toNat := by
    obtain rfl | digit := ends
    · exact absurd long (by decide)
    · exact Nat.one_le_iff_ne_zero.2 fun zero => digit (by simp [show d.digits = 0 by omega])
  have power : 10 ^ 79 ≤ 10 ^ (-d.places).toNat := Nat.pow_le_pow_right (by decide) (by omega)
  exact Nat.le_trans (by decide) (Nat.le_trans power (Nat.le_mul_of_pos_left _ filled))

/-- A decimal is read as a word exactly when its number is the word's. -/
theorem toWord_eq_ok_iff {w : Word} : d.toWord = .ok w ↔ d.value = w.toNat := by
  have ends := normalised_ends (d := d)
  rw [← value_normalised, toWord]
  generalize d.normalised = n at ends ⊢
  split
  next negative =>
    have below : n.value < 0 := mul_neg_of_neg_of_pos (Int.cast_lt_zero.2 negative) (by positivity)
    simp only [reduceCtorEq, false_iff]
    exact fun same => absurd (same ▸ below) (not_lt.2 (Nat.cast_nonneg _))
  split
  next _ fraction =>
    simp only [reduceCtorEq, false_iff]
    intro same
    obtain rfl | digit := ends
    · exact absurd fraction (lt_irrefl _)
    · exact digit (dvd_digits_of_value fraction same)
  next positive whole =>
    rw [value_of_whole (not_lt.1 positive) (not_lt.1 whole), Nat.cast_inj]
    split
    next long =>
      simp only [reduceCtorEq, false_iff]
      intro same
      have large := limit_le_of_long ends (not_lt.1 positive) long
      exact absurd w.toNat_lt (Nat.not_lt.2 (same ▸ large))
    next =>
      split
      next v found =>
        have number : n.digits.toNat * 10 ^ (-n.places).toNat = v.toNat := Word.ofNat?_eq_some_iff.1 found
        rw [number, Except.ok.injEq]
        exact ⟨fun same => same ▸ rfl, fun same => Word.ext same⟩
      next none =>
        simp only [reduceCtorEq, false_iff]
        exact fun same => nomatch none.symm.trans (Word.ofNat?_eq_some_iff.2 same)

/-- The numeral of a whole number, with the zeros that are to add written out. -/
def writtenOut (d : Decimal) : String :=
  String.ofList (Nat.toDigits 10 d.digits.toNat ++ List.replicate (-d.places).toNat '0')

/-- To read a whole number as a word is to write its zeros out and read the numeral below the limit of words, however
many zeros there are. -/
theorem toWord_eq_read (positive : 0 ≤ d.normalised.digits) (whole : d.normalised.places ≤ 0) :
    d.toWord = match Numeral.read (2 ^ 256) d.normalised.writtenOut with
      | .ok n => .ok (.ofNat n)
      | .error _ => .error .tooLarge := by
  have ends := normalised_ends (d := d)
  rw [toWord]
  generalize d.normalised = n at ends positive whole ⊢
  rw [if_neg (not_lt.2 positive), if_neg (not_lt.2 whole), writtenOut,
    Numeral.read_toDigits_zeros (by decide)]
  by_cases long : 78 < -n.places
  · rw [if_pos long, if_neg (Nat.not_lt.2 (limit_le_of_long ends positive long))]
  · rw [if_neg long]
    generalize n.digits.toNat * 10 ^ (-n.places).toNat = m
    by_cases low : m < 2 ^ 256
    · have found : Word.ofNat? m = some (.ofNat m) := Word.ofNat?_eq_some_iff.2 (Nat.mod_eq_of_lt low).symm
      rw [found, if_pos low]
    · have none : Word.ofNat? m = none := dif_neg low
      rw [none, if_neg low]

/-- The decimal of a word is read as the word. -/
theorem word_ofWord (w : Word) : (ofWord w).word = .ok w := by
  have read : (ofWord w).toWord = .ok w := toWord_eq_ok_iff.2 (value_ofInt _)
  rw [word, read, Except.mapError]

/-- The decimal of an address is read as the address. -/
theorem address_ofAddress (a : Address) : (ofAddress a).address = .ok a := by
  have same : ofAddress a = ofWord a.toWord := rfl
  have fits : Address.ofNat? a.toWord.toNat = some a := dif_pos a.toNat_lt
  rw [address, same, word_ofWord]
  simp only [bind, Except.bind, fits]
  rfl

variable {e : Decimal} {w : Word} {a : Address}

/-- Of two forms of one number the one with more places has so many zeros more at the end of its digits. -/
theorem digits_of_value_eq (same : d.value = e.value) (fewer : d.places ≤ e.places) :
    e.digits = d.digits * 10 ^ (e.places - d.places).toNat := by
  have ten : (10 : ℚ) ≠ 0 := by norm_num
  have power : (10 : ℚ) ^ (e.places - d.places) = 10 ^ (e.places - d.places).toNat := by
    rw [← zpow_natCast, Int.toNat_of_nonneg (by omega)]
  have scaled : (e.digits : ℚ) = d.digits * 10 ^ (e.places - d.places).toNat := by
    have form : (e.digits : ℚ) = e.value * 10 ^ e.places := by
      rw [value, mul_assoc, ← zpow_add₀ ten, neg_add_cancel, zpow_zero, mul_one]
    rw [form, ← same, value, ← power, mul_assoc, ← zpow_add₀ ten, neg_add_eq_sub]
  exact_mod_cast scaled

/-- Forms of one number that end in another digit than zero, or are zero without places, are the same. -/
theorem eq_of_value_eq (same : d.value = e.value) (ends : d = ⟨0, 0⟩ ∨ ¬(10 : Int) ∣ d.digits)
    (ends' : e = ⟨0, 0⟩ ∨ ¬(10 : Int) ∣ e.digits) : d = e := by
  wlog fewer : d.places ≤ e.places generalizing d e
  · exact (this same.symm ends' ends (le_of_not_ge fewer)).symm
  have digits := digits_of_value_eq same fewer
  obtain equal | less := eq_or_lt_of_le fewer
  · rw [equal, sub_self, Int.toNat_zero, pow_zero, mul_one] at digits
    cases d
    cases e
    cases digits
    cases equal
    rfl
  · -- The one with more places ends in a zero, so both are zero.
    have zero : (10 : Int) ∣ e.digits := digits ▸ Dvd.dvd.mul_left (dvd_pow_self 10 (by omega)) _
    have none : e = ⟨0, 0⟩ := ends'.resolve_right fun digit => digit zero
    have power : (10 : Int) ^ (e.places - d.places).toNat ≠ 0 := pow_ne_zero _ (by decide)
    have nothing : d.digits = 0 := by
      rw [none] at digits
      exact (mul_eq_zero.1 digits.symm).resolve_right (none ▸ power)
    have absent : d = ⟨0, 0⟩ := ends.resolve_right fun digit => digit (nothing ▸ dvd_zero 10)
    rw [none, absent]

/-- A number has one form without zeros. -/
theorem normalised_congr (same : d.value = e.value) : d.normalised = e.normalised :=
  eq_of_value_eq (by rw [value_normalised, value_normalised, same]) normalised_ends normalised_ends

/-- Forms of one number are read alike, and refused for the same reason. -/
theorem toWord_congr (same : d.value = e.value) : d.toWord = e.toWord := by
  rw [toWord, toWord, normalised_congr same]

theorem word_eq_ok_iff : d.word = .ok w ↔ d.value = w.toNat := by
  rw [← toWord_eq_ok_iff, word]
  cases d.toWord <;> simp [Except.mapError]

theorem address_eq_ok_iff : d.address = .ok a ↔ d.value = a.toNat := by
  have fits : d.address = .ok a ↔ ∃ w, d.word = .ok w ∧ w.toNat = a.toNat := by
    rw [address]
    cases d.word with
    | error failure => simp [bind, Except.bind]
    | ok w =>
      simp only [bind, Except.bind, Except.ok.injEq, exists_eq_left', ← Address.ofNat?_eq_some_iff]
      cases Address.ofNat? w.toNat <;> simp [pure, Except.pure]
  rw [fits]
  constructor
  · rintro ⟨w, read, same⟩
    rw [word_eq_ok_iff.1 read, same]
  · exact fun same => ⟨a.toWord, word_eq_ok_iff.2 same, rfl⟩

/-- What is no word is refused as something that cannot be decoded. -/
theorem word_refused {failure : Failure} (refused : d.word = .error failure) :
    ∃ detail, failure = .decode detail := by
  rw [word] at refused
  cases read : d.toWord with
  | ok w => simp [read, Except.mapError] at refused
  | error fault =>
    rw [read] at refused
    cases refused
    cases fault <;> exact ⟨_, rfl⟩

theorem address_refused {failure : Failure} (refused : d.address = .error failure) :
    ∃ detail, failure = .decode detail := by
  rw [address] at refused
  cases read : d.word with
  | error fault =>
    rw [read] at refused
    cases refused
    exact word_refused read
  | ok w =>
    rw [read] at refused
    simp only [bind, Except.bind] at refused
    split at refused
    · cases refused
    · cases refused
      exact ⟨_, rfl⟩

/-- A decimal is a whole number from zero to below a limit. -/
def IsBelow (limit : Nat) (d : Decimal) : Prop := ∃ n : ℤ, d.value = n ∧ 0 ≤ n ∧ n < limit

/-- Exactly the decimals of whole numbers below a limit are read, each as the value with its number. -/
structure ReadExactly {α : Type} (read : Decimal → Except Failure α) (number : α → Nat) (limit : Nat) : Prop where
  ok_iff : ∀ d a, read d = .ok a ↔ d.value = number a
  isBelow_iff : ∀ d, (∃ a, read d = .ok a) ↔ d.IsBelow limit
  refused_iff : ∀ d, (∃ detail, read d = .error (.decode detail)) ↔ ¬d.IsBelow limit
  alike : ∀ d e, d.value = e.value → (read d).toOption = (read e).toOption

theorem readExactly {α : Type} {read : Decimal → Except Failure α} {number : α → Nat} {limit : Nat}
    (ok_iff : ∀ d a, read d = .ok a ↔ d.value = number a)
    (numbers : ∀ n, (∃ a, number a = n) ↔ n < limit)
    (refused : ∀ d failure, read d = .error failure → ∃ detail, failure = .decode detail) :
    ReadExactly read number limit := by
  have isBelow_iff (d : Decimal) : (∃ a, read d = .ok a) ↔ d.IsBelow limit := by
    constructor
    · rintro ⟨a, found⟩
      have low := (numbers _).1 ⟨a, rfl⟩
      exact ⟨number a, by exact_mod_cast (ok_iff d a).1 found, Int.natCast_nonneg _, by exact_mod_cast low⟩
    · rintro ⟨n, same, positive, low⟩
      lift n to ℕ using positive
      obtain ⟨a, rfl⟩ := (numbers n).2 (by exact_mod_cast low)
      exact ⟨a, (ok_iff d a).2 (by exact_mod_cast same)⟩
  refine ⟨ok_iff, isBelow_iff, fun d => ?_, fun d e same => ?_⟩
  · rw [← isBelow_iff]
    cases result : read d with
    | ok a => simp
    | error failure =>
      obtain ⟨detail, rfl⟩ := refused d failure result
      simp
  · ext a
    have ok_or (r : Except Failure α) : r.toOption = some a ↔ r = .ok a := by
      cases r <;> simp [Except.toOption]
    rw [ok_or, ok_or, ok_iff, ok_iff, same]

section Numerals

theorem foldlM_digits {cs : List Char} (digits : ∀ c ∈ cs, c.isDigit) (n : Nat) :
    cs.foldlM (fun n c => if c = '_' then some n else (Numeral.digit? c).map (10 * n + ·)) n =
      some (Nat.ofDigitChars 10 cs n) := by
  induction cs generalizing n with
  | nil => rfl
  | cons c cs ih =>
    obtain ⟨digit, digits⟩ := List.forall_mem_cons.1 digits
    have plain : c ≠ '_' := by
      rintro rfl
      cases digit
    rw [List.foldlM_cons, if_neg plain, Numeral.digit?_of_isDigit digit, Nat.ofDigitChars_cons]
    exact ih digits _

theorem readSigned_toDigits (n : Nat) : readSigned (Nat.toDigits 10 n) = some (n : Int) := by
  have digit := Numeral.isDigit_toDigits n
  have read : readDigits (Nat.toDigits 10 n) = some n := by
    unfold readDigits
    split
    next empty => exact absurd empty Nat.toDigits_ne_nil
    next mark => cases digit _ (mark ▸ List.mem_cons_self)
    next => rw [foldlM_digits (Numeral.isDigit_toDigits n), Nat.ofDigitChars_ten_toDigits]
  unfold readSigned
  split
  next sign => cases digit _ (sign ▸ List.mem_cons_self)
  next sign => cases digit _ (sign ▸ List.mem_cons_self)
  next =>
    rw [read]
    rfl

/-- The numeral of a number is read as its decimal. -/
theorem read?_toString (n : Nat) : read? (toString n) = some (ofInt n) := by
  have digit := Numeral.isDigit_toDigits n
  have other (mark : Char) (apart : mark.isDigit = false) (c : Char) (member : c ∈ Nat.toDigits 10 n) : c ≠ mark :=
    fun same => Bool.false_ne_true (apart.symm.trans (same ▸ digit c member))
  -- No digit is a mark, so nothing of the numeral is cut off.
  have unmarked : ∀ c ∈ Nat.toDigits 10 n, (!(decide (c = 'e') || decide (c = 'E'))) = true := fun c member => by
    simp [other 'e' rfl c member, other 'E' rfl c member]
  have unpointed : ∀ c ∈ Nat.toDigits 10 n, decide (c ≠ '.') = true := fun c member =>
    decide_eq_true (other '.' rfl c member)
  unfold read?
  simp only [Numeral.toList_toString, List.takeWhile_eq_self_iff.2 unmarked, List.dropWhile_eq_nil_iff.2 unmarked,
    List.takeWhile_eq_self_iff.2 unpointed, List.dropWhile_eq_nil_iff.2 unpointed, List.drop_nil, List.append_nil,
    readSigned_toDigits]
  rfl

end Numerals

/-- Decimals are converted exactly, whatever their digits, sign and places. One is read as a word if its number is a
whole one below 2^256, which is then the word's, and as an address if it is below 2^160, which is then the number of
the address's 20 bytes; all others are refused as nothing that can be decoded. Two decimals of one number are read
alike and refused for the same reason, and words and addresses come back from their decimals. -/
theorem converted_exactly :
    ReadExactly word Word.toNat (2 ^ 256) ∧
    ReadExactly address (fun a => Word.natOfBytes a.bytes) (2 ^ 160) ∧
    (∀ a : Address, a.bytes.length = 20) ∧
    (∀ d e : Decimal, d.value = e.value → d.toWord = e.toWord) ∧
    (∀ w : Word, read? w.decimal = some (ofWord w) ∧ (ofWord w).word = .ok w) ∧
    (∀ a : Address, ofAddress a = ofWord a.toWord ∧ (ofAddress a).address = .ok a) := by
  have words (n : Nat) : (∃ w : Word, w.toNat = n) ↔ n < 2 ^ 256 :=
    ⟨fun ⟨w, same⟩ => same ▸ w.toNat_lt, fun low => ⟨⟨n, low⟩, rfl⟩⟩
  have addresses (n : Nat) : (∃ a : Address, Word.natOfBytes a.bytes = n) ↔ n < 2 ^ 160 := by
    simp only [Address.natOfBytes_bytes]
    exact ⟨fun ⟨a, same⟩ => same ▸ a.toNat_lt, fun low => ⟨⟨n, low⟩, rfl⟩⟩
  refine ⟨readExactly (fun _ _ => word_eq_ok_iff) words fun _ _ => word_refused,
    readExactly (fun d a => ?_) addresses fun _ _ => address_refused, Address.length_bytes,
    fun _ _ => toWord_congr, fun w => ⟨read?_toString w.toNat, word_ofWord w⟩, fun a => ⟨rfl, address_ofAddress a⟩⟩
  rw [Address.natOfBytes_bytes]
  exact address_eq_ok_iff

/-- Of 15, written with zeros at its end, and of the least power of ten that is no word. -/
theorem converted_exactly_powers :
    (⟨1500, 2⟩ : Decimal).value = (⟨15, 0⟩ : Decimal).value ∧
      (⟨1500, 2⟩ : Decimal).toWord = (⟨15, 0⟩ : Decimal).toWord ∧
      (∃ w, (⟨1, -77⟩ : Decimal).word = .ok w) ∧
      ∃ detail, (⟨1, -78⟩ : Decimal).word = .error (.decode detail) := by
  obtain ⟨words, -, -, alike, -⟩ := converted_exactly
  have same : (⟨1500, 2⟩ : Decimal).value = (⟨15, 0⟩ : Decimal).value := by norm_num [value]
  refine ⟨same, alike _ _ same, (words.isBelow_iff _).2 ⟨10 ^ 77, ?_⟩, (words.refused_iff _).2 ?_⟩
  · norm_num [value]
  · rintro ⟨n, same, -, low⟩
    have power : (⟨1, -78⟩ : Decimal).value = ((10 ^ 78 : ℤ) : ℚ) := by norm_num [value]
    rw [power, Int.cast_inj] at same
    rw [← same] at low
    exact absurd low (by norm_num)

end Decimal
end StakeIndex
