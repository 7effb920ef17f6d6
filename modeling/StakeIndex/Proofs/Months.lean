import Mathlib.Algebra.GroupWithZero.Nat
import StakeIndex.Calendar
import StakeIndex.Proofs.Numerals

/-!
Months in the order of time. A later day never has an earlier month, and with years of four digits the texts
of months are ordered as the months are.
-/
namespace StakeIndex

namespace Date

/-- The months up to a date, so that months can be compared. -/
def months (d : Date) : Int := 12 * d.year + d.month

/-- The day of an era of 400 years. -/
def dayOfEra (days : Int) : Nat := ((days + 719468) % 146097).toNat

/-- The year of an era and the month of this year, both counted from March, on a day of the era. -/
def eraYear (day : Nat) : Nat := (day - day / 1460 + day / 36524 - day / 146096) / 365

def marchMonth (day : Nat) : Nat :=
  (5 * (day - (365 * eraYear day + eraYear day / 4 - eraYear day / 100)) + 2) / 153

/-- The months of an era that are over. -/
def eraMonths (day : Nat) : Nat := 12 * eraYear day + marchMonth day

theorem month_ofDays (days : Int) : (ofDays days).month =
    if marchMonth (dayOfEra days) < 10 then marchMonth (dayOfEra days) + 3
    else marchMonth (dayOfEra days) - 9 := rfl

theorem year_ofDays (days : Int) : (ofDays days).year =
    if (ofDays days).month ≤ 2 then (eraYear (dayOfEra days) : Int) + (days + 719468) / 146097 * 400 + 1
    else (eraYear (dayOfEra days) : Int) + (days + 719468) / 146097 * 400 := rfl

theorem dayOfEra_lt (days : Int) : dayOfEra days < 146097 := by
  unfold dayOfEra
  omega

-- A quotient that is taken away grows by at most one when the day does.
theorem eraYear_mono {day day' : Nat} (le : day ≤ day') : eraYear day ≤ eraYear day' := by
  unfold eraYear
  apply Nat.div_le_div_right
  induction le with
  | refl => exact Nat.le_refl _
  | @step n _ ih =>
    apply Nat.le_trans ih
    omega

theorem marchMonth_lt {day : Nat} (inside : day < 146097) : marchMonth day < 12 := by
  have short : day - (365 * eraYear day + eraYear day / 4 - eraYear day / 100) ≤ 366 := by
    unfold eraYear
    omega
  unfold marchMonth
  omega

theorem eraMonths_mono {day day' : Nat} (le : day ≤ day') (inside : day' < 146097) :
    eraMonths day ≤ eraMonths day' := by
  have early := marchMonth_lt (Nat.lt_of_le_of_lt le inside)
  unfold eraMonths
  rcases Nat.eq_or_lt_of_le (eraYear_mono le) with same | later
  · unfold marchMonth
    rw [same]
    omega
  · omega

theorem eraMonths_lt {day : Nat} (inside : day < 146097) : eraMonths day < 4800 := by
  have last : eraMonths day ≤ eraMonths 146096 := eraMonths_mono (Nat.le_of_lt_succ inside) (by decide)
  have bound : eraMonths 146096 = 4799 := by decide
  omega

theorem month_mem (days : Int) : 1 ≤ (ofDays days).month ∧ (ofDays days).month ≤ 12 := by
  have early := marchMonth_lt (dayOfEra_lt days)
  rw [month_ofDays]
  split <;> omega

theorem months_ofDays (days : Int) :
    (ofDays days).months = 4800 * ((days + 719468) / 146097) + eraMonths (dayOfEra days) + 3 := by
  have early := marchMonth_lt (dayOfEra_lt days)
  unfold months eraMonths
  rw [year_ofDays, month_ofDays]
  split <;> split <;> omega

/-- A later day is not in an earlier month. -/
theorem months_mono {days days' : Int} (le : days ≤ days') :
    (ofDays days).months ≤ (ofDays days').months := by
  have inside := dayOfEra_lt days'
  have early := eraMonths_lt (dayOfEra_lt days)
  have eras : (days + 719468) / 146097 ≤ (days' + 719468) / 146097 := by omega
  rw [months_ofDays, months_ofDays]
  rcases Int.lt_or_eq_of_le eras with later | same
  · omega
  · have earlier : dayOfEra days ≤ dayOfEra days' := by
      unfold dayOfEra
      omega
    have months := eraMonths_mono earlier inside
    omega

end Date

section Digits

/-- The last decimal digits of a number. -/
def lastDigits : Nat → Nat → List Char
  | 0, _ => []
  | width + 1, n => lastDigits width (n / 10) ++ [(n % 10).digitChar]

theorem lastDigits_zero (width : Nat) : lastDigits width 0 = List.replicate width '0' := by
  induction width with
  | zero => rfl
  | succ width ih => exact (congrArg (· ++ ['0']) ih).trans List.replicate_succ'.symm

theorem toList_padNat {width n : Nat} (positive : 0 < width) (fits : n < 10 ^ width) :
    (padNat width n).toList = lastDigits width n := by
  unfold padNat
  rw [String.toList_append, String.toList_ofList, ← String.length_toList, Numeral.toList_toString]
  induction width generalizing n with
  | zero => cases positive
  | succ width ih =>
    by_cases small : n < 10
    · rw [Nat.toDigits_of_lt_base small, lastDigits, Nat.div_eq_of_lt small, Nat.mod_eq_of_lt small,
        lastDigits_zero]
      rfl
    · have large : 10 ≤ n := Nat.le_of_not_lt small
      have wide : 0 < width := Nat.pos_of_ne_zero fun narrow => by
        rw [narrow] at fits
        exact small fits
      have shorter := ih wide (n := n / 10) (by rw [Nat.pow_succ] at fits; omega)
      rw [Nat.toDigits_of_base_le (by decide) large, List.length_append, List.length_singleton,
        Nat.add_sub_add_right, lastDigits, ← shorter, List.append_assoc]

theorem digitChar_lt_iff {a b : Nat} (small : a < 10) (small' : b < 10) :
    a.digitChar < b.digitChar ↔ a < b := by
  have all : ∀ a < 10, ∀ b < 10, (a.digitChar < b.digitChar ↔ a < b) := by decide
  exact all a small b small'

theorem digitChar_eq_iff {a b : Nat} (small : a < 10) (small' : b < 10) :
    a.digitChar = b.digitChar ↔ a = b := by
  have all : ∀ a < 10, ∀ b < 10, (a.digitChar = b.digitChar ↔ a = b) := by decide
  exact all a small b small'

/-- Texts that begin with as many digits are ordered by the numbers first. -/
theorem lastDigits_lt_iff {width n n' : Nat} (fits : n < 10 ^ width) (fits' : n' < 10 ^ width)
    (cs cs' : List Char) :
    lastDigits width n ++ cs < lastDigits width n' ++ cs' ↔ n < n' ∨ n = n' ∧ cs < cs' := by
  induction width generalizing n n' cs cs' with
  | zero =>
    obtain rfl : n = 0 := by omega
    obtain rfl : n' = 0 := by omega
    simp [lastDigits]
  | succ width ih =>
    rw [Nat.pow_succ] at fits fits'
    have ones : n % 10 < 10 := Nat.mod_lt n (by decide)
    have ones' : n' % 10 < 10 := Nat.mod_lt n' (by decide)
    rw [lastDigits, lastDigits, List.append_assoc, List.append_assoc, ih (by omega) (by omega),
      List.singleton_append, List.singleton_append, List.cons_lt_cons_iff,
      digitChar_lt_iff ones ones', digitChar_eq_iff ones ones']
    have order : n < n' ↔ n / 10 < n' / 10 ∨ n / 10 = n' / 10 ∧ n % 10 < n' % 10 := by omega
    have same : n = n' ↔ n / 10 = n' / 10 ∧ n % 10 = n' % 10 := by omega
    rw [order, same, and_or_left, or_assoc, and_assoc]

end Digits

namespace Instant

theorem toList_monthText {t : Instant} (ad : 0 ≤ t.date.year) (four : t.date.year ≤ 9999) :
    t.monthText.toList = lastDigits 4 t.date.year.toNat ++ '-' :: lastDigits 2 t.date.month := by
  have month : 1 ≤ t.date.month ∧ t.date.month ≤ 12 := Date.month_mem _
  unfold monthText yearText
  rw [if_pos ⟨ad, four⟩, String.toList_append, String.toList_append, toList_padNat (by decide) (by omega),
    toList_padNat (by decide) (Nat.lt_of_le_of_lt month.2 (by decide))]
  exact List.append_assoc ..

/-- With years of four digits, a text of a month is less than another one if the month is. -/
theorem monthText_lt_iff {t t' : Instant} (ad : 0 ≤ t.date.year) (four : t.date.year ≤ 9999)
    (ad' : 0 ≤ t'.date.year) (four' : t'.date.year ≤ 9999) :
    t.monthText < t'.monthText ↔ t.date.months < t'.date.months := by
  have month : 1 ≤ t.date.month ∧ t.date.month ≤ 12 := Date.month_mem _
  have month' : 1 ≤ t'.date.month ∧ t'.date.month ≤ 12 := Date.month_mem _
  have two : lastDigits 2 t.date.month < lastDigits 2 t'.date.month ↔ t.date.month < t'.date.month := by
    have alone := @lastDigits_lt_iff 2 t.date.month t'.date.month (by omega) (by omega) [] []
    simpa using alone
  rw [String.lt_iff, toList_monthText ad four, toList_monthText ad' four',
    lastDigits_lt_iff (by omega) (by omega), List.cons_lt_cons_iff, two]
  unfold Date.months
  simp only [Char.lt_irrefl, false_or, true_and]
  omega

/-- The month of a moment is over at another one. -/
def MonthBefore (t t' : Instant) : Prop :=
  t.date.year < t'.date.year ∨ t.date.year = t'.date.year ∧ t.date.month < t'.date.month

theorem months_lt_iff (t t' : Instant) : t.date.months < t'.date.months ↔ t.MonthBefore t' := by
  have month : 1 ≤ t.date.month ∧ t.date.month ≤ 12 := Date.month_mem _
  have month' : 1 ≤ t'.date.month ∧ t'.date.month ≤ 12 := Date.month_mem _
  unfold Date.months MonthBefore
  omega

theorem months_eq_iff (t t' : Instant) : t.date.months = t'.date.months ↔
    t.date.year = t'.date.year ∧ t.date.month = t'.date.month := by
  have month : 1 ≤ t.date.month ∧ t.date.month ≤ 12 := Date.month_mem _
  have month' : 1 ≤ t'.date.month ∧ t'.date.month ≤ 12 := Date.month_mem _
  unfold Date.months
  omega

theorem monthText_congr {t t' : Instant} (year : t.date.year = t'.date.year)
    (month : t.date.month = t'.date.month) : t.monthText = t'.monthText := by
  unfold monthText
  rw [year, month]

/-- A year that is written with four digits. -/
def FourDigits (t : Instant) : Prop := 0 ≤ t.date.year ∧ t.date.year ≤ 9999

theorem FourDigits.monthText_lt_iff {t t' : Instant} (four : t.FourDigits) (four' : t'.FourDigits) :
    t.monthText < t'.monthText ↔ t.MonthBefore t' :=
  (Instant.monthText_lt_iff four.1 four.2 four'.1 four'.2).trans (months_lt_iff t t')

/-- Different months have different texts. -/
theorem FourDigits.monthText_eq_iff {t t' : Instant} (four : t.FourDigits) (four' : t'.FourDigits) :
    t.monthText = t'.monthText ↔ t.date.year = t'.date.year ∧ t.date.month = t'.date.month := by
  constructor
  · intro same
    have before : ¬t.date.months < t'.date.months := by
      rw [months_lt_iff, ← four.monthText_lt_iff four', same]
      exact String.lt_irrefl _
    have after : ¬t'.date.months < t.date.months := by
      rw [months_lt_iff, ← four'.monthText_lt_iff four, same]
      exact String.lt_irrefl _
    exact (months_eq_iff t t').1 (by omega)
  · rintro ⟨year, month⟩
    exact monthText_congr year month

section Seconds

variable {n n' : Nat}

/-- The calendar reaches beyond the years of four digits. -/
theorem date_ofSeconds (four : (Date.ofDays (n / 86400)).year ≤ 9999) :
    (ofSeconds n).date = Date.ofDays (n / 86400) := by
  have inside : (n : Int) ≤ lastSecond := by
    -- The calendar ends in year 262142, and a later day is not in an earlier month.
    refine Int.not_lt.1 fun beyond => ?_
    have later := Date.months_mono (show 95026236 ≤ (n : Int) / 86400 by
      unfold lastSecond at beyond
      omega)
    have last : (Date.ofDays 95026236).months = 3145716 := by decide +kernel
    have month := Date.month_mem (n / 86400)
    rw [last] at later
    unfold Date.months at later
    omega
  unfold ofSeconds
  rw [if_pos inside]
  rfl

theorem fourDigits_ofSeconds (four : (Date.ofDays (n / 86400)).year ≤ 9999) : (ofSeconds n).FourDigits := by
  have later := Date.months_mono (show 0 ≤ (n : Int) / 86400 by omega)
  have first : (Date.ofDays 0).months = 23641 := by decide +kernel
  have month := Date.month_mem (n / 86400)
  unfold FourDigits
  rw [date_ofSeconds four]
  rw [first] at later
  unfold Date.months at later
  omega

theorem months_ofSeconds_mono (le : n ≤ n') (four : (Date.ofDays (n / 86400)).year ≤ 9999)
    (four' : (Date.ofDays (n' / 86400)).year ≤ 9999) :
    (ofSeconds n).date.months ≤ (ofSeconds n').date.months := by
  rw [date_ofSeconds four, date_ofSeconds four']
  exact Date.months_mono (by omega)

end Seconds

end Instant

end StakeIndex
