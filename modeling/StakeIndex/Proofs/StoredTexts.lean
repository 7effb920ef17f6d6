import Mathlib.Algebra.GroupWithZero.Nat
import Mathlib.Data.List.Nodup
import StakeIndex.Entity.Event
import StakeIndex.Entity.Node
import StakeIndex.Proofs.Pieces

/-!
What is stored as text is read back from it: a hash from its digits, an address of the internet from its four numbers,
and a value of a named type from its name.
-/
namespace StakeIndex

namespace Hex

theorem value?_digit {n : Nat} (small : n < 16) : value? (digit n) = some n := by
  revert n
  decide

theorem length_digits (width n : Nat) : (digits width n).length = width := by
  induction width generalizing n with
  | zero => rfl
  | succ width ih => simp [digits, ih]

/-- Digits give back what they hold of a number. -/
theorem number?_digits (width n : Nat) : number? (digits width n) = some (n % 16 ^ width) := by
  induction width generalizing n with
  | zero => simp [digits, number?, Nat.mod_one]
  | succ width ih =>
    have upper : (digits width (n / 16)).foldlM (fun n c => (value? c).map (16 * n + ·)) 0 =
        some (n / 16 % 16 ^ width) := ih (n / 16)
    have last := value?_digit (Nat.mod_lt n (by decide : 0 < 16))
    rw [number?, digits, List.foldlM_append, upper]
    simp [last, Nat.pow_succ', Nat.mod_mul]
    omega

/-- A number written as so many bytes is read back if it fits them. -/
theorem fixed?_fixed {size n : Nat} (fits : n < 16 ^ (2 * size)) : fixed? size (fixed size n) = some n := by
  rw [fixed?, fixed, String.toList_ofList]
  change (if (digits (2 * size) n).length = 2 * size then number? (digits (2 * size) n) else none) = _
  rw [if_pos (length_digits _ n), number?_digits, Nat.mod_eq_of_lt fits]

end Hex

theorem Hash.read?_hex (h : Hash) : read? h.hex = some h := by
  have fits : h.toNat < 16 ^ (2 * 32) := h.toNat_lt
  rw [read?, hex, Hex.fixed?_fixed fits]
  exact congrArg some (Hash.ext (Nat.mod_eq_of_lt h.toNat_lt))

namespace Ipv4

/-- A byte is read from its numeral, which has no zeros in front. -/
theorem octet?_toDigits (b : UInt8) : octet? (Nat.toDigits 10 b.toNat) = some b := by
  have all : ∀ n : Fin 256, octet? (Nat.toDigits 10 n) = some (UInt8.ofNat n) := by decide +kernel
  have byte := all ⟨b.toNat, b.toNat_lt⟩
  rwa [UInt8.ofNat_toNat] at byte

theorem read?_text (ip : Ipv4) : read? ip.text = some ip := by
  -- No digit is a point, so the pieces of the joined text are the four numerals again.
  have apart : ∀ ds ∈ [ip.first, ip.second, ip.third, ip.fourth].map fun b => Nat.toDigits 10 b.toNat, '.' ∉ ds := by
    simp only [List.mem_map]
    rintro _ ⟨b, -, rfl⟩ point
    have digit := Nat.isDigit_of_mem_toDigits (by decide) (by decide) point
    exact absurd digit (by decide)
  have pieces := List.splitOn_intercalate '.' apart (by simp)
  have joined : ip.text.toList = ['.'].intercalate
      ([ip.first, ip.second, ip.third, ip.fourth].map fun b => Nat.toDigits 10 b.toNat) := by
    simp [text, List.intercalate]
  rw [read?, splitAtChar_eq_splitOn, joined, pieces]
  simp [octet?_toDigits]

end Ipv4

namespace Named

variable {α : Type} [Named α] {a : α}

/-- Where all names differ, a value is found by its name. -/
theorem read?_name (apart : ((all : List α).map name).Nodup) (listed : a ∈ (all : List α)) :
    read? (name a) = some a := by
  cases found : (read? (name a) : Option α) with
  | none => exact absurd (beq_self_eq_true (name a)) (List.find?_eq_none.1 found a listed)
  | some b =>
    have test := List.find?_some found
    have same : name b = name a := beq_iff_eq.1 test
    exact congrArg some (List.inj_on_of_nodup_map apart (List.mem_of_find?_eq_some found) listed same)

end Named

theorem ContractName.find_text (role : ContractName) : find role.text = .ok role := by
  have read : Named.read? role.text = some role := Named.read?_name (by decide) (by cases role <;> decide)
  rw [find, read]

theorem BoundType.read?_text (t : BoundType) : Named.read? t.text = some t :=
  Named.read?_name (by decide) (by cases t <;> decide)

theorem SystemEventKind.read?_text (k : SystemEventKind) : Named.read? k.text = some k :=
  Named.read?_name (by decide) (by cases k <;> decide)

end StakeIndex
