import Mathlib.Algebra.GroupWithZero.Nat
import StakeIndex.Word

/-!
Sums that stop at the greatest word. Adding stops for good once it stops, so a running sum is the true sum
cut once, in whatever order its terms came.
-/
namespace StakeIndex.Word

theorem toNat_clamp (n : Nat) : (clamp n).toNat = min n (2 ^ 256 - 1) := rfl

@[simp] theorem toNat_zero : (0 : Word).toNat = 0 := rfl

@[simp] theorem clamp_toNat (a : Word) : clamp a.toNat = a := by
  refine ext ?_
  have := a.toNat_lt
  rw [toNat_clamp]
  omega

@[simp] theorem zero_saturatingAdd (a : Word) : Word.saturatingAdd 0 a = a := by
  rw [saturatingAdd, toNat_zero, Nat.zero_add, clamp_toNat]

theorem clamp_eq_zero_iff {n : Nat} : clamp n = 0 ↔ n = 0 := by
  constructor
  · intro h
    have := congrArg toNat h
    rw [toNat_clamp, toNat_zero] at this
    omega
  · rintro rfl
    rfl

/-- A running sum that stops at the greatest word is the sum, cut there. -/
theorem foldl_saturatingAdd {α : Type} (amount : α → Word) (terms : List α) (total : Word) :
    terms.foldl (fun total x => total.saturatingAdd (amount x)) total =
      clamp (total.toNat + (terms.map fun x => (amount x).toNat).sum) := by
  induction terms generalizing total with
  | nil => simp
  | cons x rest ih =>
    rw [List.foldl_cons, ih, saturatingAdd, List.map_cons, List.sum_cons]
    refine ext ?_
    simp only [toNat_clamp]
    omega

end StakeIndex.Word
