import Mathlib.Algebra.GroupWithZero.Nat
import Mathlib.Data.List.Induction
import StakeIndex.Word

/-!
The bytes of words: a word comes back from its bytes, and 32 bytes come back from their word.
-/
namespace StakeIndex.Word

theorem foldl_bytes (k n start : Nat) :
    ((List.range k).map fun i => UInt8.ofNat (n >>> (8 * (k - 1 - i)))).foldl
      (fun n b => 256 * n + b.toNat) start = start * 256 ^ k + n % 256 ^ k := by
  induction k generalizing n with
  | zero => simp [Nat.mod_one]
  | succ k ih =>
    have higher : (List.range k).map (fun i => UInt8.ofNat (n >>> (8 * (k + 1 - 1 - i)))) =
        (List.range k).map fun i => UInt8.ofNat ((n >>> 8) >>> (8 * (k - 1 - i))) := by
      refine List.map_congr_left fun i member => ?_
      have below := List.mem_range.1 member
      rw [← Nat.shiftRight_add]
      congr 2
      omega
    rw [List.range_succ, List.map_append, List.foldl_append, higher, ih, List.map_singleton,
      List.foldl_cons, List.foldl_nil, Nat.pow_succ', Nat.mod_mul, Nat.shiftRight_eq_div_pow,
      Nat.add_sub_cancel, Nat.sub_self, Nat.mul_zero, Nat.shiftRight_zero, UInt8.toNat_ofNat']
    rw [Nat.mul_left_comm start, show 2 ^ 8 = 256 from rfl]
    omega

@[simp] theorem length_toBytes (a : Word) : a.toBytes.length = 32 := by
  rw [toBytes, List.length_map, List.length_range]

theorem natOfBytes_toBytes (a : Word) : natOfBytes a.toBytes = a.toNat := by
  have size : 1 <<< 256 = 256 ^ 32 := by decide
  have fits := a.toNat_lt
  refine (foldl_bytes 32 a.toNat 0).trans ?_
  rw [size] at fits
  rw [Nat.zero_mul, Nat.zero_add, Nat.mod_eq_of_lt fits]

theorem ofBytes_toBytes (a : Word) : ofBytes a.toBytes = a := by
  refine Word.ext ?_
  rw [ofBytes, natOfBytes_toBytes]
  exact Nat.mod_eq_of_lt a.toNat_lt

theorem natOfBytes_append_singleton (bs : List UInt8) (b : UInt8) :
    natOfBytes (bs ++ [b]) = 256 * natOfBytes bs + b.toNat := by
  rw [natOfBytes, List.foldl_append]
  rfl

theorem natOfBytes_lt (bs : List UInt8) : natOfBytes bs < 256 ^ bs.length := by
  induction bs using List.reverseRecOn with
  | nil => exact Nat.one_pos
  | append_singleton bs b ih =>
    have byte := b.toNat_lt
    rw [natOfBytes_append_singleton, List.length_append, List.length_singleton, Nat.pow_succ]
    omega

theorem bytes_natOfBytes (bs : List UInt8) :
    ((List.range bs.length).map fun i =>
      UInt8.ofNat (natOfBytes bs >>> (8 * (bs.length - 1 - i)))) = bs := by
  induction bs using List.reverseRecOn with
  | nil => rfl
  | append_singleton bs b ih =>
    have byte := b.toNat_lt
    have last : UInt8.ofNat (256 * natOfBytes bs + b.toNat) = b := by
      refine UInt8.toNat_inj.1 ?_
      rw [UInt8.toNat_ofNat']
      omega
    have higher : (256 * natOfBytes bs + b.toNat) >>> 8 = natOfBytes bs := by
      rw [Nat.shiftRight_eq_div_pow]
      omega
    rw [natOfBytes_append_singleton, List.length_append, List.length_singleton, List.range_succ,
      List.map_append, List.map_singleton, Nat.add_sub_cancel, Nat.sub_self, Nat.mul_zero,
      Nat.shiftRight_zero, last]
    congr 1
    refine (List.map_congr_left fun i member => ?_).trans ih
    have below := List.mem_range.1 member
    rw [← higher, ← Nat.shiftRight_add, higher]
    congr 2
    omega

theorem toBytes_ofBytes {bs : List UInt8} (whole : bs.length = 32) : (ofBytes bs).toBytes = bs := by
  have size : 1 <<< 256 = 256 ^ 32 := by decide
  have fits := natOfBytes_lt bs
  have same : (ofBytes bs).toNat = natOfBytes bs := by
    rw [whole, ← size] at fits
    exact Nat.mod_eq_of_lt fits
  have bytes := bytes_natOfBytes bs
  rw [whole] at bytes
  rw [toBytes, same]
  exact bytes

end StakeIndex.Word
