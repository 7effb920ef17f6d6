import StakeIndex.Text.Utf8

/-!
Reading UTF-8: the bytes of a text are read as the text. Each character is read from its own bytes, whatever
follows them.
-/
namespace StakeIndex.Utf8

variable {n missing bits : Nat} {low high : UInt8} {rest : List UInt8}

theorem toNat_byte (small : n < 256) : (UInt8.ofNat n).toNat = n :=
  UInt8.toNat_ofNat_of_lt' small

theorem scan_single (small : n < 0x80) :
    scan none (.ofNat n :: rest) = Char.ofNat n :: scan none rest := by
  have below : UInt8.ofNat n < 0x80 := by
    rw [UInt8.lt_iff_toNat_lt, toNat_byte (by omega)]
    exact small
  rw [scan]
  simp only [below, if_true, toNat_byte (show n < 256 by omega)]

/-- A first byte of several begins a character. -/
theorem scan_lead {begun : Nat × Nat × UInt8 × UInt8} (small : n < 256) (above : 0x80 ≤ n)
    (lead : lead? (.ofNat n) = some begun) : scan none (.ofNat n :: rest) = scan (some begun) rest := by
  have beyond : ¬ UInt8.ofNat n < 0x80 := by
    rw [UInt8.lt_iff_toNat_lt, toNat_byte small]
    exact Nat.not_lt.2 above
  rw [scan]
  simp only [beyond, if_false, lead]

/-- A byte within its bounds continues the character that was begun, or ends it. -/
theorem scan_next (small : n < 256) (within : low.toNat ≤ n ∧ n ≤ high.toNat) :
    scan (some (missing, bits, low, high)) (.ofNat n :: rest) =
      if missing ≤ 1 then Char.ofNat (bits * 64 + (n - 0x80)) :: scan none rest
      else scan (some (missing - 1, bits * 64 + (n - 0x80), 0x80, 0xBF)) rest := by
  have inside : (low ≤ UInt8.ofNat n && UInt8.ofNat n ≤ high) = true := by
    simp only [UInt8.le_iff_toNat_le, toNat_byte small, Bool.and_eq_true, decide_eq_true_eq]
    exact within
  rw [scan]
  simp only [inside, if_true, toNat_byte small]

/-- The first bytes of characters, as numbers. -/
theorem lead?_byte : ∀ n < 256, lead? (.ofNat n) =
    if 0xC2 ≤ n ∧ n ≤ 0xDF then some (1, n - 0xC0, 0x80, 0xBF)
    else if n = 0xE0 then some (2, 0, 0xA0, 0xBF)
    else if n = 0xED then some (2, 13, 0x80, 0x9F)
    else if 0xE1 ≤ n ∧ n ≤ 0xEF then some (2, n - 0xE0, 0x80, 0xBF)
    else if n = 0xF0 then some (3, 0, 0x90, 0xBF)
    else if n = 0xF4 then some (3, 4, 0x80, 0x8F)
    else if 0xF1 ≤ n ∧ n ≤ 0xF3 then some (3, n - 0xF0, 0x80, 0xBF)
    else none := by
  decide +kernel

/-- A character of two bytes. -/
theorem scan_two {v : Nat} (above : 0x80 ≤ v) (below : v ≤ 0x7FF) :
    scan none (.ofNat (v / 64 % 32 + 0xC0) :: .ofNat (v % 64 + 0x80) :: rest) =
      Char.ofNat v :: scan none rest := by
  have lead : lead? (.ofNat (v / 64 % 32 + 0xC0)) = some (1, v / 64, 0x80, 0xBF) := by
    have share : v / 64 % 32 + 0xC0 - 0xC0 = v / 64 := by omega
    rw [lead?_byte _ (by omega), if_pos (by omega), share]
  have bits : v / 64 * 64 + (v % 64 + 0x80 - 0x80) = v := by omega
  rw [scan_lead (by omega) (by omega) lead, scan_next (by omega) ⟨?_, ?_⟩, if_pos (Nat.le_refl 1), bits]
  · change 0x80 ≤ _
    omega
  · change _ ≤ 0xBF
    omega

/-- A character of three bytes, of which the second one has bounds that depend on the first. -/
theorem scan_three {v : Nat} (above : 0x800 ≤ v) (below : v ≤ 0xFFFF) (valid : v < 0xD800 ∨ 0xDFFF < v) :
    scan none (.ofNat (v / 4096 % 16 + 0xE0) :: .ofNat (v / 64 % 64 + 0x80) :: .ofNat (v % 64 + 0x80) ::
      rest) = Char.ofNat v :: scan none rest := by
  obtain ⟨low, high, lead, within⟩ : ∃ low high : UInt8,
      lead? (.ofNat (v / 4096 % 16 + 0xE0)) = some (2, v / 4096, low, high) ∧
        low.toNat ≤ v / 64 % 64 + 0x80 ∧ v / 64 % 64 + 0x80 ≤ high.toNat := by
    rw [lead?_byte _ (by omega), if_neg (by omega)]
    by_cases first : v / 4096 = 0
    · refine ⟨0xA0, 0xBF, ?_, ?_⟩
      · rw [if_pos (by omega), first]
      · change 0xA0 ≤ _ ∧ _ ≤ 0xBF
        omega
    by_cases surrogate : v / 4096 = 13
    · refine ⟨0x80, 0x9F, ?_, ?_⟩
      · rw [if_neg (by omega), if_pos (by omega), surrogate]
      · change 0x80 ≤ _ ∧ _ ≤ 0x9F
        omega
    · refine ⟨0x80, 0xBF, ?_, ?_⟩
      · have share : v / 4096 % 16 + 0xE0 - 0xE0 = v / 4096 := by omega
        rw [if_neg (by omega), if_neg (by omega), if_pos (by omega), share]
      · change 0x80 ≤ _ ∧ _ ≤ 0xBF
        omega
  have bits : (v / 4096 * 64 + (v / 64 % 64 + 0x80 - 0x80)) * 64 + (v % 64 + 0x80 - 0x80) = v := by omega
  rw [scan_lead (by omega) (by omega) lead, scan_next (by omega) within, if_neg (by omega),
    scan_next (by omega) ⟨?_, ?_⟩, if_pos (by omega), bits]
  · change 0x80 ≤ _
    omega
  · change _ ≤ 0xBF
    omega

/-- A character of four bytes. -/
theorem scan_four {v : Nat} (above : 0x10000 ≤ v) (below : v < 0x110000) :
    scan none (.ofNat (v / 262144 % 8 + 0xF0) :: .ofNat (v / 4096 % 64 + 0x80) ::
      .ofNat (v / 64 % 64 + 0x80) :: .ofNat (v % 64 + 0x80) :: rest) = Char.ofNat v :: scan none rest := by
  obtain ⟨low, high, lead, within⟩ : ∃ low high : UInt8,
      lead? (.ofNat (v / 262144 % 8 + 0xF0)) = some (3, v / 262144, low, high) ∧
        low.toNat ≤ v / 4096 % 64 + 0x80 ∧ v / 4096 % 64 + 0x80 ≤ high.toNat := by
    rw [lead?_byte _ (by omega), if_neg (by omega), if_neg (by omega), if_neg (by omega),
      if_neg (by omega)]
    by_cases first : v / 262144 = 0
    · refine ⟨0x90, 0xBF, ?_, ?_⟩
      · rw [if_pos (by omega), first]
      · change 0x90 ≤ _ ∧ _ ≤ 0xBF
        omega
    by_cases last : v / 262144 = 4
    · refine ⟨0x80, 0x8F, ?_, ?_⟩
      · rw [if_neg (by omega), if_pos (by omega), last]
      · change 0x80 ≤ _ ∧ _ ≤ 0x8F
        omega
    · refine ⟨0x80, 0xBF, ?_, ?_⟩
      · have share : v / 262144 % 8 + 0xF0 - 0xF0 = v / 262144 := by omega
        rw [if_neg (by omega), if_neg (by omega), if_pos (by omega), share]
      · change 0x80 ≤ _ ∧ _ ≤ 0xBF
        omega
  have bits : ((v / 262144 * 64 + (v / 4096 % 64 + 0x80 - 0x80)) * 64 + (v / 64 % 64 + 0x80 - 0x80)) * 64 +
      (v % 64 + 0x80 - 0x80) = v := by omega
  rw [scan_lead (by omega) (by omega) lead, scan_next (by omega) within, if_neg (by omega),
    scan_next (by omega) ⟨?_, ?_⟩, if_neg (by omega), scan_next (by omega) ⟨?_, ?_⟩, if_pos (by omega),
    bits]
  all_goals first | change 0x80 ≤ _; omega | change _ ≤ 0xBF; omega

theorem scan_char (c : Char) (rest : List UInt8) :
    scan none (String.utf8EncodeChar c ++ rest) = c :: scan none rest := by
  have same : Char.ofNat c.val.toNat = c := Char.ofNat_toNat c
  have valid : c.val.toNat < 0xD800 ∨ 0xDFFF < c.val.toNat ∧ c.val.toNat < 0x110000 := c.valid
  unfold String.utf8EncodeChar
  conv => rhs; rw [← same]
  by_cases one : c.val.toNat ≤ 0x7F
  · rw [if_pos one]
    exact scan_single (by omega)
  rw [if_neg one]
  by_cases two : c.val.toNat ≤ 0x7FF
  · rw [if_pos two]
    exact scan_two (by omega) two
  rw [if_neg two]
  by_cases three : c.val.toNat ≤ 0xFFFF
  · rw [if_pos three]
    exact scan_three (by omega) three (by omega)
  · rw [if_neg three]
    exact scan_four (by omega) (by omega)

theorem scan_chars (cs : List Char) : scan none (cs.flatMap String.utf8EncodeChar) = cs := by
  induction cs with
  | nil => rfl
  | cons c rest ih => rw [List.flatMap_cons, scan_char, ih]

theorem toList_loop (bs : ByteArray) (i : Nat) (before : List UInt8) :
    ByteArray.toList.loop bs i before = before.reverse ++ bs.data.toList.drop i := by
  fun_induction ByteArray.toList.loop bs i before with
  | case1 i before within ih =>
    have inside : i < bs.data.toList.length := within
    rw [ih, List.drop_eq_getElem_cons inside]
    have byte : bs.get! i = bs.data.toList[i] := getElem!_pos bs.data i within
    rw [List.reverse_cons, List.append_assoc, List.singleton_append, byte]
  | case2 i before beyond =>
    rw [List.drop_eq_nil_of_le (Nat.le_of_not_lt beyond), List.append_nil]

theorem bytes_eq_flatMap (s : String) : bytes s = s.toList.flatMap String.utf8EncodeChar := by
  conv => lhs; rw [← String.ofList_toList (s := s)]
  rw [bytes, ByteArray.toList, toList_loop, String.toUTF8_eq_toByteArray]
  exact List.toList_data_toByteArray

/-- The bytes of a text are read as the text. -/
theorem text_bytes (s : String) : text (bytes s) = s := by
  rw [text, bytes_eq_flatMap, scan_chars, String.ofList_toList]

end StakeIndex.Utf8
