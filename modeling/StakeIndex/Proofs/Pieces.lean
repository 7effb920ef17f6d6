import StakeIndex.Proofs.Numerals
import StakeIndex.Text.Blank

/-!
Texts made of pieces between marks, and numerals. The pieces of a text are those that join to it again, and a text is
read as a number exactly when its digits stand for it.
-/
namespace StakeIndex

/-- The pieces of a text between the occurrences of a mark. -/
theorem splitAtChar_eq_splitOn (mark : Char) (cs : List Char) : splitAtChar mark cs = cs.splitOn mark := by
  induction cs with
  | nil => rfl
  | cons c rest ih =>
    rw [splitAtChar, ih, List.splitOn_cons_eq_if_modifyHead]
    by_cases same : c = mark
    · simp [same]
    · cases pieces : rest.splitOn mark with
      | nil => exact absurd pieces (List.splitOn_ne_nil mark rest)
      | cons piece others => simp [same]

namespace Numeral

/-- A numeral of a number below a bound: at least one decimal digit, perhaps behind a plus sign. -/
def Writes (limit : Nat) (cs : List Char) (n : Nat) : Prop :=
  ∃ ds, (cs = ds ∨ cs = '+' :: ds) ∧ ds ≠ [] ∧ (∀ c ∈ ds, c.isDigit) ∧ Nat.ofDigitChars 10 ds 0 = n ∧ n < limit

theorem push_eq_ok_iff {limit n m : Nat} {c : Char} :
    push limit n c = .ok m ↔ c.isDigit ∧ 10 * n + (c.toNat - 48) = m ∧ m < limit := by
  unfold push
  by_cases digit : c.isDigit
  · rw [digit?_of_isDigit digit]
    dsimp only
    split
    next low =>
      simp only [digit, true_and, Except.ok.injEq]
      exact ⟨fun same => ⟨same, same ▸ low⟩, fun ⟨same, _⟩ => same⟩
    next high =>
      simp only [reduceCtorEq, false_iff]
      rintro ⟨-, rfl, low⟩
      exact high low
  · have none : digit? c = none := if_neg fun bounds => digit (isDigit_iff.2 bounds)
    simp [none, digit]

/-- The bound is kept by all digits if it is kept by all of them together. -/
theorem foldlM_push_eq_ok_iff {limit start n : Nat} {ds : List Char} (filled : ds ≠ []) :
    ds.foldlM (push limit) start = .ok n ↔
      (∀ c ∈ ds, c.isDigit) ∧ Nat.ofDigitChars 10 ds start = n ∧ n < limit := by
  induction ds generalizing start with
  | nil => exact absurd rfl filled
  | cons c rest ih =>
    have first : (c :: rest).foldlM (push limit) start = .ok n ↔
        ∃ m, push limit start c = .ok m ∧ rest.foldlM (push limit) m = .ok n := by
      rw [List.foldlM_cons]
      cases push limit start c <;> simp [bind, Except.bind]
    rw [first, List.forall_mem_cons, Nat.ofDigitChars_cons]
    simp only [push_eq_ok_iff]
    cases rest with
    | nil =>
      constructor
      · rintro ⟨m, ⟨digit, rfl, low⟩, ended⟩
        cases ended
        exact ⟨⟨digit, List.forall_mem_nil _⟩, rfl, low⟩
      · rintro ⟨⟨digit, -⟩, rfl, low⟩
        exact ⟨_, ⟨digit, rfl, low⟩, rfl⟩
    | cons d rest =>
      simp only [ih (List.cons_ne_nil d rest)]
      constructor
      · rintro ⟨m, ⟨digit, rfl, -⟩, digits, same, low⟩
        exact ⟨⟨digit, digits⟩, same, low⟩
      · rintro ⟨⟨digit, digits⟩, same, low⟩
        have grows := le_ofDigitChars (d :: rest) (10 * start + (c.toNat - 48))
        exact ⟨_, ⟨digit, rfl, Nat.lt_of_le_of_lt (same ▸ grows) low⟩, digits, same, low⟩

/-- What is read as a number is a numeral of it. -/
theorem read?_eq_some_iff {limit n : Nat} {cs : List Char} :
    read? limit (String.ofList cs) = some n ↔ Writes limit cs n := by
  have plus : ¬('+').isDigit := by decide
  have whole : read? limit (String.ofList cs) = some n ↔ read limit (String.ofList cs) = .ok n := by
    unfold read?
    cases read limit (String.ofList cs) <;> simp [Except.toOption]
  rw [whole, read, String.toList_ofList]
  unfold Writes
  split
  next => simp
  next =>
    simp only [reduceCtorEq, false_iff]
    rintro ⟨ds, rfl | same, filled, digits, -⟩
    · exact plus (digits _ List.mem_cons_self)
    · exact filled (List.cons.inj same).2.symm
  next rest single =>
    rw [foldlM_push_eq_ok_iff single]
    constructor
    · exact fun ⟨digits, same, low⟩ => ⟨rest, .inr rfl, single, digits, same, low⟩
    · rintro ⟨ds, rfl | same, -, digits, value, low⟩
      · exact absurd (digits _ List.mem_cons_self) plus
      · cases same
        exact ⟨digits, value, low⟩
  next filled _ unsigned =>
    rw [foldlM_push_eq_ok_iff filled]
    constructor
    · exact fun ⟨digits, same, low⟩ => ⟨_, .inl rfl, filled, digits, same, low⟩
    · rintro ⟨ds, rfl | same, -, digits, value, low⟩
      · exact ⟨digits, value, low⟩
      · exact absurd same (unsigned ds)

end Numeral
end StakeIndex
