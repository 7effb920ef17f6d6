import Mathlib.Data.List.Forall2
import Mathlib.Data.List.Lex
import Mathlib.Data.String.Basic
import StakeIndex.Contract.Version
import StakeIndex.Proofs.Pieces

/-!
The order of versions. Components are compared from the first one on, numbers as numbers and above all that is no
number; a version comes before those that go on after it, and versions of the same components are in the order of
their texts. So the order is linear, and equal in it are only versions of the same text.
-/
namespace StakeIndex

/-- Lists are compared at the first place where they differ, and a list comes before those that go on after it. -/
theorem compare_list_eq_lt_iff {α : Type} [Ord α] [Std.LawfulEqOrd α] {xs ys : List α} :
    compare xs ys = .lt ↔ List.Lex (fun x y => compare x y = .lt) xs ys := by
  induction xs generalizing ys with
  | nil =>
    cases ys with
    | nil => exact ⟨fun wrong => (nomatch wrong), fun wrong => (nomatch wrong)⟩
    | cons y ys => exact ⟨fun _ => .nil, fun _ => List.compare_nil_cons⟩
  | cons x xs ih =>
    cases ys with
    | nil => exact ⟨fun wrong => (nomatch wrong), fun wrong => (nomatch wrong)⟩
    | cons y ys =>
      rw [List.compare_cons_cons, Ordering.then_eq_lt, Std.LawfulEqOrd.compare_eq_iff_eq, ih,
        List.cons_lex_cons_iff]

/-- Lists are in order if they are the same up to a place and in order there. -/
theorem lex_of_first_difference {α : Type} {r : α → α → Prop} {xs ys : List α} {i : Nat} {x y : α}
    (same : ∀ j < i, xs[j]? = ys[j]?) (left : xs[i]? = some x) (right : ys[i]? = some y) (before : r x y) :
    List.Lex r xs ys := by
  induction i generalizing xs ys with
  | zero =>
    obtain ⟨xs, rfl⟩ := List.head?_eq_some_iff.1 (List.head?_eq_getElem? ▸ left)
    obtain ⟨ys, rfl⟩ := List.head?_eq_some_iff.1 (List.head?_eq_getElem? ▸ right)
    exact .rel before
  | succ i ih =>
    cases xs with
    | nil => cases left
    | cons x' xs =>
      cases ys with
      | nil => cases right
      | cons y' ys =>
        cases same 0 (Nat.succ_pos i)
        exact .cons (ih (fun j low => same (j + 1) (Nat.succ_lt_succ low)) left right)

theorem lex_map_iff {α β : Type} {r : β → β → Prop} {f : α → β} (inj : Function.Injective f) {xs ys : List α} :
    List.Lex r (xs.map f) (ys.map f) ↔ List.Lex (fun x y => r (f x) (f y)) xs ys := by
  induction xs generalizing ys with
  | nil =>
    cases ys with
    | nil => exact ⟨fun wrong => (nomatch wrong), fun wrong => (nomatch wrong)⟩
    | cons y ys => exact ⟨fun _ => .nil, fun _ => .nil⟩
  | cons x xs ih =>
    cases ys with
    | nil => exact ⟨fun wrong => (nomatch wrong), fun wrong => (nomatch wrong)⟩
    | cons y ys => rw [List.map_cons, List.map_cons, List.cons_lex_cons_iff, List.cons_lex_cons_iff, ih, inj.eq_iff]

namespace VersionPart

theorem compare_number (n m : Nat) : compare (number n) (number m) = .lt ↔ n < m := by
  have same : compare (number n) (number m) = (compare n m).then .eq := rfl
  rw [same, Ordering.then_eq, Nat.compare_eq_lt]

theorem text_lt_number (s : String) (n : Nat) : compare (text s) (number n) = .lt := rfl

/-- A component is a number if it is the numeral of one that a register holds. -/
theorem read_eq_number_iff {cs : List Char} {n : Nat} :
    read cs = number n ↔ Numeral.Writes registerSize cs n := by
  rw [← Numeral.read?_eq_some_iff]
  unfold read
  split
  next found => rw [found, number.injEq, Option.some.injEq]
  next none => simp [none]

theorem read_eq_text {cs : List Char} (noNumeral : ∀ n, ¬Numeral.Writes registerSize cs n) :
    read cs = text (String.ofList cs) := by
  unfold read
  split
  next n found => exact absurd (Numeral.read?_eq_some_iff.1 found) (noNumeral n)
  next => rfl

end VersionPart

namespace Version

/-- The components of a version's text: the pieces between its points. -/
def components (v : Version) : List (List Char) := v.text.toList.splitOn '.'

theorem parts_eq (v : Version) : v.parts = v.components.map VersionPart.read := by
  rw [parts, splitAtChar_eq_splitOn, components]

/-- All components of a version are numerals of numbers that a register holds. -/
def HasNumbers (v : Version) (ns : List Nat) : Prop := List.Forall₂ (Numeral.Writes registerSize) v.components ns

theorem HasNumbers.parts_eq {v : Version} {ns : List Nat} (numbers : v.HasNumbers ns) :
    v.parts = ns.map VersionPart.number := by
  have each := List.Forall₂.imp (fun _ _ writes => VersionPart.read_eq_number_iff.2 writes) numbers
  rw [Version.parts_eq, ← List.forall₂_eq_eq_eq, List.forall₂_map_left_iff, List.forall₂_map_right_iff]
  exact each

theorem compare_eq_lt_iff {v w : Version} :
    compare v w = .lt ↔
      List.Lex (fun p q => compare p q = .lt) v.parts w.parts ∨ v.parts = w.parts ∧ v.text < w.text := by
  have lex : compare v w = (compare v.parts w.parts).then (compare v.text w.text) := rfl
  rw [lex, Ordering.then_eq_lt, compare_list_eq_lt_iff, Std.LawfulEqOrd.compare_eq_iff_eq, compare_lt_iff_lt]

theorem compare_eq_eq_iff {v w : Version} : compare v w = .eq ↔ v = w := Std.LawfulEqOrd.compare_eq_iff_eq

theorem compare_swap (v w : Version) : compare w v = (compare v w).swap := Std.OrientedCmp.eq_swap

theorem eq_of_isLE {v w : Version} (le : (compare v w).isLE) (ge : (compare w v).isLE) : v = w :=
  Std.LawfulEqCmp.eq_of_compare (Std.OrientedCmp.isLE_antisymm le ge)

theorem isLE_trans {u v w : Version} (le : (compare u v).isLE) (le' : (compare v w).isLE) :
    (compare u w).isLE := Std.TransCmp.isLE_trans le le'

theorem isLE_total (v w : Version) : (compare v w).isLE ∨ (compare w v).isLE := by
  rw [compare_swap v w]
  cases compare v w <;> decide

theorem isLE_of_not_lt {v w : Version} (later : compare v w ≠ .lt) : (compare w v).isLE := by
  rw [compare_swap v w]
  cases order : compare v w with
  | lt => exact absurd order later
  | eq => rfl
  | gt => rfl

/-- The order of the versions that texts name is linear, and equal in it are only versions of one text. Where all
components are numerals of a register, it is the order of the lists of their numbers, of which a beginning comes
before the rest, and then that of the texts; where components are the same up to one that is no numeral, the
version comes before another one that has a numeral there. -/
theorem ordered_by_components (a b c : String) :
    let order (s t : String) := compare (read s) (read t)
    order a a = .eq ∧ order b a = (order a b).swap ∧
    ((order a b).isLE → (order b a).isLE → read a = read b) ∧
    ((order a b).isLE → (order b c).isLE → (order a c).isLE) ∧
    ((order a b).isLE ∨ (order b a).isLE) ∧
    (order a b = .eq ↔ read a = read b) ∧ (read a = read b ↔ (read a).text = (read b).text) ∧
    (∀ ns ms, (read a).HasNumbers ns → (read b).HasNumbers ms →
      (order a b = .lt ↔ List.Lex (· < ·) ns ms ∨ ns = ms ∧ (read a).text < (read b).text) ∧
      (ns <+: ms → ns ≠ ms → order a b = .lt)) ∧
    (∀ (i : Nat) (p q : List Char), (∀ j < i, (read a).parts[j]? = (read b).parts[j]?) →
      (read a).components[i]? = some p → (read b).components[i]? = some q →
      (∀ n, ¬Numeral.Writes registerSize p n) → (∃ n, Numeral.Writes registerSize q n) →
      order a b = .lt) := by
  intro order
  have numbers (ns ms : List Nat) (left : (read a).HasNumbers ns) (right : (read b).HasNumbers ms) :
      order a b = .lt ↔ List.Lex (· < ·) ns ms ∨ ns = ms ∧ (read a).text < (read b).text := by
    have inj : Function.Injective VersionPart.number := fun _ _ same => VersionPart.number.inj same
    rw [compare_eq_lt_iff, left.parts_eq, right.parts_eq, lex_map_iff inj, inj.list_map.eq_iff]
    simp only [VersionPart.compare_number]
  refine ⟨compare_eq_eq_iff.2 rfl, compare_swap .., eq_of_isLE, isLE_trans, isLE_total .., compare_eq_eq_iff,
    ⟨congrArg Version.text, Version.ext⟩, ?_, ?_⟩
  · intro ns ms left right
    refine ⟨numbers ns ms left right, fun ⟨rest, more⟩ other => (numbers ns ms left right).2 (.inl ?_)⟩
    cases rest with
    | nil => exact absurd (List.append_nil ns ▸ more) other
    | cons n rest =>
      have shorter := List.Lex.append_left (· < ·) (List.Lex.nil (a := n) (l := rest)) ns
      rwa [List.append_nil, more] at shorter
  · rintro i p q same left right noNumeral ⟨n, writes⟩
    have first : (read a).parts[i]? = some (.text (String.ofList p)) := by
      rw [parts_eq, List.getElem?_map, left, Option.map_some, VersionPart.read_eq_text noNumeral]
    have second : (read b).parts[i]? = some (.number n) := by
      rw [parts_eq, List.getElem?_map, right, Option.map_some, VersionPart.read_eq_number_iff.2 writes]
    exact compare_eq_lt_iff.2 (.inl (lex_of_first_difference same first second (VersionPart.text_lt_number ..)))

/-- A release comes before a later one with a sign and fewer components, and after one that is named by a text. -/
theorem ordered_by_components_releases :
    (read "v1.9.0").HasNumbers [1, 9, 0] ∧ (read " 1.+10").HasNumbers [1, 10] ∧
    compare (read "v1.9.0") (read " 1.+10") = .lt ∧
    (∀ n, ¬Numeral.Writes registerSize ['r', 'c'] n) ∧ Numeral.Writes registerSize ['0'] 0 ∧
    compare (read "1.9.rc") (read "v1.9.0") = .lt := by
  have digit (c : Char) (n : Nat) (value : Numeral.read? registerSize (String.ofList [c]) = some n) :
      Numeral.Writes registerSize [c] n := Numeral.read?_eq_some_iff.1 value
  have earlier : (read "v1.9.0").HasNumbers [1, 9, 0] :=
    .cons (digit '1' 1 (by decide)) (.cons (digit '9' 9 (by decide)) (.cons (digit '0' 0 (by decide)) .nil))
  have later : (read " 1.+10").HasNumbers [1, 10] :=
    .cons (digit '1' 1 (by decide)) (.cons (Numeral.read?_eq_some_iff.1 (by decide)) .nil)
  have word (n : Nat) : ¬Numeral.Writes registerSize ['r', 'c'] n := fun writes =>
    nomatch (VersionPart.read_eq_number_iff.2 writes).symm.trans (by decide : _ = VersionPart.text "rc")
  obtain ⟨-, -, -, -, -, -, -, numbers, -⟩ := ordered_by_components "v1.9.0" " 1.+10" ""
  obtain ⟨-, -, -, -, -, -, -, -, differ⟩ := ordered_by_components "1.9.rc" "v1.9.0" ""
  refine ⟨earlier, later, ((numbers _ _ earlier later).1).2 (.inl (.cons (.rel (by decide)))), word,
    digit '0' 0 (by decide), ?_⟩
  exact differ 2 ['r', 'c'] ['0'] (by decide) rfl rfl word ⟨0, digit '0' 0 (by decide)⟩

end Version
end StakeIndex
