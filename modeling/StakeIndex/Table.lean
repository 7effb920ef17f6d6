/-!
Tables: rows under distinct keys, kept in the order of the keys. Two tables with the same rows are the
same value.
-/
namespace StakeIndex

instance instOrdPair {α β : Type} [Ord α] [Ord β] : Ord (α × β) := lexOrd

/-- Rows under keys that strictly increase. -/
structure Table (κ α : Type) [Ord κ] where
  entries : List (κ × α)
  sorted : entries.Pairwise fun a b => compare a.1 b.1 = .lt
deriving Repr

namespace Table

variable {κ α : Type} [Ord κ]

@[ext] theorem ext {s t : Table κ α} (h : s.entries = t.entries) : s = t := by
  cases s; cases t; cases h; rfl

def empty : Table κ α := ⟨[], .nil⟩

instance : EmptyCollection (Table κ α) := ⟨empty⟩
instance : Inhabited (Table κ α) := ⟨empty⟩

def size (t : Table κ α) : Nat := t.entries.length

/-- The rows in the order of their keys. -/
def values (t : Table κ α) : List α := t.entries.map (·.2)

def keys (t : Table κ α) : List κ := t.entries.map (·.1)

def findIn (key : κ) : List (κ × α) → Option α
  | [] => none
  | (k, a) :: rest => if compare key k = .eq then some a else findIn key rest

/-- The row under a key. -/
def find? (t : Table κ α) (key : κ) : Option α := findIn key t.entries

/-- A row put at the place of its key. -/
def insertIn (key : κ) (row : α) : List (κ × α) → List (κ × α)
  | [] => [(key, row)]
  | (k, a) :: rest =>
    match compare key k with
    | .lt => (key, row) :: (k, a) :: rest
    | .eq => (key, row) :: rest
    | .gt => (k, a) :: insertIn key row rest

theorem mem_insertIn {key : κ} {row : α} {entries : List (κ × α)} {e : κ × α}
    (h : e ∈ insertIn key row entries) : e = (key, row) ∨ e ∈ entries := by
  induction entries with
  | nil => exact .inl (List.mem_singleton.1 h)
  | cons first rest ih =>
    simp only [insertIn] at h
    split at h
    · rcases List.mem_cons.1 h with h | h
      · exact .inl h
      · exact .inr h
    · rcases List.mem_cons.1 h with h | h
      · exact .inl h
      · exact .inr (List.mem_cons_of_mem _ h)
    · rcases List.mem_cons.1 h with h | h
      · exact .inr (List.mem_cons.2 (.inl h))
      · exact (ih h).imp_right (List.mem_cons_of_mem _)

theorem sorted_insertIn [Std.TransOrd κ] [Std.LawfulEqOrd κ] {key : κ} {row : α}
    {entries : List (κ × α)} (h : entries.Pairwise fun a b => compare a.1 b.1 = .lt) :
    (insertIn key row entries).Pairwise fun a b => compare a.1 b.1 = .lt := by
  induction entries with
  | nil => exact List.pairwise_singleton _ _
  | cons first rest ih =>
    obtain ⟨below, tail⟩ := List.pairwise_cons.1 h
    simp only [insertIn]
    split
    next lt =>
      refine List.pairwise_cons.2 ⟨fun e he => ?_, h⟩
      rcases List.mem_cons.1 he with rfl | he
      · exact lt
      · exact Std.TransCmp.lt_trans lt (below e he)
    next eq =>
      refine List.pairwise_cons.2 ⟨fun e he => ?_, tail⟩
      exact Std.LawfulEqCmp.eq_of_compare eq ▸ below e he
    next gt =>
      refine List.pairwise_cons.2 ⟨fun e he => ?_, ih tail⟩
      rcases mem_insertIn he with rfl | he
      · exact Std.OrientedCmp.lt_of_gt gt
      · exact below e he

/-- The table with a row under a key, in place of the row that was there. -/
def insert [Std.TransOrd κ] [Std.LawfulEqOrd κ] (t : Table κ α) (key : κ) (row : α) : Table κ α :=
  ⟨insertIn key row t.entries, sorted_insertIn t.sorted⟩

def filter (t : Table κ α) (keep : κ → α → Bool) : Table κ α :=
  ⟨t.entries.filter fun e => keep e.1 e.2, t.sorted.filter _⟩

def erase (t : Table κ α) (key : κ) : Table κ α :=
  t.filter fun k _ => compare key k ≠ .eq

theorem sorted_map {entries : List (κ × α)} {f : κ → α → α}
    (h : entries.Pairwise fun a b => compare a.1 b.1 = .lt) :
    (entries.map fun e => (e.1, f e.1 e.2)).Pairwise fun a b => compare a.1 b.1 = .lt :=
  List.pairwise_map.2 h

def map (t : Table κ α) (f : κ → α → α) : Table κ α :=
  ⟨t.entries.map fun e => (e.1, f e.1 e.2), sorted_map t.sorted⟩

/-- The row with the greatest key that passes a test, with its key. -/
def last? (t : Table κ α) (wanted : κ → Bool) : Option (κ × α) :=
  (t.entries.filter fun e => wanted e.1).getLast?

/-- The table of rows inserted one after another; of two under one key the later counts. -/
def ofList [Std.TransOrd κ] [Std.LawfulEqOrd κ] (entries : List (κ × α)) : Table κ α :=
  entries.foldl (fun t e => t.insert e.1 e.2) ∅

end Table

/-- The last of the rows of each subject, when rows are sorted by subject and then by height. -/
def lastOfEach {κ α : Type} [DecidableEq κ] : List ((κ × Nat) × α) → List α
  | [] => []
  | [entry] => [entry.2]
  | entry :: next :: rest =>
    if entry.1.1 = next.1.1 then lastOfEach (next :: rest)
    else entry.2 :: lastOfEach (next :: rest)

/-- The latest row of each subject, of the rows below a height if one is given. -/
def Table.current {κ α : Type} [Ord κ] [DecidableEq κ] (t : Table (κ × Nat) α)
    (before : Option Nat) : List α :=
  lastOfEach (t.entries.filter fun e => before.all (e.1.2 < ·))

end StakeIndex
