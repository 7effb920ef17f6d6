import StakeIndex.Table
import Mathlib.Data.List.Sort

/-!
Looking rows up. A table is determined by what it holds under each key, and each operation is described
by the lookups after it. Of the rows under a subject and a height, the last one and the current one are
found by their heights alone.
-/
namespace StakeIndex.Table

section Lookup

variable {κ α : Type} [Ord κ]

variable [Std.LawfulEqOrd κ]

theorem findIn_eq_some_iff {entries : List (κ × α)} {key : κ} {a : α}
    (sorted : entries.Pairwise fun a b => compare a.1 b.1 = .lt) :
    findIn key entries = some a ↔ (key, a) ∈ entries := by
  induction entries with
  | nil => simp [findIn]
  | cons first rest ih =>
    obtain ⟨k, b⟩ := first
    obtain ⟨below, tail⟩ := List.pairwise_cons.1 sorted
    simp only [findIn, List.mem_cons, Prod.mk.injEq]
    split
    next same =>
      obtain rfl := Std.LawfulEqCmp.eq_of_compare same
      have absent : (key, a) ∉ rest := fun member => by
        have := below _ member
        simp at this
      simp only [Option.some.injEq, true_and, absent, or_false, eq_comm]
    next other =>
      have different : key ≠ k := by
        rintro rfl
        exact other Std.ReflCmp.compare_self
      simp only [ih tail, different, false_and, false_or]

theorem find?_eq_some_iff {t : Table κ α} {key : κ} {a : α} :
    t.find? key = some a ↔ (key, a) ∈ t.entries :=
  findIn_eq_some_iff t.sorted

theorem find?_eq_none_iff {t : Table κ α} {key : κ} :
    t.find? key = none ↔ ∀ a, (key, a) ∉ t.entries := by
  simp only [Option.eq_none_iff_forall_not_mem, Option.mem_def, find?_eq_some_iff]

theorem mem_values_iff {t : Table κ α} {a : α} : a ∈ t.values ↔ ∃ key, t.find? key = some a := by
  simp only [values, List.mem_map, Prod.exists, exists_eq_right, find?_eq_some_iff]

theorem find?_filter (t : Table κ α) (keep : κ → α → Bool) (key : κ) :
    (t.filter keep).find? key = (t.find? key).filter (keep key) := by
  ext a
  simp only [find?_eq_some_iff, filter, List.mem_filter, Option.filter_eq_some_iff]

theorem find?_map (t : Table κ α) (f : κ → α → α) (key : κ) :
    (t.map f).find? key = (t.find? key).map (f key) := by
  ext b
  simp only [find?_eq_some_iff, map, List.mem_map, Prod.mk.injEq, Option.map_eq_some_iff]
  constructor
  · rintro ⟨⟨k, a⟩, member, rfl, rfl⟩
    exact ⟨a, member, rfl⟩
  · rintro ⟨a, member, rfl⟩
    exact ⟨(key, a), member, rfl, rfl⟩

theorem find?_erase (t : Table κ α) (key k : κ) [DecidableEq κ] :
    (t.erase key).find? k = if k = key then none else t.find? k := by
  rw [erase, find?_filter]
  split
  next same =>
    subst same
    cases t.find? k <;> simp [Option.filter]
  next other =>
    have : compare key k ≠ .eq := fun h => other (Std.LawfulEqCmp.eq_of_compare h).symm
    cases t.find? k <;> simp [Option.filter, this]

theorem last?_eq_none_iff {t : Table κ α} {wanted : κ → Bool} :
    t.last? wanted = none ↔ ∀ key, wanted key → t.find? key = none := by
  simp only [last?, List.getLast?_eq_none_iff, List.filter_eq_nil_iff, find?_eq_none_iff]
  exact ⟨fun h key w a member => h (key, a) member w,
    fun h e member w => h e.1 w e.2 member⟩

end Lookup

section Order

variable {κ α : Type} [Ord κ] [Std.TransOrd κ] [Std.LawfulEqOrd κ]

/-- Two lists in strict order of their keys are equal when they have the same members. -/
theorem entries_eq_of_mem_iff {a b : List (κ × α)}
    (ha : a.Pairwise fun x y => compare x.1 y.1 = .lt)
    (hb : b.Pairwise fun x y => compare x.1 y.1 = .lt) (h : ∀ e, e ∈ a ↔ e ∈ b) : a = b := by
  have irrefl : Std.Irrefl fun x y : κ × α => compare x.1 y.1 = .lt := ⟨fun x => by simp⟩
  have antisymm : Std.Antisymm fun x y : κ × α => compare x.1 y.1 = .lt := ⟨fun x y hxy hyx => by
    have := Std.TransCmp.lt_trans hxy hyx
    simp at this⟩
  exact ha.eq_of_mem_iff hb h

theorem ext_find? {s t : Table κ α} (h : ∀ key, s.find? key = t.find? key) : s = t := by
  refine Table.ext (entries_eq_of_mem_iff s.sorted t.sorted fun e => ?_)
  rw [← find?_eq_some_iff, ← find?_eq_some_iff, h]

theorem mem_insertIn_iff {key : κ} {row : α} {entries : List (κ × α)} {e : κ × α}
    (sorted : entries.Pairwise fun a b => compare a.1 b.1 = .lt) :
    e ∈ insertIn key row entries ↔ e = (key, row) ∨ e.1 ≠ key ∧ e ∈ entries := by
  induction entries with
  | nil => simp [insertIn]
  | cons first rest ih =>
    obtain ⟨k, b⟩ := first
    obtain ⟨below, tail⟩ := List.pairwise_cons.1 sorted
    simp only [insertIn]
    split
    next lt =>
      have apart : ∀ e ∈ (k, b) :: rest, e.1 ≠ key := by
        rintro e he rfl
        rcases List.mem_cons.1 he with rfl | he
        · simp at lt
        · have := Std.TransCmp.lt_trans lt (below e he)
          simp at this
      grind
    next eq =>
      obtain rfl := Std.LawfulEqCmp.eq_of_compare eq
      have apart : ∀ e ∈ rest, e.1 ≠ key := by
        rintro e he rfl
        have := below e he
        simp at this
      grind
    next gt =>
      have apart : k ≠ key := by
        rintro rfl
        simp at gt
      have := ih tail
      grind

variable [DecidableEq κ]

theorem find?_insert (t : Table κ α) (key : κ) (row : α) (k : κ) :
    (t.insert key row).find? k = if k = key then some row else t.find? k := by
  ext a
  rw [find?_eq_some_iff, insert, mem_insertIn_iff t.sorted]
  split
  next same =>
    subst same
    simp [eq_comm]
  next other =>
    rw [find?_eq_some_iff]
    simp [other]

@[simp] theorem find?_insert_self (t : Table κ α) (key : κ) (row : α) :
    (t.insert key row).find? key = some row := by
  rw [find?_insert, if_pos rfl]

theorem find?_insert_ne {key k : κ} (t : Table κ α) (row : α) (h : k ≠ key) :
    (t.insert key row).find? k = t.find? k := by
  rw [find?_insert, if_neg h]

/-- What holds of all rows, and of one that is put there. -/
theorem forall_insert {holds : κ → α → Prop} {t : Table κ α} {key : κ} {row : α}
    (old : ∀ k a, t.find? k = some a → holds k a) (new : holds key row) :
    ∀ k a, (t.insert key row).find? k = some a → holds k a := by
  intro k a found
  rw [find?_insert] at found
  split at found
  next same =>
    cases found
    rwa [same]
  next => exact old k a found

/-- A row that is there already can be inserted again. -/
theorem insert_of_find? {t : Table κ α} {key : κ} {row : α} (h : t.find? key = some row) :
    t.insert key row = t := by
  refine ext_find? fun k => ?_
  rw [find?_insert]
  split
  next same => rw [same, h]
  next => rfl

theorem insert_insert (t : Table κ α) (key : κ) (first second : α) :
    (t.insert key first).insert key second = t.insert key second := by
  refine ext_find? fun k => ?_
  simp only [find?_insert]
  split <;> rfl

theorem insert_comm (t : Table κ α) {key key' : κ} (row row' : α) (apart : key ≠ key') :
    (t.insert key row).insert key' row' = (t.insert key' row').insert key row := by
  refine ext_find? fun k => ?_
  simp only [find?_insert]
  by_cases first : k = key
  · simp [first, apart]
  · simp [first]

theorem map_insert (t : Table κ α) (f : α → α) (key : κ) (row : α) :
    (t.insert key row).map (fun _ => f) = (t.map fun _ => f).insert key (f row) := by
  refine ext_find? fun k => ?_
  simp only [find?_map, find?_insert]
  split <;> rfl

/-- Of rows inserted under keys of their own, the last one under a key counts. -/
theorem find?_insertAll (key : α → κ) (rows : List α) (t : Table κ α) (k : κ) :
    (rows.foldl (fun t row => t.insert (key row) row) t).find? k =
      (rows.reverse.find? fun row => key row = k).or (t.find? k) := by
  induction rows generalizing t with
  | nil => rfl
  | cons row rest ih =>
    rw [List.foldl_cons, ih, List.reverse_cons, List.find?_append, Option.or_assoc, find?_insert]
    congr 1
    by_cases same : k = key row
    · simp [same]
    · simp [same, Ne.symm same]

theorem find?_insertAll_ne (key : α → κ) {rows : List α} {k : κ} (apart : ∀ row ∈ rows, key row ≠ k)
    (t : Table κ α) : (rows.foldl (fun t row => t.insert (key row) row) t).find? k = t.find? k := by
  have none : (rows.reverse.find? fun row => key row = k) = none :=
    List.find?_eq_none.2 fun row member => by simpa using apart row (List.mem_reverse.1 member)
  rw [find?_insertAll, none, Option.none_or]

/-- Rows that are equal wherever their keys are can be inserted in any order. -/
theorem insertAll_perm {key : α → κ} {rows rows' : List α} (order : rows.Perm rows')
    (agree : ∀ a ∈ rows, ∀ b ∈ rows, key a = key b → a = b) (t : Table κ α) :
    rows.foldl (fun t row => t.insert (key row) row) t =
      rows'.foldl (fun t row => t.insert (key row) row) t := by
  refine order.foldl_eq' (fun a first b second t => ?_) t
  by_cases same : key a = key b
  · rw [agree a first b second same]
  · exact insert_comm t a b same

/-- To insert rows again changes nothing. -/
theorem insertAll_insertAll (key : α → κ) (rows : List α) (t : Table κ α) :
    rows.foldl (fun t row => t.insert (key row) row) (rows.foldl (fun t row => t.insert (key row) row) t) =
      rows.foldl (fun t row => t.insert (key row) row) t := by
  refine ext_find? fun k => ?_
  simp only [find?_insertAll]
  cases rows.reverse.find? fun row => key row = k <;> simp

/-- Rows can be put in place of some rows again. -/
theorem insertAll_again (key : α → κ) (rows : List α) (t : Table κ α) (keep : κ → α → Bool) :
    rows.foldl (fun t row => t.insert (key row) row)
        ((rows.foldl (fun t row => t.insert (key row) row) (t.filter keep)).filter keep) =
      rows.foldl (fun t row => t.insert (key row) row) (t.filter keep) := by
  refine ext_find? fun k => ?_
  simp only [find?_insertAll, find?_filter]
  cases rows.reverse.find? fun row => key row = k with
  | some row => rfl
  | none => simp only [Option.none_or, Option.filter_filter, Bool.and_self]

theorem find?_insertAll_of_nodup {key : α → κ} {rows : List α} (distinct : (rows.map key).Nodup)
    {t : Table κ α} {k : κ} {a : α} :
    (rows.foldl (fun t row => t.insert (key row) row) t).find? k = some a ↔
      a ∈ rows ∧ key a = k ∨ k ∉ rows.map key ∧ t.find? k = some a := by
  have one {row : α} (found : (rows.reverse.find? fun row => key row = k) = some row) :
      row ∈ rows ∧ key row = k :=
    ⟨List.mem_reverse.1 (List.mem_of_find?_eq_some found), by simpa using List.find?_some found⟩
  rw [find?_insertAll, Option.or_eq_some_iff]
  constructor
  · rintro (found | ⟨none, found⟩)
    · exact .inl (one found)
    · refine .inr ⟨fun member => ?_, found⟩
      obtain ⟨row, member, same⟩ := List.mem_map.1 member
      have := List.find?_eq_none.1 none row (List.mem_reverse.2 member)
      exact this (decide_eq_true same)
  · rintro (⟨member, same⟩ | ⟨absent, found⟩)
    · have some : (rows.reverse.find? fun row => key row = k).isSome :=
        List.find?_isSome.2 ⟨a, List.mem_reverse.2 member, decide_eq_true same⟩
      obtain ⟨row, found⟩ := Option.isSome_iff_exists.1 some
      rw [found, List.inj_on_of_nodup_map distinct member (one found).1 (same.trans (one found).2.symm)]
      exact .inl rfl
    · refine .inr ⟨List.find?_eq_none.2 fun row member => ?_, found⟩
      rintro same
      exact absent (List.mem_map.2 ⟨row, List.mem_reverse.1 member, of_decide_eq_true same⟩)

/-- Rows under distinct keys are those of their table. -/
theorem find?_ofList {entries : List (κ × α)} (distinct : (entries.map (·.1)).Nodup) {key : κ} {a : α} :
    (ofList entries).find? key = some a ↔ (key, a) ∈ entries := by
  have inserted (t : Table κ α) : (entries.foldl (fun t e => t.insert e.1 e.2) t).find? key = some a ↔
      (key, a) ∈ entries ∨ key ∉ entries.map (·.1) ∧ t.find? key = some a := by
    induction entries generalizing t with
    | nil => simp
    | cons e rest ih =>
      obtain ⟨first, others⟩ := List.nodup_cons.1 distinct
      rw [List.foldl_cons, ih others, find?_insert]
      by_cases same : key = e.1
      · subst same
        have absent (b : α) : (e.1, b) ∉ rest := fun member => first (List.mem_map.2 ⟨_, member, rfl⟩)
        simp [first, absent, Prod.ext_iff, eq_comm]
      · simp [same, Prod.ext_iff]
  have start := inserted ∅
  refine start.trans (or_iff_left ?_)
  rintro ⟨-, wrong⟩
  cases wrong

/-- A table has rows under distinct keys once each, in the order of the keys. -/
theorem entries_ofList_perm {entries : List (κ × α)} (distinct : (entries.map (·.1)).Nodup) :
    (ofList entries).entries.Perm entries := by
  have apart : (ofList entries).entries.Nodup := (ofList entries).sorted.imp fun {a b} less same => by
    have equal : compare a.1 b.1 = .eq := same ▸ Std.ReflCmp.compare_self
    cases equal.symm.trans less
  exact (List.perm_ext_iff_of_nodup apart (.of_map _ distinct)).2 fun _ =>
    find?_eq_some_iff.symm.trans (find?_ofList distinct)

/-- What a test keeps is not changed by a row that it does not keep, put where it kept nothing. -/
theorem filter_insert {keep : κ → α → Bool} {t : Table κ α} {key : κ} {row : α}
    (new : keep key row = false) (old : ∀ a, t.find? key = some a → keep key a = false) :
    (t.insert key row).filter keep = t.filter keep := by
  refine ext_find? fun k => ?_
  rw [find?_filter, find?_filter, find?_insert]
  split
  next same =>
    subst same
    cases found : t.find? k with
    | none => simp [Option.filter, new]
    | some a => simp [Option.filter, new, old a found]
  next => rfl

end Order

section Last

variable {κ α : Type} [Ord κ] [Std.TransOrd κ] [Std.LawfulEqOrd κ]

theorem last?_congr {s t : Table κ α} {wanted : κ → Bool}
    (h : ∀ key, wanted key → s.find? key = t.find? key) : s.last? wanted = t.last? wanted := by
  have same : s.filter (fun key _ => wanted key) = t.filter fun key _ => wanted key := by
    refine ext_find? fun key => ?_
    rw [find?_filter, find?_filter]
    cases w : wanted key with
    | true => rw [h key w]
    | false => simp
  exact congrArg (fun t => t.entries.getLast?) same

omit [Std.TransOrd κ] [Std.LawfulEqOrd κ] in
theorem last?_map (t : Table κ α) (f : κ → α → α) (wanted : κ → Bool) :
    (t.map f).last? wanted = (t.last? wanted).map fun e => (e.1, f e.1 e.2) := by
  simp only [last?, map, List.filter_map, List.getLast?_map]
  rfl

theorem last?_eq_some_iff {t : Table κ α} {wanted : κ → Bool} {key : κ} {a : α} :
    t.last? wanted = some (key, a) ↔ t.find? key = some a ∧ wanted key ∧
      ∀ k, wanted k → compare key k = .lt → t.find? k = none := by
  have sorted : (t.entries.filter fun e => wanted e.1).Pairwise
      fun a b => compare a.1 b.1 = .lt := t.sorted.filter _
  simp only [last?, find?_eq_none_iff]
  constructor
  · intro h
    obtain ⟨before, split⟩ := List.getLast?_eq_some_iff.1 h
    have member : (key, a) ∈ t.entries.filter fun e => wanted e.1 := by simp [split]
    rw [List.mem_filter] at member
    refine ⟨find?_eq_some_iff.2 member.1, member.2, fun k w above b stored => ?_⟩
    have kept : (k, b) ∈ t.entries.filter fun e => wanted e.1 :=
      List.mem_filter.2 ⟨stored, w⟩
    rw [split] at sorted kept
    rcases List.mem_append.1 kept with earlier | same
    · have below := (List.pairwise_append.1 sorted).2.2 _ earlier _ (List.mem_singleton_self _)
      have := Std.TransCmp.lt_trans above below
      simp at this
    · cases List.mem_singleton.1 same
      simp at above
  · rintro ⟨found, w, top⟩
    have member : (key, a) ∈ t.entries.filter fun e => wanted e.1 :=
      List.mem_filter.2 ⟨find?_eq_some_iff.1 found, w⟩
    obtain ⟨before, after, split⟩ := List.mem_iff_append.1 member
    cases after with
    | nil => rw [split, List.getLast?_append]; rfl
    | cons next rest =>
      have kept : next ∈ t.entries.filter fun e => wanted e.1 := by simp [split]
      rw [List.mem_filter] at kept
      rw [split] at sorted
      have above := (List.pairwise_cons.1 (List.pairwise_append.1 sorted).2.1).1 next
        List.mem_cons_self
      exact absurd kept.1 (top next.1 kept.2 above next.2)

theorem last?_insert_last [DecidableEq κ] {t : Table κ α} {wanted : κ → Bool} {key : κ} {a : α}
    (last : t.last? wanted = some (key, a)) (b : α) :
    (t.insert key b).last? wanted = some (key, b) := by
  obtain ⟨found, w, top⟩ := last?_eq_some_iff.1 last
  refine last?_eq_some_iff.2 ⟨find?_insert_self .., w, fun k wk above => ?_⟩
  have apart : k ≠ key := by
    rintro rfl
    simp at above
  rw [find?_insert_ne _ _ apart, top k wk above]

end Last

section Heights

variable {σ α : Type} [Ord σ] [Std.TransOrd σ] [Std.LawfulEqOrd σ]

omit [Std.TransOrd σ] in
theorem compare_subject {β : Type} [Ord β] (subject : σ) (a b : β) :
    compare (subject, a) (subject, b) = compare a b := by
  have same : compare subject subject = .eq := Std.ReflCmp.compare_self
  change (compare subject subject).then (compare a b) = _
  rw [same, Ordering.eq_then]

omit [Std.TransOrd σ] in
theorem compare_heights (subject : σ) (a b : Nat) :
    compare (subject, a) (subject, b) = .lt ↔ a < b := by
  rw [compare_subject, Nat.compare_eq_lt]

theorem last?_subject_congr [BEq σ] [LawfulBEq σ] {s t : Table (σ × Nat) α} {subject : σ}
    {wanted : Nat → Bool}
    (h : ∀ height, wanted height → s.find? (subject, height) = t.find? (subject, height)) :
    (s.last? fun key => key.1 == subject && wanted key.2) =
      t.last? fun key => key.1 == subject && wanted key.2 := by
  refine last?_congr fun (k, height) w => ?_
  obtain ⟨same, passes⟩ := Bool.and_eq_true_iff.1 w
  obtain rfl := eq_of_beq same
  exact h height passes

/-- The last row of a subject at heights that pass a test. -/
theorem last?_subject_eq_some_iff [BEq σ] [LawfulBEq σ] {t : Table (σ × Nat) α} {subject : σ}
    {wanted : Nat → Bool} {key : σ × Nat} {a : α} :
    (t.last? fun key => key.1 == subject && wanted key.2) = some (key, a) ↔
      key.1 = subject ∧ wanted key.2 ∧ t.find? key = some a ∧
        ∀ height, wanted height → key.2 < height → t.find? (subject, height) = none := by
  obtain ⟨s, n⟩ := key
  rw [last?_eq_some_iff]
  simp only [Bool.and_eq_true, beq_iff_eq]
  constructor
  · rintro ⟨found, ⟨rfl, w⟩, top⟩
    exact ⟨rfl, w, found, fun height wh above =>
      top (s, height) ⟨rfl, wh⟩ ((compare_heights ..).2 above)⟩
  · rintro ⟨rfl, w, found, top⟩
    refine ⟨found, ⟨rfl, w⟩, ?_⟩
    rintro ⟨_, height⟩ ⟨rfl, wh⟩ above
    exact top height wh ((compare_heights ..).1 above)

end Heights

section Current

variable {σ α : Type} [Ord σ] [DecidableEq σ]

/-- The rows below a height, in a table. -/
def below (t : Table (σ × Nat) α) (height : Nat) : Table (σ × Nat) α :=
  t.filter fun key _ => key.2 < height

/-- The current rows before a height depend on the rows below it only. -/
theorem current_congr {s t : Table (σ × Nat) α} {height : Nat}
    (same : s.below height = t.below height) :
    s.current (some height) = t.current (some height) := by
  have current (t : Table (σ × Nat) α) :
      t.current (some height) = lastOfEach (t.below height).entries := rfl
  rw [current, current, same]

variable [Std.TransOrd σ] [Std.LawfulEqOrd σ]

theorem below_insert {t : Table (σ × Nat) α} {key : σ × Nat} {row : α} {height : Nat}
    (above : height ≤ key.2) : (t.insert key row).below height = t.below height := by
  have dropped : decide (key.2 < height) = false := by simpa using above
  exact filter_insert dropped fun _ _ => dropped

omit [Ord σ] [Std.TransOrd σ] [Std.LawfulEqOrd σ] in
theorem lastOfEach_cons {entry : (σ × Nat) × α} {rest : List ((σ × Nat) × α)}
    (apart : ∀ e ∈ rest, e.1.1 ≠ entry.1.1) :
    lastOfEach (entry :: rest) = entry.2 :: lastOfEach rest := by
  cases rest with
  | nil => rfl
  | cons next rest => exact if_neg (Ne.symm (apart next List.mem_cons_self))

omit [DecidableEq σ] in
/-- Rows in the order of their keys are of other subjects once the subject has changed. -/
theorem subjects_apart {first next e : (σ × Nat) × α} (changed : first.1.1 ≠ next.1.1)
    (before : compare first.1 next.1 = .lt) (after : compare next.1 e.1 = .lt) :
    e.1.1 ≠ first.1.1 := by
  intro same
  have lex (a b : σ × Nat) : compare a b = (compare a.1 b.1).then (compare a.2 b.2) := rfl
  have rises : compare first.1.1 next.1.1 = .lt := by
    rw [lex, Ordering.then_eq_lt] at before
    rcases before with lt | ⟨eq, -⟩
    · exact lt
    · exact absurd (Std.LawfulEqCmp.eq_of_compare eq) changed
  rw [lex, Ordering.then_eq_lt, same] at after
  rcases after with lt | ⟨eq, -⟩
  · have := Std.TransCmp.lt_trans rises lt
    simp at this
  · exact changed (Std.LawfulEqCmp.eq_of_compare eq).symm

/-- Where a test of rows is one of their subjects, the last rows can be chosen before or after it. -/
theorem lastOfEach_filter (keep : σ → Bool) {test : α → Bool} {entries : List ((σ × Nat) × α)}
    (sorted : entries.Pairwise fun a b => compare a.1 b.1 = .lt)
    (same : ∀ e ∈ entries, test e.2 = keep e.1.1) :
    (lastOfEach entries).filter test = lastOfEach (entries.filter fun e => keep e.1.1) := by
  induction entries using lastOfEach.induct with
  | case1 => rfl
  | case2 e =>
    have one := same e (List.mem_singleton_self e)
    cases kept : keep e.1.1 <;> simp_all [lastOfEach]
  | case3 e next rest subject ih =>
    obtain ⟨below, tail⟩ := List.pairwise_cons.1 sorted
    rw [lastOfEach, if_pos subject, ih tail fun e member => same e (List.mem_cons_of_mem _ member)]
    cases kept : keep next.1.1 with
    | true =>
      have first : keep e.1.1 = true := subject ▸ kept
      simp only [List.filter_cons, first, kept, if_true]
      exact (if_pos subject).symm
    | false =>
      have first : keep e.1.1 = false := subject ▸ kept
      simp only [List.filter_cons, first, kept]
      rfl
  | case4 e next rest changed ih =>
    obtain ⟨below, tail⟩ := List.pairwise_cons.1 sorted
    have ih := ih tail fun e member => same e (List.mem_cons_of_mem _ member)
    rw [lastOfEach, if_neg changed, List.filter_cons, ih, same e List.mem_cons_self]
    cases kept : keep e.1.1 with
    | true =>
      -- No later row is of this subject, so the row is the last one of it among those that are kept too.
      have chosen : (e :: next :: rest).filter (fun e => keep e.1.1) =
          e :: (next :: rest).filter fun e => keep e.1.1 := List.filter_cons_of_pos kept
      rw [chosen, if_pos rfl]
      refine (lastOfEach_cons fun other member => ?_).symm
      obtain rfl | member := List.mem_cons.1 (List.mem_filter.1 member).1
      · exact Ne.symm changed
      · exact subjects_apart changed (below next List.mem_cons_self)
          ((List.pairwise_cons.1 tail).1 other member)
    | false =>
      have dropped : (e :: next :: rest).filter (fun e => keep e.1.1) =
          (next :: rest).filter fun e => keep e.1.1 := List.filter_cons_of_neg (by simp [kept])
      rw [dropped]
      rfl

omit [Ord σ] [Std.TransOrd σ] [Std.LawfulEqOrd σ] in
theorem lastOfEach_map (f : α → α) (entries : List ((σ × Nat) × α)) :
    lastOfEach (entries.map fun e => (e.1, f e.2)) = (lastOfEach entries).map f := by
  induction entries using lastOfEach.induct with
  | case1 => rfl
  | case2 e => rfl
  | case3 e next rest same ih =>
    simp only [List.map_cons] at ih
    simp only [List.map_cons, lastOfEach, same, if_true, ih]
  | case4 e next rest changed ih =>
    simp only [List.map_cons] at ih
    simp only [List.map_cons, lastOfEach, changed, if_false, ih]

omit [Std.TransOrd σ] [Std.LawfulEqOrd σ] in
theorem current_map (t : Table (σ × Nat) α) (f : α → α) (before : Option Nat) :
    (t.map fun _ => f).current before = (t.current before).map f := by
  rw [current, current, ← lastOfEach_map]
  simp only [map, List.filter_map]
  rfl

/-- Subjects none of whose rows pass a test can be left out before the last rows are chosen. -/
theorem lastOfEach_filter_of_keep (keep : σ → Bool) {test : α → Bool}
    {entries : List ((σ × Nat) × α)}
    (sorted : entries.Pairwise fun a b => compare a.1 b.1 = .lt)
    (fails : ∀ e ∈ entries, keep e.1.1 = false → test e.2 = false) :
    (lastOfEach entries).filter test =
      (lastOfEach (entries.filter fun e => keep e.1.1)).filter test := by
  induction entries using lastOfEach.induct with
  | case1 => rfl
  | case2 e =>
    have one := fails e (List.mem_singleton_self e)
    cases kept : keep e.1.1 <;> simp_all [lastOfEach]
  | case3 e next rest subject ih =>
    have ih := ih (List.pairwise_cons.1 sorted).2 fun e member =>
      fails e (List.mem_cons_of_mem _ member)
    rw [lastOfEach, if_pos subject, ih]
    cases kept : keep next.1.1 with
    | true =>
      have first : keep e.1.1 = true := subject ▸ kept
      simp only [List.filter_cons, first, kept, if_true]
      rw [lastOfEach, if_pos subject]
    | false =>
      have first : keep e.1.1 = false := subject ▸ kept
      simp only [List.filter_cons, first, kept]
      rfl
  | case4 e next rest changed ih =>
    obtain ⟨below, tail⟩ := List.pairwise_cons.1 sorted
    have ih := ih tail fun e member => fails e (List.mem_cons_of_mem _ member)
    rw [lastOfEach, if_neg changed, List.filter_cons, ih]
    cases kept : keep e.1.1 with
    | true =>
      have chosen : (e :: next :: rest).filter (fun e => keep e.1.1) =
          e :: (next :: rest).filter fun e => keep e.1.1 := List.filter_cons_of_pos kept
      have last : lastOfEach (e :: (next :: rest).filter fun e => keep e.1.1) =
          e.2 :: lastOfEach ((next :: rest).filter fun e => keep e.1.1) := by
        refine lastOfEach_cons fun other member => ?_
        obtain rfl | member := List.mem_cons.1 (List.mem_filter.1 member).1
        · exact Ne.symm changed
        · exact subjects_apart changed (below next List.mem_cons_self)
            ((List.pairwise_cons.1 tail).1 other member)
      rw [chosen, last]
      exact List.filter_cons.symm
    | false =>
      have dropped : (e :: next :: rest).filter (fun e => keep e.1.1) =
          (next :: rest).filter fun e => keep e.1.1 := List.filter_cons_of_neg (by simp [kept])
      rw [dropped, fails e List.mem_cons_self kept]
      rfl

/-- The current rows that pass a test are the same in two tables that differ only in subjects of which no
row passes it. -/
theorem current_filter_congr {s t : Table (σ × Nat) α} {test : α → Bool}
    (same : ∀ subject, (∀ height, s.find? (subject, height) = t.find? (subject, height)) ∨
      ∀ height a, s.find? (subject, height) = some a ∨ t.find? (subject, height) = some a →
        test a = false) (before : Option Nat) :
    (s.current before).filter test = (t.current before).filter test := by
  classical
  set keep : σ → Bool := fun subject =>
    decide (∀ height, s.find? (subject, height) = t.find? (subject, height)) with agrees
  have fails {subject : σ} (other : keep subject = false) :=
    (same subject).resolve_left (of_decide_eq_false other)
  have equal : (s.filter fun key _ => before.all (key.2 < ·)).filter (fun key _ => keep key.1) =
      (t.filter fun key _ => before.all (key.2 < ·)).filter fun key _ => keep key.1 := by
    refine ext_find? fun (subject, height) => ?_
    simp only [find?_filter]
    cases kept : keep subject with
    | true => rw [of_decide_eq_true kept]
    | false => simp
  have chosen (u : Table (σ × Nat) α)
      (fails : ∀ subject height a, keep subject = false → u.find? (subject, height) = some a →
        test a = false) :
      (u.current before).filter test = (lastOfEach ((u.filter fun key _ =>
        before.all (key.2 < ·)).filter fun key _ => keep key.1).entries).filter test := by
    have sorted := (u.filter fun key _ => before.all (key.2 < ·)).sorted
    refine lastOfEach_filter_of_keep keep sorted fun e member other => ?_
    exact fails e.1.1 e.1.2 e.2 other (find?_eq_some_iff.2 (List.mem_filter.1 member).1)
  rw [chosen s fun subject height a other found => fails other height a (.inl found),
    chosen t fun subject height a other found => fails other height a (.inr found), equal]

theorem mem_of_mem_lastOfEach {κ : Type} [DecidableEq κ] {entries : List ((κ × Nat) × α)} {a : α}
    (member : a ∈ lastOfEach entries) : ∃ e ∈ entries, e.2 = a := by
  induction entries using lastOfEach.induct with
  | case1 => cases member
  | case2 e => exact ⟨e, List.mem_singleton_self e, (List.mem_singleton.1 member).symm⟩
  | case3 e next rest same ih =>
    rw [lastOfEach, if_pos same] at member
    obtain ⟨found, among, rfl⟩ := ih member
    exact ⟨found, List.mem_cons_of_mem e among, rfl⟩
  | case4 e next rest changed ih =>
    rw [lastOfEach, if_neg changed] at member
    obtain rfl | member := List.mem_cons.1 member
    · exact ⟨e, List.mem_cons_self, rfl⟩
    · obtain ⟨found, among, rfl⟩ := ih member
      exact ⟨found, List.mem_cons_of_mem e among, rfl⟩

omit [Std.TransOrd σ] in
/-- A current row stands in the table, below the height that is asked for. -/
theorem find?_of_mem_current {t : Table (σ × Nat) α} {before : Option Nat} {a : α}
    (member : a ∈ t.current before) : ∃ key, t.find? key = some a ∧ before.all (key.2 < ·) := by
  obtain ⟨e, among, rfl⟩ := mem_of_mem_lastOfEach member
  obtain ⟨among, low⟩ := List.mem_filter.1 among
  exact ⟨e.1, find?_eq_some_iff.2 among, low⟩

end Current

end StakeIndex.Table
