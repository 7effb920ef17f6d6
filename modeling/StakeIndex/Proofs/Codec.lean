import StakeIndex.Proofs.Layout
import StakeIndex.Proofs.Utf8

/-!
Decoding undoes encoding. Each value is read from the place where its part stands, and the reading ends
behind the part's head. So the reading of all values goes along the heads, by induction on the values.
-/
namespace StakeIndex.Abi

namespace Value

mutual

/-- Whether an encoding can hold a value: an integer of 256 bits, a function of 24 bytes, an array whose
length fits a register. -/
def fits : Value → Bool
  | int n _ => decide (-(1 <<< 255 : Nat) ≤ n ∧ n < (1 <<< 255 : Nat))
  | function bs => bs.length == 24
  | array items => decide (items.length < registerSize) && allFit items
  | fixedArray items => allFit items
  | tuple parts => allFit parts
  | _ => true

/-- Whether an encoding can hold some values. -/
def allFit : List Value → Bool
  | [] => true
  | v :: rest => fits v && allFit rest

end

end Value

namespace Kind

mutual

/-- Whether a type is one that contract code can name: fixed bytes take a word at most and arrays of a fixed
size are not of size zero. -/
def isProper : Kind → Bool
  | fixedBytes size => decide (1 ≤ size ∧ size ≤ 32)
  | array item => isProper item
  | fixedArray item size => size != 0 && isProper item
  | tuple parts => areProper parts
  | unknown _ => false
  | _ => true

/-- Whether some types are proper. -/
def areProper : List Kind → Bool
  | [] => true
  | kind :: rest => isProper kind && areProper rest

end

mutual

/-- How many bodies inside each other are entered to read a value. -/
def depth : Kind → Nat
  | bytes => 1
  | string => 1
  | array item => depth item + 2
  | fixedArray item _ => depth item + 1
  | tuple parts => depthOf parts + 1
  | _ => 0

/-- How many bodies inside each other are entered to read some values. -/
def depthOf : List Kind → Nat
  | [] => 0
  | kind :: rest => max (depth kind) (depthOf rest)

end

end Kind

section Every

theorem allFit_iff {vs : List Value} : Value.allFit vs ↔ ∀ v ∈ vs, v.fits := by
  induction vs with
  | nil => exact ⟨fun _ _ member => (nomatch member), fun _ => rfl⟩
  | cons v rest ih => rw [Value.allFit, Bool.and_eq_true_iff, ih, List.forall_mem_cons]

theorem areProper_iff {kinds : List Kind} : Kind.areProper kinds ↔ ∀ kind ∈ kinds, kind.isProper := by
  induction kinds with
  | nil => exact ⟨fun _ _ member => (nomatch member), fun _ => rfl⟩
  | cons kind rest ih => rw [Kind.areProper, Bool.and_eq_true_iff, ih, List.forall_mem_cons]

theorem depthOf_le_iff {kinds : List Kind} {n : Nat} :
    Kind.depthOf kinds ≤ n ↔ ∀ kind ∈ kinds, kind.depth ≤ n := by
  induction kinds with
  | nil => exact ⟨fun _ _ member => (nomatch member), fun _ => Nat.zero_le n⟩
  | cons kind rest ih => rw [Kind.depthOf, Nat.max_le, ih, List.forall_mem_cons]

mutual

/-- A proper type is known. -/
theorem isKnown_of_isProper : ∀ kind : Kind, kind.isProper → kind.isKnown
  | .array item, proper => isKnown_of_isProper item proper
  | .fixedArray item _, proper => isKnown_of_isProper item (Bool.and_eq_true_iff.1 proper).2
  | .tuple parts, proper => areKnown_of_areProper parts proper
  | .bool, _ | .uint _, _ | .int _, _ | .address, _ | .fixedBytes _, _ | .function, _ | .bytes, _
  | .string, _ => rfl

theorem areKnown_of_areProper : ∀ kinds : List Kind, Kind.areProper kinds → Kind.areKnown kinds
  | [], _ => rfl
  | kind :: rest, proper =>
    Bool.and_eq_true_iff.2 ⟨isKnown_of_isProper kind (Bool.and_eq_true_iff.1 proper).1,
      areKnown_of_areProper rest (Bool.and_eq_true_iff.1 proper).2⟩

end

end Every

section SingleWords

theorem length_padded_word {bs : List UInt8} (nonempty : 1 ≤ bs.length) (within : bs.length ≤ 32) :
    (padded bs).length = 32 := by
  rw [padded, List.length_append, List.length_replicate]
  omega

theorem take_padded (bs : List UInt8) : (padded bs).take bs.length = bs := List.take_left

variable {v : Value} {kind : Kind}

/-- A value that takes a word stands in it. -/
theorem part_word (typed : v.hasKind kind) (word : kind.isSingleWord) (proper : kind.isProper)
    (fits : v.fits) : v.part.behind = false ∧ v.part.bytes.length = 32 := by
  cases kind <;> cases v <;>
    simp only [Value.hasKind, Kind.isSingleWord, Bool.false_eq_true] at typed word
  case bool | uint | int | address => exact ⟨rfl, Word.length_toBytes _⟩
  case fixedBytes size bs =>
    simp only [Kind.isProper, decide_eq_true_eq, ← eq_of_beq typed] at proper
    exact ⟨rfl, length_padded_word proper.1 proper.2⟩
  case function bs =>
    have size : bs.length = 24 := eq_of_beq fits
    exact ⟨rfl, length_padded_word (by omega) (by omega)⟩

/-- A signed number comes back from its remainder, of which the upper half stands for negative numbers. -/
theorem signed_emod {m : Nat} {n : Int} (within : -m ≤ n ∧ n < m) :
    (n % (2 * m : Nat)).toNat < 2 * m ∧
      (if (n % (2 * m : Nat)).toNat < m then ((n % (2 * m : Nat)).toNat : Int)
        else (n % (2 * m : Nat)).toNat - (2 * m : Nat)) = n := by
  obtain negative | natural : n < 0 ∨ 0 ≤ n := by omega
  · have same : n % (2 * m : Nat) = n + (2 * m : Nat) := by
      rw [← Int.add_emod_right]
      exact Int.emod_eq_of_lt (by omega) (by omega)
    rw [same, if_neg (by omega)]
    omega
  · rw [Int.emod_eq_of_lt natural (by omega), if_pos (by omega)]
    omega

theorem ofWord_int {n : Int} (within : -(1 <<< 255 : Nat) ≤ n ∧ n < (1 <<< 255 : Nat)) (bits : Nat) :
    Kind.ofWord (.int bits) (wordOf (n % (1 <<< 256 : Nat)).toNat) = .int n bits := by
  have twice : 2 * 1 <<< 255 = 1 <<< 256 := by decide
  have signed := signed_emod within
  rw [twice] at signed
  simp only [Kind.ofWord, natOfBytes_wordOf signed.1, signed.2]

/-- The word of a value holds this value. -/
theorem ofWord_part (typed : v.hasKind kind) (word : kind.isSingleWord) (fits : v.fits) :
    kind.ofWord v.part.bytes = v := by
  cases kind <;> cases v <;>
    simp only [Value.hasKind, Kind.isSingleWord, Bool.false_eq_true] at typed word
  case bool b => cases b <;> rfl
  case uint n bits => rw [Value.part, Kind.ofWord, Word.ofBytes_toBytes, eq_of_beq typed]
  case int n bits =>
    rw [← eq_of_beq typed]
    exact ofWord_int (of_decide_eq_true fits) bits
  case address a =>
    rw [Value.part, Kind.ofWord, Word.ofBytes_toBytes]
    exact congrArg _ (Address.ext (Nat.mod_eq_of_lt a.toNat_lt))
  case fixedBytes size bs => rw [Value.part, Kind.ofWord, ← eq_of_beq typed, take_padded]
  case function bs =>
    have size : bs.length = 24 := eq_of_beq fits
    rw [Value.part, Kind.ofWord, ← size, take_padded]

end SingleWords

section Repeated

variable (item : Kind) (n : Nat)

theorem repeatRead_eq_readAll (c : Cursor) :
    Kind.repeatRead (Kind.read item) n c = Kind.readAll (List.replicate n item) c := by
  induction n generalizing c with
  | zero => rfl
  | succ n ih => simp only [Kind.repeatRead, List.replicate_succ, Kind.readAll, ih]

theorem haveKinds_replicate {item : Kind} {items : List Value} (typed : Value.allHaveKind items item) :
    Value.haveKinds items (List.replicate items.length item) := by
  induction items with
  | nil => rfl
  | cons v rest ih =>
    obtain ⟨first, others⟩ := Bool.and_eq_true_iff.1 typed
    exact Bool.and_eq_true_iff.2 ⟨first, ih others⟩

theorem haveKinds_of_fixedArray {item : Kind} {items : List Value} {size : Nat}
    (typed : (Value.fixedArray items).hasKind (.fixedArray item size)) :
    Value.haveKinds items (List.replicate size item) := by
  obtain ⟨count, typed⟩ := Bool.and_eq_true_iff.1 typed
  rw [← eq_of_beq count]
  exact haveKinds_replicate typed

theorem areProper_replicate (proper : item.isProper) : Kind.areProper (List.replicate n item) := by
  induction n with
  | zero => rfl
  | succ n ih => exact Bool.and_eq_true_iff.2 ⟨proper, ih⟩

theorem depthOf_replicate : Kind.depthOf (List.replicate n item) ≤ item.depth := by
  induction n with
  | zero => exact Nat.zero_le _
  | succ n ih => exact Nat.max_le.2 ⟨Nat.le_refl _, ih⟩

theorem anyDynamic_replicate (nonzero : n ≠ 0) :
    Kind.anyDynamic (List.replicate n item) = item.isDynamic := by
  induction n with
  | zero => exact absurd rfl nonzero
  | succ n ih =>
    rw [List.replicate_succ, Kind.anyDynamic]
    by_cases more : n = 0
    · rw [more]
      exact Bool.or_false _
    · rw [ih more, Bool.or_self]

theorem leastWordsOf_replicate : Kind.leastWordsOf (List.replicate n item) = n * item.leastWords := by
  induction n with
  | zero => exact (Nat.zero_mul _).symm
  | succ n ih => rw [List.replicate_succ, Kind.leastWordsOf, ih, Nat.succ_mul, Nat.add_comm]

end Repeated

section Typed

/-- What has to be shown of values of each type, so that it holds of all values along their types. -/
structure AlongTypes (P : Value → Kind → Prop) (Q : List Value → List Kind → Prop) : Prop where
  word {v : Value} {kind : Kind} (typed : v.hasKind kind) (word : kind.isSingleWord) : P v kind
  bytes (bs : List UInt8) : P (.bytes bs) .bytes
  string (s : String) : P (.string s) .string
  array {items : List Value} {item : Kind} (typed : Value.haveKinds items (List.replicate items.length item))
    (each : Q items (List.replicate items.length item)) : P (.array items) (.array item)
  fixedArray {items : List Value} {item : Kind} {size : Nat}
    (typed : Value.haveKinds items (List.replicate size item)) (each : Q items (List.replicate size item)) :
    P (.fixedArray items) (.fixedArray item size)
  tuple {fields : List Value} {kinds : List Kind} (typed : Value.haveKinds fields kinds)
    (each : Q fields kinds) : P (.tuple fields) (.tuple kinds)
  nil : Q [] []
  cons {v : Value} {kind : Kind} {rest : List Value} {kinds : List Kind} (typed : v.hasKind kind)
    (others : Value.haveKinds rest kinds) (first : P v kind) (later : Q rest kinds) :
    Q (v :: rest) (kind :: kinds)

variable {P : Value → Kind → Prop} {Q : List Value → List Kind → Prop}

mutual

theorem AlongTypes.value (steps : AlongTypes P Q) :
    ∀ (v : Value) {kind : Kind}, v.hasKind kind → P v kind
  | .bool _, kind, typed | .uint _ _, kind, typed | .int _ _, kind, typed | .address _, kind, typed
  | .fixedBytes _, kind, typed | .function _, kind, typed => by
    cases kind <;> first | exact steps.word typed rfl | cases typed
  | .bytes bs, kind, typed => by
    cases kind <;> first | exact steps.bytes bs | cases typed
  | .string s, kind, typed => by
    cases kind <;> first | exact steps.string s | cases typed
  | .array items, kind, typed => by
    cases kind <;> try cases typed
    case array item =>
      have typed := haveKinds_replicate typed
      exact steps.array typed (steps.values items typed)
  | .fixedArray items, kind, typed => by
    cases kind <;> try cases typed
    case fixedArray item size =>
      have typed := haveKinds_of_fixedArray typed
      exact steps.fixedArray typed (steps.values items typed)
  | .tuple fields, kind, typed => by
    cases kind <;> try cases typed
    case tuple kinds => exact steps.tuple typed (steps.values fields typed)

theorem AlongTypes.values (steps : AlongTypes P Q) :
    ∀ (vs : List Value) {kinds : List Kind}, Value.haveKinds vs kinds → Q vs kinds
  | [], kinds, typed => by
    cases kinds with
    | nil => exact steps.nil
    | cons => cases typed
  | v :: rest, kinds, typed => by
    cases kinds with
    | nil => cases typed
    | cons kind kinds =>
      obtain ⟨first, others⟩ := Bool.and_eq_true_iff.1 typed
      exact steps.cons first others (steps.value v first) (steps.values rest others)

end

end Typed

section Shapes

variable {kinds : List Kind} {vs : List Value}

/-- The part of a value is behind the head if its type is dynamic. -/
theorem behind_alongTypes : AlongTypes (fun v kind => kind.isProper → v.part.behind = kind.isDynamic)
    fun vs kinds => Kind.areProper kinds → (Value.parts vs).any (·.behind) = Kind.anyDynamic kinds where
  word {v kind} typed word _ := by
    cases kind <;> cases v <;> first | rfl | cases typed | cases word
  bytes _ _ := rfl
  string _ _ := rfl
  array _ _ _ := rfl
  fixedArray {_ item size} _ each proper := by
    obtain ⟨nonzero, proper⟩ := Bool.and_eq_true_iff.1 proper
    exact (each (areProper_replicate item size proper)).trans
      (anyDynamic_replicate item size (bne_iff_ne.1 nonzero))
  tuple _ each proper := each proper
  nil _ := rfl
  cons _ _ first later proper := by
    obtain ⟨sound, proper⟩ := Bool.and_eq_true_iff.1 proper
    rw [Value.parts, List.any_cons, first sound, later proper, Kind.anyDynamic]

theorem any_behind_parts (typed : Value.haveKinds vs kinds) (proper : Kind.areProper kinds) :
    (Value.parts vs).any (·.behind) = Kind.anyDynamic kinds :=
  behind_alongTypes.values vs typed proper

/-- The part of a value takes as many words as its type says, at least. -/
theorem leastWords_alongTypes : AlongTypes
    (fun v kind => kind.isProper → v.fits → 32 * kind.leastWords ≤ v.part.room)
    fun vs kinds => Kind.areProper kinds → Value.allFit vs →
      32 * Kind.leastWordsOf kinds ≤ (Part.join (Value.parts vs)).length where
  word {v kind} typed word proper fits := by
    have one : kind.leastWords = 1 := by cases kind <;> first | rfl | cases word
    rw [one, Nat.mul_one]
    exact (part_word typed word proper fits).2 ▸ v.part.length_le_room
  bytes _ _ _ := Nat.le_add_right ..
  string _ _ _ := Nat.le_add_right ..
  array _ _ _ _ := Nat.le_add_right ..
  fixedArray {items item size} _ each proper fit := by
    have inside := each (areProper_replicate item size (Bool.and_eq_true_iff.1 proper).2) fit
    rw [leastWordsOf_replicate] at inside
    exact Nat.le_trans inside (Part.group (Value.parts items)).length_le_room
  tuple {fields _} _ each proper fit :=
    Nat.le_trans (each proper fit) (Part.group (Value.parts fields)).length_le_room
  nil _ _ := Nat.zero_le _
  cons _ _ first later proper fit := by
    obtain ⟨sound, proper⟩ := Bool.and_eq_true_iff.1 proper
    obtain ⟨fits, fit⟩ := Bool.and_eq_true_iff.1 fit
    have here := first sound fits
    have behind := later proper fit
    rw [Part.length_join] at behind ⊢
    rw [Value.parts, List.map_cons, List.sum_cons, Kind.leastWordsOf]
    omega

theorem leastWordsOf_le_join (typed : Value.haveKinds vs kinds) (proper : Kind.areProper kinds)
    (fit : Value.allFit vs) : 32 * Kind.leastWordsOf kinds ≤ (Part.join (Value.parts vs)).length :=
  leastWords_alongTypes.values vs typed proper fit

end Shapes

section Reading

variable {v : Value} {kind : Kind} {c : Cursor} {bytes : List UInt8}

theorem read_word (typed : v.hasKind kind) (word : kind.isSingleWord) (proper : kind.isProper)
    (fits : v.fits) (stands : v.part.Stands c) : kind.read c = some (v, c.skip v.part.headSize) := by
  obtain ⟨here, whole⟩ := part_word typed word proper fits
  have same : v.part = ⟨false, v.part.bytes⟩ := by rw [← here]
  have size : v.part.headSize = 32 := by rw [Part.headSize, here, ← whole]; rfl
  have opened : kind.read c = c.word?.map fun word => (kind.ofWord word.1, word.2) := by
    cases kind <;> first | rfl | cases word
  rw [same] at stands
  cases stands with
  | here _ at_ =>
    rw [opened, Cursor.word?_eq_some whole at_, size, Option.map_some]
    exact congrArg (fun v => some (v, c.skip 32)) (ofWord_part typed word fits)

/-- Values in a group are read where the group stands, if they are read where its parts stand. -/
theorem nested_group {parts : List Part} {vs : List Value}
    {read : Cursor → Option (List Value × Cursor)} (shallow : c.depth < depthLimit)
    (small : c.body.length < registerSize) (stands : (Part.group parts).Stands c)
    (reads : ∀ inner : Cursor, inner.depth = c.depth + 1 → inner.body.length < registerSize →
      Part.AllStand parts inner → read inner = some (vs, inner.skip (Part.headTotal parts))) :
    Kind.nested (parts.any (·.behind)) read c = some (vs, c.skip (Part.group parts).headSize) := by
  have below (place : Nat) : (c.body.drop place).length < registerSize := by
    rw [List.length_drop]
    omega
  have enters {place : Nat} (at_ : Part.join parts <+: c.body.drop place) :
      read ⟨c.body.drop place, 0, c.depth + 1⟩ =
        some (vs, Cursor.skip ⟨c.body.drop place, 0, c.depth + 1⟩ (Part.headTotal parts)) :=
    reads _ rfl (below place) (Part.allStand_join (below place) at_)
  cases dynamic : parts.any (·.behind) with
  | true =>
    have group : Part.group parts = ⟨true, Part.join parts⟩ := by rw [Part.group, dynamic]
    rw [group] at stands ⊢
    obtain ⟨place, at_, followed⟩ := Cursor.follow?_eq_some stands shallow
    simp only [Kind.nested, if_true, followed, Option.bind_eq_bind, Option.bind_some, enters at_]
    rfl
  | false =>
    have group : Part.group parts = ⟨false, Part.join parts⟩ := by rw [Part.group, dynamic]
    rw [group] at stands ⊢
    cases stands with
    | here start at_ =>
      simp only [Kind.nested, Bool.false_eq_true, if_false, Cursor.enter?_eq_some shallow start,
        Option.bind_eq_bind, Option.bind_some, enters at_, Part.headSize, Part.length_join_flat dynamic,
        Cursor.skip, Nat.zero_add]
      rfl

/-- The bytes of a value that counts its bytes are read where its part stands. -/
theorem counted_stands {bs : List UInt8} (shallow : c.depth < depthLimit)
    (small : c.body.length < registerSize)
    (stands : Part.Stands ⟨true, wordOf bs.length ++ padded bs⟩ c) :
    ∃ inner, c.follow? = some (inner, c.skip 32) ∧ inner.counted? = some bs := by
  obtain ⟨place, at_, followed⟩ := Cursor.follow?_eq_some stands shallow
  have room := at_.length_le
  rw [List.length_append, padded, List.length_append, List.length_drop] at room
  exact ⟨_, followed, Cursor.counted?_eq_some (by omega) at_⟩

/-- The items of an array are read where its part stands, if they are read where their parts stand. -/
theorem read_array {items : List Value} {item : Kind}
    (typed : Value.haveKinds items (List.replicate items.length item))
    (proper : item.isProper) (fit : Value.allFit items) (counted : items.length < registerSize)
    (deep : c.depth + 2 ≤ depthLimit) (small : c.body.length < registerSize)
    (stands : Part.Stands ⟨true, wordOf items.length ++ Part.join (Value.parts items)⟩ c)
    (reads : ∀ inner : Cursor, inner.depth = c.depth + 2 → inner.body.length < registerSize →
      Part.AllStand (Value.parts items) inner →
        Kind.readAll (List.replicate items.length item) inner =
          some (items, inner.skip (Part.headTotal (Value.parts items)))) :
    Kind.read (.array item) c = some (.array items, c.skip 32) := by
  obtain ⟨place, at_, followed⟩ := Cursor.follow?_eq_some stands (by omega)
  -- The count has a body of its own, and the items have one that starts behind it.
  have first := Cursor.size?_eq_some (c := ⟨c.body.drop place, 0, c.depth + 1⟩) counted
    ((List.prefix_append ..).trans at_)
  have later : Part.join (Value.parts items) <+: (c.body.drop place).drop 32 :=
    length_wordOf items.length ▸ prefix_drop at_
  have within : 32 ≤ (c.body.drop place).length := by
    have room := at_.length_le
    rw [List.length_append, length_wordOf] at room
    omega
  have below : ((c.body.drop place).drop 32).length < registerSize := by
    simp only [List.length_drop]
    omega
  have entered : Cursor.enter? ⟨c.body.drop place, 32, c.depth + 1⟩ 32 =
      some ⟨(c.body.drop place).drop 32, 0, c.depth + 2⟩ :=
    Cursor.enter?_eq_some (show c.depth + 1 < depthLimit by omega) within
  have read := reads _ rfl below (Part.allStand_join below later)
  by_cases empty : items.length = 0
  · simp only [Kind.read, followed, Option.bind_eq_bind, Option.bind_some, first, if_pos empty]
    rw [List.length_eq_zero_iff.1 empty]
    rfl
  · have least := leastWordsOf_le_join typed (areProper_replicate item _ proper) fit
    rw [leastWordsOf_replicate] at least
    -- An array is refused where its items cannot stand in what is left; the items that do stand fit.
    have left : ¬ Cursor.wordsLeft ⟨(c.body.drop place).drop 32, 0, c.depth + 2⟩ <
        items.length * item.leastWords := by
      have room := later.length_le
      simp only [Cursor.wordsLeft]
      omega
    simp only [Kind.read, followed, Option.bind_eq_bind, Option.bind_some, first, if_neg empty]
    simp only [Cursor.skip, Nat.zero_add, entered, Option.bind_some, if_neg left, repeatRead_eq_readAll,
      read]
    rfl

/-- A value is read where its part stands, and the reading ends behind the part's head. -/
theorem read_alongTypes : AlongTypes
    (fun v kind => ∀ c : Cursor, v.fits → kind.isProper → c.depth + kind.depth ≤ depthLimit →
      c.body.length < registerSize → v.part.Stands c → kind.read c = some (v, c.skip v.part.headSize))
    fun vs kinds => ∀ c : Cursor, Value.allFit vs → Kind.areProper kinds →
      c.depth + Kind.depthOf kinds ≤ depthLimit → c.body.length < registerSize →
      Part.AllStand (Value.parts vs) c →
      Kind.readAll kinds c = some (vs, c.skip (Part.headTotal (Value.parts vs))) where
  word typed word _ fits proper _ _ stands := read_word typed word proper fits stands
  bytes _ c _ _ deep small stands := by
    obtain ⟨inner, followed, counted⟩ := counted_stands deep small stands
    simp only [Kind.read, followed, Option.bind_eq_bind, Option.bind_some, counted]
    rfl
  string _ c _ _ deep small stands := by
    obtain ⟨inner, followed, counted⟩ := counted_stands deep small stands
    simp only [Kind.read, followed, Option.bind_eq_bind, Option.bind_some, counted, Utf8.text_bytes]
    rfl
  array {items item} typed each c fits proper deep small stands := by
    obtain ⟨counted, fit⟩ := Bool.and_eq_true_iff.1 fits
    have shallow : c.depth + (item.depth + 2) ≤ depthLimit := deep
    have nested := depthOf_replicate item items.length
    exact read_array typed proper fit (of_decide_eq_true counted) (by omega) small stands
      fun inner level small stand =>
        each inner fit (areProper_replicate item _ proper) (by omega) small stand
  fixedArray {items item size} typed each c fit proper deep small stands := by
    have shallow : c.depth + (item.depth + 1) ≤ depthLimit := deep
    have nested := depthOf_replicate item size
    obtain ⟨nonzero, proper⟩ := Bool.and_eq_true_iff.1 proper
    have proper := areProper_replicate item size proper
    have group : (Value.parts items).any (·.behind) = item.isDynamic :=
      (any_behind_parts typed proper).trans (anyDynamic_replicate item size (bne_iff_ne.1 nonzero))
    have reads : Kind.nested ((Value.parts items).any (·.behind)) (Kind.repeatRead (Kind.read item) size)
        c = some (items, c.skip (Part.group (Value.parts items)).headSize) := by
      refine nested_group (by omega) small stands fun inner level small stand => ?_
      rw [repeatRead_eq_readAll]
      exact each inner fit proper (by omega) small stand
    rw [Kind.read, Kind.isDynamic, ← group, reads]
    rfl
  tuple {fields kinds} typed each c fit proper deep small stands := by
    have shallow : c.depth + (Kind.depthOf kinds + 1) ≤ depthLimit := deep
    have reads : Kind.nested ((Value.parts fields).any (·.behind)) (Kind.readAll kinds) c =
        some (fields, c.skip (Part.group (Value.parts fields)).headSize) :=
      nested_group (by omega) small stands fun inner level small stand =>
        each inner fit proper (by omega) small stand
    rw [Kind.read, ← any_behind_parts typed proper, reads]
    rfl
  nil _ _ _ _ _ _ := rfl
  cons {v kind rest kinds} _ _ first later c fit proper deep small stand := by
    obtain ⟨fits, fit⟩ := Bool.and_eq_true_iff.1 fit
    obtain ⟨sound, proper⟩ := Bool.and_eq_true_iff.1 proper
    obtain ⟨here, behind⟩ := stand
    have deeper : c.depth + max kind.depth (Kind.depthOf kinds) ≤ depthLimit := deep
    have shallow : (c.skip v.part.headSize).depth + Kind.depthOf kinds ≤ depthLimit :=
      show c.depth + Kind.depthOf kinds ≤ depthLimit by omega
    have head := first c fits sound (by omega) small here
    have tail := later _ fit proper shallow small behind
    simp only [Kind.readAll, head, Option.bind_eq_bind, Option.bind_some, tail, Cursor.skip_skip]
    rw [Value.parts, Part.headTotal_cons]
    rfl

end Reading

section Empty

theorem areEmpty_replicate {item : Kind} {size : Nat} (empty : (Kind.fixedArray item size).isEmpty) :
    Kind.areEmpty (List.replicate size item) := by
  induction size with
  | zero => rfl
  | succ size ih =>
    have item_empty : item.isEmpty := (Bool.or_eq_true_iff.1 empty).resolve_left nofun
    exact Bool.and_eq_true_iff.2 ⟨item_empty, ih (Bool.or_eq_true_iff.2 (.inr item_empty))⟩

theorem emptyValues_replicate (item : Kind) (size : Nat) :
    Kind.emptyValues (List.replicate size item) = List.replicate size item.emptyValue := by
  induction size with
  | zero => rfl
  | succ size ih => rw [List.replicate_succ, Kind.emptyValues, ih, List.replicate_succ]

/-- A type that takes no room has one value only. -/
theorem empty_alongTypes : AlongTypes (fun v kind => kind.isEmpty → v = kind.emptyValue)
    fun vs kinds => Kind.areEmpty kinds → vs = Kind.emptyValues kinds where
  word {_ kind} _ word empty := by
    cases kind <;> first | cases empty | cases word
  bytes _ empty := nomatch empty
  string _ empty := nomatch empty
  array _ _ empty := nomatch empty
  fixedArray _ each empty := by
    rw [Kind.emptyValue, ← emptyValues_replicate]
    exact congrArg _ (each (areEmpty_replicate empty))
  tuple _ each empty := congrArg _ (each empty)
  nil _ := rfl
  cons _ _ first later empty := by
    obtain ⟨here, behind⟩ := Bool.and_eq_true_iff.1 empty
    rw [Kind.emptyValues, ← first here, ← later behind]

end Empty

/-- Values of proper types are decoded from their encoding whatever follows it, if it holds them, its length
fits a register and they are not too deep inside each other. -/
theorem decode?_encode_append {kinds : List Kind} {values : List Value} {more : List UInt8}
    (typed : Value.haveKinds values kinds) (fit : Value.allFit values) (proper : Kind.areProper kinds)
    (shallow : Kind.depthOf kinds ≤ depthLimit) (small : (encode values ++ more).length < registerSize) :
    decode? kinds (encode values ++ more) = some values := by
  by_cases empty : Kind.areEmpty kinds
  · rw [decode?, if_pos empty, ← empty_alongTypes.values values typed empty]
  · have least := leastWordsOf_le_join typed proper fit
    have left : ¬ (Cursor.start (encode values ++ more)).wordsLeft < Kind.leastWordsOf kinds := by
      simp only [Cursor.start, Cursor.wordsLeft, encode, List.length_append]
      omega
    have stand : Part.AllStand (Value.parts values) (.start (encode values ++ more)) :=
      Part.allStand_join small (List.prefix_append ..)
    have read := read_alongTypes.values values typed _ fit proper
      (show 0 + Kind.depthOf kinds ≤ depthLimit by omega) small stand
    rw [decode?, if_neg empty, if_neg left, read]
    rfl

theorem decode?_encode {kinds : List Kind} {values : List Value} (typed : Value.haveKinds values kinds)
    (fit : Value.allFit values) (proper : Kind.areProper kinds) (shallow : Kind.depthOf kinds ≤ depthLimit)
    (small : (encode values).length < registerSize) : decode? kinds (encode values) = some values := by
  rw [← List.append_nil (encode values)] at small ⊢
  exact decode?_encode_append typed fit proper shallow small

end StakeIndex.Abi
