import StakeIndex.Abi.Decode
import StakeIndex.Abi.Encode
import StakeIndex.Proofs.Words

/-!
How encodings are laid out. The parts of an encoding have their heads one after another, and what is behind
the heads is found through the places in them. A part stands at a place of a body if its bytes are there, or
if the word there leads to them; where an encoding begins, all its parts stand.
-/
namespace StakeIndex.Abi

@[simp] theorem length_wordOf (n : Nat) : (wordOf n).length = 32 := Word.length_toBytes _

theorem natOfBytes_wordOf {n : Nat} (fits : n < 1 <<< 256) : Word.natOfBytes (wordOf n) = n :=
  (Word.natOfBytes_toBytes _).trans (Nat.mod_eq_of_lt fits)

section Places

/-- Behind a prefix stands what follows it there. -/
theorem prefix_drop {first second whole : List UInt8} (at_ : first ++ second <+: whole) :
    second <+: whole.drop first.length := by
  obtain ⟨more, rfl⟩ := at_
  exact ⟨more, by rw [List.append_assoc, List.drop_left]⟩

namespace Cursor

/-- The bytes from a place on. -/
def rest (c : Cursor) : List UInt8 := c.body.drop c.offset

/-- A place further on in the same body. -/
def skip (c : Cursor) (n : Nat) : Cursor := { c with offset := c.offset + n }

variable {c : Cursor} {bs : List UInt8} {n : Nat}

theorem rest_skip (c : Cursor) (n : Nat) : (c.skip n).rest = c.rest.drop n := by
  rw [rest, rest, List.drop_drop]
  rfl

theorem skip_skip (c : Cursor) (m n : Nat) : (c.skip m).skip n = c.skip (m + n) := by
  simp only [skip, Nat.add_assoc]

theorem word?_eq_some (whole : bs.length = 32) (here : bs <+: c.rest) :
    c.word? = some (bs, c.skip 32) := by
  have room := here.length_le
  rw [rest, List.length_drop, whole] at room
  rw [word?, if_pos (by omega), ← rest, ← whole, ← List.prefix_iff_eq_take.1 here, whole]
  rfl

theorem size?_eq_some (fits : n < registerSize) (here : wordOf n <+: c.rest) :
    c.size? = some (n, c.skip 32) := by
  have word : n < 1 <<< 256 := Nat.lt_trans fits (by decide)
  simp only [size?, word?_eq_some (length_wordOf n) here, Option.bind_eq_bind, Option.bind_some,
    natOfBytes_wordOf word, if_pos fits]
  rfl

theorem enter?_eq_some {place : Nat} (shallow : c.depth < depthLimit) (within : place ≤ c.body.length) :
    c.enter? place = some ⟨c.body.drop place, 0, c.depth + 1⟩ :=
  if_pos ⟨shallow, within⟩

end Cursor

/-- A part of an encoding stands at a place: its bytes are there, or the word there is the place of its
bytes in the same body. -/
inductive Part.Stands : Part → Cursor → Prop
  | here {bytes : List UInt8} {c : Cursor} (start : c.offset ≤ c.body.length) (at_ : bytes <+: c.rest) :
      Stands ⟨false, bytes⟩ c
  | behind {bytes : List UInt8} {c : Cursor} (place : Nat) (fits : place < registerSize)
      (within : place ≤ c.body.length) (word : wordOf place <+: c.rest)
      (at_ : bytes <+: c.body.drop place) : Stands ⟨true, bytes⟩ c

/-- Parts stand one after another, the first one at a place. -/
def Part.AllStand : List Part → Cursor → Prop
  | [], _ => True
  | p :: rest, c => p.Stands c ∧ AllStand rest (c.skip p.headSize)

/-- The room that parts take in the head. -/
def Part.headTotal (parts : List Part) : Nat := (parts.map headSize).sum

variable {c : Cursor} {bytes : List UInt8}

theorem Cursor.follow?_eq_some (stands : Part.Stands ⟨true, bytes⟩ c) (shallow : c.depth < depthLimit) :
    ∃ place, bytes <+: c.body.drop place ∧
      c.follow? = some (⟨c.body.drop place, 0, c.depth + 1⟩, c.skip 32) := by
  cases stands with
  | behind place fits within word at_ =>
    refine ⟨place, at_, ?_⟩
    have entered : (c.skip 32).enter? place = some ⟨c.body.drop place, 0, c.depth + 1⟩ :=
      enter?_eq_some shallow within
    simp only [follow?, size?_eq_some fits word, Option.bind_eq_bind, Option.bind_some, entered]
    rfl

/-- Counted bytes are read without the zeros behind them. -/
theorem Cursor.counted?_eq_some {body bs : List UInt8} {depth : Nat} (fits : bs.length < registerSize)
    (at_ : wordOf bs.length ++ padded bs <+: body) : counted? ⟨body, 0, depth⟩ = some bs := by
  obtain ⟨more, rfl⟩ := at_
  have count : wordOf bs.length <+: rest ⟨wordOf bs.length ++ padded bs ++ more, 0, depth⟩ :=
    ⟨padded bs ++ more, (List.append_assoc ..).symm⟩
  have room : 32 + bs.length ≤ (wordOf bs.length ++ padded bs ++ more).length := by
    rw [padded]
    simp only [List.length_append, length_wordOf]
    omega
  have behind : (wordOf bs.length ++ padded bs ++ more).drop 32 = padded bs ++ more := by
    rw [List.append_assoc]
    exact List.drop_left' (length_wordOf _)
  simp only [counted?, size?_eq_some fits count, Option.bind_eq_bind, Option.bind_some, skip,
    Nat.zero_add, if_pos room, behind]
  rw [padded, List.append_assoc, List.take_left]
  rfl

end Places

section Layout

namespace Part

variable {parts : List Part} {c : Cursor} {body : List UInt8} {start depth : Nat}

theorem headTotal_cons (p : Part) (rest : List Part) :
    headTotal (p :: rest) = p.headSize + headTotal rest := by
  rw [headTotal, List.map_cons, List.sum_cons, headTotal]

theorem foldl_headSize (parts : List Part) (n : Nat) :
    parts.foldl (fun n p => n + p.headSize) n = n + headTotal parts := by
  induction parts generalizing n with
  | nil => rfl
  | cons p rest ih => rw [List.foldl_cons, ih, headTotal_cons, Nat.add_assoc]

theorem length_heads (parts : List Part) (start : Nat) :
    (layOut parts start).1.length = headTotal parts := by
  induction parts generalizing start with
  | nil => rfl
  | cons p rest ih =>
    rw [headTotal_cons, layOut, headSize]
    split <;> simp only [List.length_append, length_wordOf, ih]

/-- Without parts behind the head there is nothing behind it. -/
theorem tails_eq_nil (flat : parts.any (·.behind) = false) (start : Nat) : (layOut parts start).2 = [] := by
  induction parts generalizing start with
  | nil => rfl
  | cons p rest ih =>
    obtain ⟨first, others⟩ := Bool.or_eq_false_iff.1 (List.any_cons ▸ flat)
    rw [layOut, if_neg (Bool.eq_false_iff.1 first)]
    exact ih others start

/-- Where the heads and tails of parts are in a body, the parts stand. -/
theorem allStand_layOut (small : c.body.length < registerSize) (inside : c.offset ≤ c.body.length)
    (heads : (layOut parts start).1 <+: c.rest) (within : start ≤ c.body.length)
    (tails : (layOut parts start).2 <+: c.body.drop start) : AllStand parts c := by
  induction parts generalizing c start with
  | nil => trivial
  | cons p rest ih =>
    obtain ⟨behind, bytes⟩ := p
    have room := heads.length_le
    rw [length_heads, headTotal_cons, Cursor.rest, List.length_drop] at room
    cases behind with
    | false =>
      -- The bytes take their room in the head, and the tails start where they did.
      have heads : bytes ++ (layOut rest start).1 <+: c.rest := heads
      have later : (layOut rest start).1 <+: (c.skip bytes.length).rest := by
        rw [Cursor.rest_skip]
        exact prefix_drop heads
      have room : bytes.length + headTotal rest ≤ c.body.length - c.offset := room
      exact ⟨.here inside ((List.prefix_append ..).trans heads),
        ih small (show c.offset + bytes.length ≤ c.body.length by omega) later within tails⟩
    | true =>
      -- A word stands for the bytes in the head, and the other tails start behind them.
      have heads : wordOf start ++ (layOut rest (start + bytes.length)).1 <+: c.rest := heads
      have tails : bytes ++ (layOut rest (start + bytes.length)).2 <+: c.body.drop start := tails
      have later : (layOut rest (start + bytes.length)).1 <+: (c.skip 32).rest := by
        rw [Cursor.rest_skip, ← length_wordOf start]
        exact prefix_drop heads
      have lower : (layOut rest (start + bytes.length)).2 <+: c.body.drop (start + bytes.length) := by
        rw [← List.drop_drop]
        exact prefix_drop tails
      have room : 32 + headTotal rest ≤ c.body.length - c.offset := room
      have below := tails.length_le
      rw [List.length_append, List.length_drop] at below
      exact ⟨.behind start (by omega) within ((List.prefix_append ..).trans heads)
          ((List.prefix_append ..).trans tails),
        ih small (show c.offset + 32 ≤ c.body.length by omega) later
          (show start + bytes.length ≤ c.body.length by omega) lower⟩

theorem join_eq (parts : List Part) :
    join parts = (layOut parts (headTotal parts)).1 ++ (layOut parts (headTotal parts)).2 := by
  rw [join, foldl_headSize, Nat.zero_add]

theorem length_join_flat (flat : parts.any (·.behind) = false) : (join parts).length = headTotal parts := by
  rw [join_eq, tails_eq_nil flat, List.append_nil, length_heads]

/-- Where the encoding of parts begins, the parts stand. -/
theorem allStand_join (small : body.length < registerSize) (at_ : join parts <+: body) :
    AllStand parts ⟨body, 0, depth⟩ := by
  rw [join_eq] at at_
  have room := at_.length_le
  rw [List.length_append, length_heads] at room
  have tails := prefix_drop at_
  rw [length_heads] at tails
  exact allStand_layOut small (Nat.zero_le _) ((List.prefix_append ..).trans at_)
    (show headTotal parts ≤ body.length by omega) tails

/-- The room that a part takes in an encoding. -/
def room (p : Part) : Nat := if p.behind then 32 + p.bytes.length else p.bytes.length

theorem length_join (parts : List Part) : (join parts).length = (parts.map room).sum := by
  have both (start : Nat) : (layOut parts start).1.length + (layOut parts start).2.length =
      (parts.map room).sum := by
    induction parts generalizing start with
    | nil => rfl
    | cons p rest ih =>
      rw [layOut, List.map_cons, List.sum_cons, room]
      split
      · rw [← ih (start + p.bytes.length)]
        simp only [List.length_append, length_wordOf]
        omega
      · rw [← ih start]
        simp only [List.length_append]
        omega
  rw [join_eq, List.length_append, both]

theorem length_le_room (p : Part) : p.bytes.length ≤ p.room := by
  rw [room]
  split <;> omega

end Part

end Layout

end StakeIndex.Abi
