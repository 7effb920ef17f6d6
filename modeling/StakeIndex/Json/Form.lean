import StakeIndex.Calendar
import StakeIndex.Decimal
import StakeIndex.Net.Ipv4
import StakeIndex.Json.Basic

/-!
Values with a form as JSON: one class for writing and reading, its instances for the basic values, and
the two shapes in which a record is read.
-/
namespace StakeIndex

/-- A type of values that are written as JSON and read from it. -/
class JsonForm (α : Type) where
  write : α → Json
  read? : Json → Option α

namespace Json

def of {α : Type} [JsonForm α] (a : α) : Json := JsonForm.write a

def get? {α : Type} [JsonForm α] (j : Json) : Option α := JsonForm.read? j

def listOf? {α : Type} (read? : Json → Option α) (j : Json) : Option (List α) := do
  (← j.list?).mapM read?

/-- A named value from its name, or from an object with the name as its only member and null as its
value. -/
def named? {α : Type} [Named α] : Json → Option α
  | .text s => Named.read? s
  | .object [(name, .null)] => Named.read? name
  | _ => none

/-- Exactly some number of bytes, as a number: hexadecimal text or a list of them. -/
def fixedBytes? (size : Nat) : Json → Option Nat
  | .text s => Hex.fixed? size s
  | .list items =>
    if items.length = size then
      items.foldlM (fun n item => (natBelow? 256 item).map (256 * n + ·)) 0
    else none
  | _ => none

instance : JsonForm Json := ⟨id, some⟩
instance : JsonForm Bool := ⟨.bool, bool?⟩
instance : JsonForm String := ⟨.text, text?⟩
instance : JsonForm Nat := ⟨nat, natBelow? registerSize⟩

instance : JsonForm Int where
  write := .int
  read? j := do
    let n ← j.int?
    if n < (1 <<< 63 : Nat) then return n else none

instance : JsonForm Word where
  write w := .text w.hex
  read?
    | .text s => Word.read? s
    | .int n => if 0 ≤ n then Word.ofNat? n.toNat else none
    | _ => none

instance : JsonForm Address where
  write a := .text a.hex
  read? j := (fixedBytes? 20 j).bind Address.ofNat?

instance : JsonForm Hash where
  write h := .text h.hex
  read? j := (fixedBytes? 32 j).map fun n => .ofWord (.ofNat n)

instance : JsonForm Instant where
  write t := .text t.text
  read? j := j.text?.bind Instant.read?

instance : JsonForm Ipv4 where
  write ip := .text ip.text
  read? j := j.text?.bind Ipv4.read?

instance : JsonForm Decimal where
  write d := .text d.text
  read?
    | .text s => Decimal.read? s
    | .int n => some (.ofInt n)
    | _ => none

instance {α : Type} [Named α] : JsonForm α := ⟨fun a => .text (Named.name a), named?⟩

instance {α : Type} [JsonForm α] : JsonForm (List α) :=
  ⟨fun as => .list (as.map of), listOf? get?⟩

instance {α : Type} [JsonForm α] : JsonForm (Option α) where
  write := optional of
  read?
    | .null => some none
    | j => (get? j).map some

/-- The parts of a record by the names of its fields: from an object, whose other members do not count,
or from a list with exactly the fields in their order. -/
def fields? (names : List String) : Json → Option (String → Option Json)
  | .object members => some fun name => find name members
  | .list items =>
    if items.length = names.length then some fun name => find name (names.zip items) else none
  | _ => none

/-- A field's value. A field that may be null may also be missing. -/
def field {α : Type} [JsonForm α] (part : String → Option Json) (name : String) : Option α :=
  match part name with
  | some j => get? j
  | none => none

/-- The value of a field that may be missing. -/
def field? {α : Type} [JsonForm α] (part : String → Option Json) (name : String) :
    Option (Option α) :=
  match part name with
  | some j => get? j
  | none => some none

end Json
end StakeIndex
