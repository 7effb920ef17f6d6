import StakeIndex.Json.Basic
import StakeIndex.Text.Numeral

/-!
JSON text as a stream of events, in the order of the text. A reader that wants one shape of value can
tell whether the shape or the grammar is broken first, because the stream goes on up to the first
character that no JSON text has at its place.
-/
namespace StakeIndex.Json

/-- What is read next from a JSON text. -/
inductive Event where
  | scalar (value : Json)
  | openList
  | closeList
  | openObject
  | key (name : String)
  | closeObject
deriving Inhabited, Repr

/-- How a stream of events ends. -/
inductive Ending where
  | complete
  | broken
deriving DecidableEq, Repr

/-- What may stand at a place of the text. -/
inductive Expected where
  | value
  | itemOrClose
  | keyOrClose
  | key
  | more
  | nothing
deriving DecidableEq, Repr

/-- Lists and objects inside each other go at most this deep. -/
def depthLimit : Nat := 127

/-- White space between the parts of a JSON text. -/
def isGap (c : Char) : Bool := c = ' ' || c = '\n' || c = '\r' || c = '\t'

def fourDigits : List Char → Option (Nat × List Char)
  | a :: b :: c :: d :: rest => (Hex.number? [a, b, c, d]).map fun n => (n, rest)
  | _ => none

/-- The character of an escape after the backslash. A pair of surrogates is one character; a lone one
is refused. -/
def escaped : List Char → Option (Char × List Char)
  | '"' :: rest => some ('"', rest)
  | '\\' :: rest => some ('\\', rest)
  | '/' :: rest => some ('/', rest)
  | 'b' :: rest => some ('\x08', rest)
  | 'f' :: rest => some ('\x0c', rest)
  | 'n' :: rest => some ('\n', rest)
  | 'r' :: rest => some ('\r', rest)
  | 't' :: rest => some ('\t', rest)
  | 'u' :: rest => do
    let (n, rest) ← fourDigits rest
    if 0xD800 ≤ n ∧ n < 0xDC00 then
      match rest with
      | '\\' :: 'u' :: rest => do
        let (m, rest) ← fourDigits rest
        if 0xDC00 ≤ m ∧ m < 0xE000 then
          some (Char.ofNat (0x10000 + (n - 0xD800) * 0x400 + (m - 0xDC00)), rest)
        else none
      | _ => none
    else if 0xDC00 ≤ n ∧ n < 0xE000 then none
    else some (Char.ofNat n, rest)
  | _ => none

/-- The characters of a text up to its closing quotation mark, and the rest. -/
def textBody : Nat → List Char → List Char → Option (String × List Char)
  | 0, _, _ => none
  | fuel + 1, done, cs =>
    match cs with
    | [] => none
    | '"' :: rest => some (String.ofList done.reverse, rest)
    | '\\' :: rest =>
      match escaped rest with
      | some (c, rest) => textBody fuel (c :: done) rest
      | none => none
    | c :: rest => if c.toNat < 32 then none else textBody fuel (c :: done) rest

/-- The digits at the start of a text, at least one. -/
def someDigits (cs : List Char) : Option (List Char × List Char) :=
  match cs.takeWhile Char.isDigit with
  | [] => none
  | ds => some (ds, cs.dropWhile Char.isDigit)

/-- The value of an exponent with its mark and sign. -/
def exponentValue : List Char → Int
  | _ :: '+' :: ds => (Numeral.digits? ds).getD 0
  | _ :: '-' :: ds => -((Numeral.digits? ds).getD 0)
  | _ :: ds => (Numeral.digits? ds).getD 0
  | [] => 0

/-- Whether the number `n * 10 ^ power` rounds to no real of 64 bits. Those with less than 309 digits
before the point do, and those with more do not. -/
def isBeyondReals (n : Nat) (power : Int) : Bool :=
  let size := ((toString n).length : Int) + power
  n ≠ 0 && 309 ≤ size &&
    (309 < size ||
      ((1 <<< 1024) - (1 <<< 970)) * Nat.pow 10 (-power).toNat ≤ n * Nat.pow 10 power.toNat)

def number (cs : List Char) : Option (Json × List Char) := do
  let (sign, cs) := match cs with
    | '-' :: rest => (['-'], rest)
    | _ => ([], cs)
  let (whole, cs) ← someDigits cs
  if 1 < whole.length ∧ whole.head? = some '0' then none
  else
    let (fraction, cs) ← match cs with
      | '.' :: rest => (someDigits rest).map fun (ds, rest) => ('.' :: ds, rest)
      | _ => some ([], cs)
    let (exponent, cs) ← match cs with
      | e :: rest =>
        if e = 'e' ∨ e = 'E' then
          match rest with
          | '+' :: rest => (someDigits rest).map fun (ds, rest) => (e :: '+' :: ds, rest)
          | '-' :: rest => (someDigits rest).map fun (ds, rest) => (e :: '-' :: ds, rest)
          | _ => (someDigits rest).map fun (ds, rest) => (e :: ds, rest)
        else some ([], cs)
      | [] => some ([], cs)
    let written := String.ofList (sign ++ whole ++ fraction ++ exponent)
    let value ← Numeral.digits? whole
    let signed : Int := if sign.isEmpty then value else -value
    let all ← Numeral.digits? (whole ++ fraction.drop 1)
    if fraction.isEmpty && exponent.isEmpty && (sign.isEmpty || 0 < value) &&
        -(1 <<< 63 : Nat) ≤ signed && signed < (1 <<< 64 : Nat) then some (.int signed, cs)
    else if isBeyondReals all (exponentValue exponent - (fraction.drop 1).length) then none
    else some (.real written, cs)

/-- A value that is no list or object, at the start of a text. -/
def scalarAt (cs : List Char) : Option (Json × List Char) :=
  match cs with
  | 'n' :: 'u' :: 'l' :: 'l' :: rest => some (.null, rest)
  | 't' :: 'r' :: 'u' :: 'e' :: rest => some (.bool true, rest)
  | 'f' :: 'a' :: 'l' :: 's' :: 'e' :: rest => some (.bool false, rest)
  | '"' :: rest => (textBody (rest.length + 1) [] rest).map fun (s, rest) => (.text s, rest)
  | _ => number cs

/-- What is expected after a value, given the containers around it. -/
def afterValue (stack : List Bool) : Expected := if stack.isEmpty then .nothing else .more

/-- A value's first event, what is around and expected after it, and the rest of the text. Objects are
`true` on the stack, lists are `false`. -/
def valueAt (stack : List Bool) (cs : List Char) : Option (Event × List Bool × Expected × List Char) :=
  match cs with
  | '[' :: rest =>
    if stack.length < depthLimit then some (.openList, false :: stack, .itemOrClose, rest) else none
  | '\x7b' :: rest =>
    if stack.length < depthLimit then some (.openObject, true :: stack, .keyOrClose, rest) else none
  | _ => (scalarAt cs).map fun (value, rest) => (.scalar value, stack, afterValue stack, rest)

/-- A member's name at the start of a text. The colon behind it is looked for only when the value is
wanted, so a name without one is still an event. -/
def keyAt (cs : List Char) : Option (String × List Char) :=
  match cs with
  | '"' :: rest => textBody (rest.length + 1) [] rest
  | _ => none

def eventsFrom : Nat → List Bool → Expected → List Char → List Event × Ending
  | 0, _, _, _ => ([], .broken)
  | fuel + 1, stack, expected, cs =>
    let cs := cs.dropWhile isGap
    let emit := fun (step : Option (Event × List Bool × Expected × List Char)) =>
      match step with
      | none => ([], Ending.broken)
      | some (event, stack, expected, rest) =>
        let (events, ending) := eventsFrom fuel stack expected rest
        (event :: events, ending)
    let close := fun (rest : List Char) =>
      match stack with
      | true :: below => emit (some (.closeObject, below, afterValue below, rest))
      | false :: below => emit (some (.closeList, below, afterValue below, rest))
      | [] => ([], Ending.broken)
    let name := fun (_ : Unit) =>
      emit ((keyAt cs).map fun (s, rest) => (.key s, stack, .value, rest))
    match expected with
    | .nothing => ([], if cs.isEmpty then .complete else .broken)
    | .value =>
      -- After a name the colon comes first.
      match stack, cs with
      | true :: _, ':' :: rest => emit (valueAt stack (rest.dropWhile isGap))
      | true :: _, _ => ([], .broken)
      | _, _ => emit (valueAt stack cs)
    | .itemOrClose =>
      match cs with
      | ']' :: rest => close rest
      | _ => emit (valueAt stack cs)
    | .keyOrClose =>
      match cs with
      | '\x7d' :: rest => close rest
      | _ => name ()
    | .key => name ()
    | .more =>
      match stack, cs with
      | true :: _, ',' :: rest => eventsFrom fuel stack .key rest
      | false :: _, ',' :: rest => eventsFrom fuel stack .value rest
      | true :: _, '\x7d' :: rest => close rest
      | false :: _, ']' :: rest => close rest
      | _, _ => ([], .broken)

/-- The events of a text. Each step takes at least one character, so twice the length is enough. -/
def events (text : String) : List Event × Ending :=
  let cs := text.toList
  eventsFrom (2 * cs.length + 2) [] .value cs

/-- A container that is being read, its parts in reverse. -/
inductive Open where
  | list (items : List Json)
  | object (members : List (String × Json)) (name : String)

/-- A value put into the innermost open container, or the finished value. -/
def place (value : Json) : List Open → List Open × Option Json
  | [] => ([], some value)
  | .list items :: outer => (.list (value :: items) :: outer, none)
  | .object members name :: outer => (.object ((name, value) :: members) name :: outer, none)

/-- The value that a whole stream of events describes. -/
def assemble : List Open → List Event → Option Json
  | _, [] => none
  | stack, event :: rest =>
    let finish := fun (placed : List Open × Option Json) =>
      match placed with
      | (_, some value) => some value
      | (stack, none) => assemble stack rest
    match event, stack with
    | .scalar value, stack => finish (place value stack)
    | .openList, stack => assemble (.list [] :: stack) rest
    | .openObject, stack => assemble (.object [] "" :: stack) rest
    | .key name, .object members _ :: outer => assemble (.object members name :: outer) rest
    | .closeList, .list items :: outer => finish (place (.list items.reverse) outer)
    | .closeObject, .object members _ :: outer => finish (place (ofMembers members.reverse) outer)
    | _, _ => none

def read? (text : String) : Option Json :=
  match events text with
  | (events, .complete) => assemble [] events
  | (_, .broken) => none

end StakeIndex.Json
