import StakeIndex.Text.Blank

/-!
Media types as they stand in the headers of requests: a kind, a format and parameters. The parameters
must be well formed, but nothing here depends on what they say.
-/
namespace StakeIndex

/-- The form of a body. What follows the last plus sign of a format is its suffix, and the format is
what stands before it. -/
structure MediaType where
  kind : String
  format : String
  suffix : Option String
deriving DecidableEq, Repr

namespace MediaType

def isNameChar (c : Char) : Bool := c.isAlphanum || "!#$%&'*+-.^_`|~".toList.contains c

/-- Whether a text holds parameters only: names with values, which may be quoted, between semicolons. -/
def areParameters : Nat → List Char → Bool
  | 0, _ => false
  | fuel + 1, cs =>
    match cs.dropWhile (fun c => c = ' ' || c = ';') with
    | [] => true
    | c :: cs =>
      isNameChar c &&
      match cs.dropWhile isNameChar with
      | '=' :: '"' :: rest =>
        match rest.dropWhile (· ≠ '"') with
        | _ :: after => (after.head?.all fun c => c = ' ' || c = ';') && areParameters fuel after
        | [] => false
      | '=' :: rest =>
        let after := rest.dropWhile isNameChar
        (after.isEmpty || (after.head? == some ';' && after.length < rest.length)) &&
          areParameters fuel after
      | _ => false

/-- The format and the suffix in the name behind the slash. A plus sign at its start does not count. -/
def splitSuffix (name : List Char) : List Char × Option (List Char) :=
  match (name.reverse.dropWhile (· ≠ '+')).drop 1 with
  | [] => (name, none)
  | front => (front.reverse, some (name.drop (front.length + 1)))

/-- A media type from the text of a header. Upper and lower case are the same. -/
def read? (text : String) : Option MediaType :=
  let cs := text.toList.map Char.toLower
  match cs.takeWhile isNameChar, cs.dropWhile isNameChar with
  | _ :: _, '/' :: rest =>
    let name := rest.takeWhile isNameChar
    let after := rest.dropWhile isNameChar
    if name.isEmpty || !(after.head?.all fun c => c = ' ' || c = ';') ||
        !areParameters (after.length + 1) after then none
    else
      let (format, suffix) := splitSuffix name
      some ⟨String.ofList (cs.takeWhile isNameChar), String.ofList format, suffix.map String.ofList⟩
  | _, _ => none

/-- Whether the body is JSON: `application/json`, or a format of `application` built on JSON. -/
def isJson (m : MediaType) : Bool :=
  m.kind == "application" && (m.format == "json" || m.suffix == some "json")

end MediaType
end StakeIndex
