import StakeIndex.Text.Blank

/-!
Files that set variables of the environment, one in a line. A value may be quoted, strongly or weakly,
may go on over several lines inside quotes, and may name other variables. What the environment sets
already is kept. A line that makes no sense ends the reading; the lines before it count.
-/
namespace StakeIndex.EnvironmentFile

/-- How far a line is read: what an end of line means depends on it. -/
inductive LineState where
  | complete
  | blank
  | escape
  | strong
  | strongEscape
  | weak
  | weakEscape
  | comment
deriving DecidableEq, Repr

/-- The state after a character that is not in quotes. -/
def LineState.open (c : Char) : LineState :=
  if c = '\\' then .escape
  else if c = '"' then .weak
  else if c = '\'' then .strong
  else .complete

def LineState.step (s : LineState) (c : Char) : LineState :=
  match s with
  | .blank => if c = '#' then .comment else .open c
  | .escape => .complete
  | .complete => if isBlank c && c ≠ '\n' && c ≠ '\r' then .blank else .open c
  | .weak => if c = '\\' then .weakEscape else if c = '"' then .complete else .weak
  | .weakEscape => .weak
  | .strong => if c = '\\' then .strongEscape else if c = '\'' then .complete else .strong
  | .strongEscape => .strong
  | .comment => .comment

/-- The characters of a line up to a comment, and the state at its end. -/
def readLine (s : LineState) : List Char → List Char × LineState
  | [] => ([], s)
  | c :: rest =>
    match s.step c with
    | .comment => ([], .comment)
    | next =>
      let (kept, final) := readLine next rest
      (c :: kept, final)

/-- The lines of a text, each with the line break that ends it. -/
def physicalLines (cs : List Char) : List (List Char) :=
  let pieces := splitAtChar '\n' cs
  let ended := pieces.dropLast.map (· ++ ['\n'])
  match pieces.getLast? with
  | some [] => ended
  | some last => ended ++ [last]
  | none => ended

def withoutBreak (cs : List Char) : List Char :=
  match cs.reverse with
  | '\n' :: '\r' :: rest => rest.reverse
  | '\n' :: rest => rest.reverse
  | _ => cs

/-- The lines that belong together, up to the first one that never ends; none stands for that. -/
def logicalLines (begun : List Char) (s : LineState) : List (List Char) → List (Option (List Char))
  | [] => if s = .complete then [] else [none]
  | line :: rest =>
    if (dropBlanks (begun ++ line)).head? = some '#' then some [] :: logicalLines [] .complete rest
    else
      let (kept, final) := readLine s line
      let begun := begun ++ kept
      match final with
      | .complete => some (withoutBreak begun) :: logicalLines [] .complete rest
      | .comment => some begun :: logicalLines [] .complete rest
      | s => logicalLines begun s rest

/-- A value that is being read: its characters so far in reverse, what is open, and the name of another
variable that has begun, with whether it stands in braces. -/
structure ValueState where
  output : List Char := []
  strong : Bool := false
  weak : Bool := false
  escaped : Bool := false
  ended : Bool := false
  name : Option (Bool × List Char) := none

namespace ValueState

variable (find : String → Option String)

def push (s : ValueState) (c : Char) : ValueState := { s with output := c :: s.output }

/-- Puts the value of the variable named so far in its place. -/
def substitute (s : ValueState) : ValueState :=
  match s.name with
  | none => s
  | some (_, name) =>
    let value := (find (String.ofList name.reverse)).getD ""
    { s with output := value.toList.reverse ++ s.output, name := none }

/-- Whether a character may stand in a name without braces. -/
def isNamePart (c : Char) : Bool := c.isAlphanum

def stepName (s : ValueState) (braced : Bool) (name : List Char) (c : Char) : ValueState :=
  if isNamePart c then { s with name := some (braced, c :: name) }
  else if braced then
    if c = '}' then s.substitute find else { s with name := some (true, c :: name) }
  else if c = '{' && name.isEmpty then { s with name := some (true, []) }
  else
    let s := s.substitute find
    if c = '$' then { s with name := some (false, []) } else s.push c

def stepEscaped (s : ValueState) (c : Char) : Option ValueState :=
  let s := { s with escaped := false }
  if c = 'n' then some (s.push '\n')
  else if c = '\\' || c = '\'' || c = '"' || c = '$' || c = ' ' then some (s.push c)
  else none

/-- One more character outside of names and strong quotes. -/
def stepPlain (s : ValueState) (c : Char) : ValueState :=
  if c = '$' then { s with name := some (false, []) }
  else if c = '\\' then { s with escaped := true }
  else if s.weak then (if c = '"' then { s with weak := false } else s.push c)
  else if c = '\'' then { s with strong := true }
  else if c = '"' then { s with weak := true }
  else if c = ' ' || c = '\t' then { s with ended := true }
  else s.push c

/-- Reads the characters of a value. Behind its end only blanks and a comment may follow. -/
def read (s : ValueState) : List Char → Option ValueState
  | [] => some s
  | c :: rest =>
    if s.ended then
      if c = ' ' || c = '\t' then read s rest else if c = '#' then some s else none
    else if s.escaped then do read (← s.stepEscaped c) rest
    else if s.strong then
      read (if c = '\'' then { s with strong := false } else s.push c) rest
    else match s.name with
      | some (braced, name) => read (s.stepName find braced name c) rest
      | none => read (s.stepPlain c) rest

/-- The value of some characters. Quotes and braces must be closed. -/
def value? (cs : List Char) : Option String := do
  let s ← read find {} cs
  let openBrace := match s.name with
    | some (true, _) => true
    | _ => false
  if openBrace || s.strong || s.weak then none
  else some (String.ofList (s.substitute find).output.reverse)

end ValueState

/-- A name at the start of a line, and the rest. -/
def key? (cs : List Char) : Option (String × List Char) :=
  match cs with
  | c :: _ =>
    if c.isAlpha || c = '_' then
      let name := cs.takeWhile fun c => c.isAlphanum || c = '_' || c = '.'
      some (String.ofList name, dropBlanks (cs.drop name.length))
    else none
  | [] => none

def equals? : List Char → Option (List Char)
  | '=' :: rest => some (dropBlanks rest)
  | _ => none

/-- The name that a line sets and the text of its value. The word `export` in front is passed over. -/
def assignment? (cs : List Char) : Option (String × List Char) := do
  let (name, rest) ← key? cs
  match equals? rest with
  | some value => return (name, value)
  | none =>
    if name = "export" then
      let (name, rest) ← key? rest
      return (name, ← equals? rest)
    else none

/-- Reads lines into variables; those read so far follow the order in which they were set. -/
def readLines (env : String → Option String) (vars : List (String × String)) :
    List (Option (List Char)) → List (String × String)
  | [] => vars
  | none :: _ => vars
  | some line :: rest =>
    let cs := dropBlanks line
    if cs.isEmpty || cs.head? = some '#' then readLines env vars rest
    else match assignment? cs with
      | none => vars
      | some (name, text) =>
        let find := fun name => (env name).or (vars.lookup name)
        let value := if text.isEmpty || text.head? = some '#' then some "" else ValueState.value? find text
        match value with
        | none => vars
        | some value => readLines env (vars ++ [(name, value)]) rest

def assignments (env : String → Option String) (file : String) : List (String × String) :=
  let cs := match file.toList with
    | '\uFEFF' :: rest => rest
    | cs => cs
  readLines env [] (logicalLines [] .complete (physicalLines cs))

/-- The environment with what a file adds to it: of two lines for one variable the first counts. -/
def extend (env : String → Option String) (file : String) : String → Option String :=
  let vars := assignments env file
  fun name => (env name).or (vars.lookup name)

/-- The names that a file may set or use. -/
def names (file : String) : List String :=
  ((splitAtChar ' ' (file.toList.map fun c => if c.isAlphanum || c = '_' then c else ' ')).filter
    fun name => !name.isEmpty).map String.ofList

end StakeIndex.EnvironmentFile
