import StakeIndex.Contract.Registry
import StakeIndex.Json.Event

/-!
Interfaces in files: a directory holds one directory for each version, and the files in it whose name
speaks of interfaces describe contracts under the names of their roles.
-/
namespace StakeIndex

/-- Files and directories under their names. -/
inductive FileTree where
  | file (content : String)
  | directory (entries : List (String × FileTree))
deriving Inhabited, Repr

namespace FileTree

/-- The entries of a directory in the order of their names. -/
def sortedEntries (entries : List (String × FileTree)) : List (String × FileTree) :=
  entries.mergeSort fun a b => a.1 ≤ b.1

def child? (tree : FileTree) (name : String) : Option FileTree :=
  match tree with
  | file _ => none
  | directory entries => (entries.find? fun e => e.1 == name).map (·.2)

def descend? (tree : FileTree) (path : List String) : Option FileTree :=
  path.foldlM child? tree

/-- An entry of a directory replaced, or added at the end. -/
def setEntry (name : String) (tree : FileTree) : List (String × FileTree) → List (String × FileTree)
  | [] => [(name, tree)]
  | (n, t) :: rest => if n = name then (n, tree) :: rest else (n, t) :: setEntry name tree rest

/-- The tree with another one put at a path; directories on the way are made. -/
def place (tree : FileTree) (path : List String) (leaf : FileTree) : FileTree :=
  match path with
  | [] =>
    match leaf, tree with
    | directory [], directory entries => directory entries
    | _, _ => leaf
  | name :: rest =>
    let entries := match tree with
      | directory entries => entries
      | file _ => []
    let inner := ((directory entries).child? name).getD (directory [])
    directory (setEntry name (inner.place rest leaf) entries)

end FileTree

namespace Binding

/-- The name in front of an ending. -/
def stem? (ending name : String) : Option String :=
  let cs := name.toList
  let es := ending.toList
  if es.reverse.isPrefixOf cs.reverse then some (String.ofList (cs.take (cs.length - es.length)))
  else none

/-- The contract that a member of a file describes, if it is a known one with an address. -/
def ofMember? (path : String) (version : Version) (members : List (String × Json))
    (member : String × Json) : Except Failure (Option Binding) :=
  match (stem? "_abi" member.1).bind fun stem => (Named.read? stem).map ((stem, ·)) with
  | none => .ok none
  | some (stem, name) =>
    let addressKey := stem ++ "_address"
    match Json.find addressKey members with
    | none => .ok none
    | some (.text s) =>
      match Address.read? s with
      | none => .error (.config ("invalid " ++ addressKey ++ " in " ++ path ++ ": not an address"))
      | some address =>
        match Abi.Interface.read? member.2 with
        | none => .error (.config ("invalid " ++ member.1 ++ " in " ++ path ++ ": not an interface"))
        | some interface => .ok (some { name, version, address, interface })
    | some _ => .error (.config (addressKey ++ " in " ++ path ++ " is not a string"))

/-- The contracts that a file describes, in the order of their names. -/
def ofFile (path : String) (version : Version) (content : String) :
    Except Failure (List Binding) :=
  match Json.read? content with
  | none => .error (.config ("invalid JSON in " ++ path ++ ": not JSON text"))
  | some (.object members) =>
    return (← members.mapM (ofMember? path version members)).filterMap id
  | some _ => .error (.config (path ++ " is not a JSON object"))

/-- Whether a file's name speaks of interfaces other than the token's. -/
def isInterfaceFile (name : String) : Bool :=
  occursIn "abi".toList name.toList && !occursIn "token".toList name.toList

def ofVersion (path : String) (version : Version) (entries : List (String × FileTree)) :
    Except Failure (List Binding) := do
  let found ← (FileTree.sortedEntries entries).mapM fun (name, tree) =>
    match tree with
    | .file content =>
      if isInterfaceFile name then ofFile (path ++ "/" ++ name) version content else .ok []
    | .directory _ => .ok []
  return found.flatten

end Binding

def Registry.ofDirectory (path : String) (tree : Option FileTree) : Except Failure Registry :=
  match tree with
  | some (.directory entries) => do
    let found ← (FileTree.sortedEntries entries).mapM fun (name, tree) =>
      match tree with
      | .file _ => .ok []
      | .directory inner => Binding.ofVersion (path ++ "/" ++ name) (.read name) inner
    return .ofBindings found.flatten
  | some (.file _) =>
    .error (.config ("cannot read " ++ path ++ ": Not a directory (os error 20)"))
  | none =>
    .error (.config ("cannot read " ++ path ++ ": No such file or directory (os error 2)"))

end StakeIndex
