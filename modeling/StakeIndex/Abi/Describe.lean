import StakeIndex.Abi.Schema

/-!
Describing an interface in JSON, as it is read from files.
-/
namespace StakeIndex.Abi

def Param.object (name type : String) (components : List Json) (more : List (String × Json)) : Json :=
  .ofMembers ([("name", .text name), ("type", .text type)] ++
    (if components.isEmpty then [] else [("components", .list components)]) ++ more)

mutual

/-- The type of an input or output: its name and its components. Arrays of compound values have the
brackets behind the name. -/
def Kind.described : Kind → String × List Json
  | .tuple parts => ("tuple", Kind.describedAll parts)
  | .array item =>
    let (name, components) := Kind.described item
    (name ++ "[]", components)
  | .fixedArray item size =>
    let (name, components) := Kind.described item
    (name ++ "[" ++ toString size ++ "]", components)
  | kind => (kind.name, [])

/-- The components of a compound value, which have no names. -/
def Kind.describedAll : List Kind → List Json
  | [] => []
  | kind :: rest =>
    let (type, components) := Kind.described kind
    Param.object "" type components [] :: Kind.describedAll rest

end

def Param.json (ofEvent : Bool) (p : Param) : Json :=
  let (type, components) := p.kind.described
  Param.object p.name type components (if ofEvent then [("indexed", .bool p.indexed)] else [])

def Item.json : Item → Json
  | .event e => .ofMembers [
      ("type", .text "event"), ("name", .text e.name),
      ("inputs", .list (e.inputs.map (Param.json true))), ("anonymous", .bool e.anonymous)]
  | .function f => .ofMembers [
      ("type", .text "function"), ("name", .text f.name),
      ("inputs", .list (f.inputs.map (Param.json false))),
      ("outputs", .list (f.outputs.map (Param.json false))), ("stateMutability", .text "view")]
  | .other => .ofMembers [("type", .text "receive"), ("stateMutability", .text "payable")]

def Interface.json (i : Interface) : Json := .list (i.items.map Item.json)

end StakeIndex.Abi
