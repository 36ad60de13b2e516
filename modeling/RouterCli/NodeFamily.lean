import RouterCli.Node

/-!
  RouterCli.NodeFamily

  The nodes of an application as an enumeration: each member has an identifier,
  from which its name is made, and an offset from the first number that
  applications may use.
-/

namespace RouterCli

/-- A name in kebab case: capitals become small letters with a hyphen in front,
    except at the start, and an underscore becomes a hyphen. -/
def kebabCase (identifier : String) : String :=
  let tail := fun c =>
    if c.isUpper then ['-', c.toLower] else if c = '_' then ['-'] else [c]
  match identifier.toList with
  | [] => ""
  | c :: rest =>
    let first := if c.isUpper then [c.toLower] else if c = '_' then ['-'] else [c]
    String.ofList (first ++ rest.flatMap tail)

/-- The application node at an offset. -/
def NodeId.application (offset : Nat) : NodeId :=
  ⟨NodeId.applicationBase.value + offset⟩

/-- One member of a family of nodes. -/
structure NodeMember where
  /-- What the member is called in the application. -/
  identifier : String
  offset : Nat
deriving DecidableEq, Repr

namespace NodeMember

/-- The name of the node. -/
def name (m : NodeMember) : String :=
  kebabCase m.identifier

/-- The number of the node. -/
def nodeId (m : NodeMember) : NodeId :=
  .application m.offset

end NodeMember

/-- The nodes of an application. -/
abbrev NodeFamily := List NodeMember

/-- The first member with a node's number. -/
def NodeFamily.member? (family : NodeFamily) (id : NodeId) : Option NodeMember :=
  family.find? (·.nodeId == id)

end RouterCli
