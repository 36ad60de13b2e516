import RouterCli.Command.Basic
import RouterCli.Text.Blank

/-!
  RouterCli.Registry

  The nodes of a command line and the commands installed at each. A registry is
  built by installations, each of which either succeeds or leaves it as it was;
  a series of them stops at the first that fails and keeps what came before.
-/

namespace RouterCli

-- ============================================================================
-- Nodes
-- ============================================================================

/-- The program a registry belongs to. -/
structure AppInfo where
  /-- The program's name, shown in prompts where the host has none. -/
  name : String
  version : String
  copyright : Option String := none
deriving DecidableEq, Repr, Inhabited

/-- A node as an application writes it down. -/
structure NodeDef where
  id : NodeId
  /-- The prompt; `%s` stands for the host's name. -/
  prompt : String
  /-- Its name, where it is not taken from the prompt. -/
  name : Option String := none
  parent : Option NodeId := none
  /-- It has a part in configuration dumps. -/
  writesConfig : Bool := false
  /-- It stands outside of the configuration. -/
  isTopLevel : Bool := false
deriving DecidableEq, Repr

/-- The name in a prompt: its ASCII letters, digits, hyphens and underscores. A
    percent sign takes the character behind it along. -/
def nameInPrompt : List Char → List Char
  | [] => []
  | '%' :: _ :: rest => nameInPrompt rest
  | c :: rest =>
    if c.isAlphanum || c == '-' || c == '_' then c :: nameInPrompt rest
    else nameInPrompt rest

/-- A node's name taken from its prompt. -/
def nodeName (prompt : String) : String :=
  String.ofList (nameInPrompt prompt.toList)

/-- An installed node. -/
structure Node where
  definition : NodeDef
  /-- Its commands, in the order of installation until sorted. -/
  elements : List Element := []
deriving DecidableEq, Repr

namespace Node

/-- The node's number. -/
def id (n : Node) : NodeId :=
  n.definition.id

/-- The node's name. -/
def name (n : Node) : String :=
  n.definition.name.getD (nodeName n.definition.prompt)

/-- The commands by pattern, each with its last alternatives in order. -/
def sort (n : Node) : Node :=
  { n with
    elements := (n.elements.mergeSort fun a b => decide (a.pattern ≤ b.pattern)).map
      (·.sortLast) }

end Node

-- ============================================================================
-- Errors
-- ============================================================================

/-- Why an installation failed. -/
inductive RegistryError where
  | unknownNode (node : NodeId)
  | duplicateNode (node : NodeId)
  | unknownParent (node parent : NodeId)
  | duplicateCommand (node : NodeId) (pattern : String)
  | malformedPattern (pattern : String) (defect : PatternDefect)
deriving DecidableEq, Repr

namespace RegistryError

/-- The words for an error. -/
def message : RegistryError → String
  | unknownNode node => s!"node {node} is not installed"
  | duplicateNode node => s!"node {node} is already installed"
  | unknownParent node parent => s!"parent {parent} of node {node} is not installed"
  | duplicateCommand node pattern =>
    "command '" ++ pattern ++ s!"' is already installed at node {node}"
  | malformedPattern pattern defect => "malformed pattern '" ++ pattern ++ "': " ++ defect.message

end RegistryError

-- ============================================================================
-- The registry
-- ============================================================================

/-- All nodes, by number, with their commands. -/
structure Registry where
  app : AppInfo
  /-- The nodes in the order of their numbers. -/
  nodes : List Node := []
deriving DecidableEq, Repr

namespace Registry

/-- The node of a number. -/
def node? (r : Registry) (id : NodeId) : Option Node :=
  r.nodes.find? (·.id == id)

/-- The commands of a node; one that is not installed has none. -/
def elements (r : Registry) (id : NodeId) : List Element :=
  (r.node? id).elim [] (·.elements)

/-- The node above, as far as one was named. -/
def parentOf (r : Registry) (id : NodeId) : Option NodeId :=
  (r.node? id).bind (·.definition.parent)

/-- The patterns that a node shows. -/
def list (r : Registry) (id : NodeId) : List String :=
  ((r.elements id).filter (·.isVisible)).map (·.pattern)

/-- The prompt of a node, with the host's name or else the program's in it. -/
def prompt (r : Registry) (id : NodeId) (hostname : Option String) : String :=
  match r.node? id with
  | none => ""
  | some node =>
    String.ofList
      (Text.fillTemplate (hostname.getD r.app.name).toList node.definition.prompt.toList)

/-- Put a node in the place its number gives it. -/
def insertNode (node : Node) : List Node → List Node
  | [] => [node]
  | n :: rest =>
    if node.id.value < n.id.value then node :: n :: rest else n :: insertNode node rest

/-- Install a node. Its parent must be there before it, so that the way up
    never turns back. -/
def installNode (r : Registry) (definition : NodeDef) : Except RegistryError Registry :=
  if (r.node? definition.id).isSome then .error (.duplicateNode definition.id)
  else
    match definition.parent.filter fun p => (r.node? p).isNone with
    | some parent => .error (.unknownParent definition.id parent)
    | none => .ok { r with nodes := insertNode { definition } r.nodes }

/-- Install a command at a node. -/
def installCommand (r : Registry) (id : NodeId) (spec : CommandSpec) :
    Except RegistryError Registry :=
  match r.node? id with
  | none => .error (.unknownNode id)
  | some node =>
    if node.elements.any (·.pattern == spec.pattern) then
      .error (.duplicateCommand id spec.pattern)
    else
      match Element.ofSpec spec with
      | .error defect => .error (.malformedPattern spec.pattern defect)
      | .ok e =>
        .ok { r with
          nodes := r.nodes.map fun n =>
            if n.id == id then { n with elements := n.elements ++ [e] } else n }

/-- Sort every node. -/
def sort (r : Registry) : Registry :=
  { r with nodes := r.nodes.map (·.sort) }

-- ============================================================================
-- Series of installations
-- ============================================================================

/-- One installation. -/
inductive Installation where
  | node (definition : NodeDef)
  | command (node : NodeId) (spec : CommandSpec)
deriving DecidableEq, Repr

/-- Carry out one installation. -/
def install (r : Registry) : Installation → Except RegistryError Registry
  | .node definition => r.installNode definition
  | .command node spec => r.installCommand node spec

/-- Carry out installations in order up to the first that fails. -/
def installAll (r : Registry) : List Installation → Registry × Except RegistryError Unit
  | [] => (r, .ok ())
  | step :: rest =>
    match r.install step with
    | .error e => (r, .error e)
    | .ok r => r.installAll rest

/-- A command at the VIEW node and at the ENABLE node. -/
def atViewAndEnable (spec : CommandSpec) : List Installation :=
  [.command .view spec, .command .enable spec]

end Registry

end RouterCli
