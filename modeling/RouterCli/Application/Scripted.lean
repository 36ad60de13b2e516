import RouterCli.Application
import RouterCli.Text.Blank

/-!
  RouterCli.Application.Scripted

  An application given as data: each of its commands is a list of actions. It
  serves to try out a command line before there is a real application.
-/

namespace RouterCli

/-- What a scripted command may do. -/
inductive ScriptAction where
  | setNode (node : NodeId)
  /-- Move to a node with the arguments as its object. -/
  | enter (node : NodeId)
  | print (text : String)
  /-- Print the key of the command and its arguments. -/
  | printArguments
  | push (node : NodeId) (indent : Option String)
  | pop
  | close
  /-- Make the arguments the configuration of a node. -/
  | setConfig (node : NodeId)
  | finish (status : Status)
  | fail (error : CommandError)
deriving DecidableEq, Repr

/-- What a scripted application does. -/
structure Script where
  /-- The actions of each command, by key. -/
  commands : List (String × List ScriptAction) := []
  above : List (NodeId × NodeId) := []
  /-- Which nodes belong to the configuration, as far as it is said. -/
  configNodes : List (NodeId × Bool) := []
  isConsistent : Bool := true
deriving DecidableEq, Repr

namespace Script

/-- The configuration of each node that has one. -/
abbrev State := List (NodeId × String)

/-- Run actions in order, up to one that ends the command. -/
def run (id : String) (args : List String) (app : State) (s : Session String) :
    List ScriptAction → Outcome × State × Session String
  | [] => (.ok .success, app, s)
  | action :: rest =>
    match action with
    | .setNode node => run id args app (s.setNode node) rest
    | .enter node => run id args app (s.enter node (Text.unwords args)) rest
    | .print text => run id args app (s.print text) rest
    | .printArguments => run id args app (s.printLine (id ++ ": " ++ "|".intercalate args)) rest
    | .push node indent =>
      run id args app (s.pushParent { node, context := none, indent }) rest
    | .pop => run id args app s.popParent rest
    | .close => run id args app s.close rest
    | .setConfig node =>
      run id args ((node, Text.unwords args ++ "\n") :: app.filter (·.1 != node)) s rest
    | .finish status => (.ok status, app, s)
    | .fail error => (.error error, app, s)

/-- The application of a script. -/
def application (script : Script) : Application State String where
  execute spec args app s := run spec.id args app s ((script.commands.lookup spec.id).getD [])
  configAt app node := app.lookup node
  above _ s := script.above.lookup s.node
  isConfigNode _ node := script.configNodes.lookup node
  isConsistent _ _ := script.isConsistent

end Script

end RouterCli
