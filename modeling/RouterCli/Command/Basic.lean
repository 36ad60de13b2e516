import RouterCli.Command.Builtin
import RouterCli.Node
import RouterCli.Pattern.Levels

/-!
  RouterCli.Command.Basic

  A command as an application writes it down, and as a node holds it: with its
  pattern compiled to levels.
-/

namespace RouterCli

/-- Whether a command is shown. -/
inductive Visibility where
  | normal
  /-- Accepted still, no longer shown. -/
  | deprecated
  /-- Accepted, never shown. -/
  | hidden
deriving DecidableEq, Repr

/-- Who carries a command out. -/
inductive Action where
  | builtin (command : Builtin)
  /-- The application, under the key it chose. -/
  | application (key : String)
deriving DecidableEq, Repr

/-- A command before it is installed. -/
structure CommandSpec where
  action : Action
  pattern : String
  /-- One line of help for each token. -/
  doc : String
  visibility : Visibility := .normal
  /-- The daemons it belongs to; zero for this one. -/
  daemon : Nat := 0
deriving DecidableEq, Repr

namespace CommandSpec

/-- The key the command is listed under. -/
def id (spec : CommandSpec) : String :=
  match spec.action with
  | .builtin command => command.key
  | .application key => key

end CommandSpec

/-- An installed command: its text and its levels. -/
structure Element where
  spec : CommandSpec
  levels : List Level
deriving DecidableEq, Repr

namespace Element

/-- Compile a command. -/
def ofSpec (spec : CommandSpec) : Except PatternDefect Element :=
  (compile spec.pattern spec.doc).map fun levels => ⟨spec, levels⟩

/-- The pattern text. -/
def pattern (e : Element) : String :=
  e.spec.pattern

/-- The alternatives for the word at `index`, if the pattern is that long. -/
def level? (e : Element) (index : Nat) : Option Level :=
  e.levels[index]?

/-- How many words must be typed. -/
def mandatory (e : Element) : Nat :=
  RouterCli.mandatory e.levels

/-- Shown in help and lists. -/
def isVisible (e : Element) : Bool :=
  e.spec.visibility == .normal

/-- The element with its last alternatives in order. -/
def sortLast (e : Element) : Element :=
  { e with levels := sortLastLevel e.levels }

end Element

end RouterCli
