import RouterCli.Console.Builtins
import RouterCli.Matching.Help

/-!
  RouterCli.Console.Execute

  Running a line: its words are resolved at the session's node, and the command
  they mean is carried out by the library or by the application. A first word
  `do` lends a session the privileged commands for one line.
-/

namespace RouterCli.Program

variable {σ κ φ : Type} [FileStore φ]

-- ============================================================================
-- Running
-- ============================================================================

/-- Carry out a command. -/
def perform (p : Program σ κ) (found : Resolved) (c : Console σ κ φ) :
    Outcome × Console σ κ φ :=
  match found.element.spec.action with
  | .builtin command => p.runBuiltin command found.arguments c
  | .application _ =>
    let (outcome, app, session) :=
      p.application.execute found.element.spec found.arguments c.app c.session
    (outcome, { c with app, session })

/-- End the session where a command failed for good. -/
def closeIfFatal (found : Resolved) (outcome : Outcome) (c : Console σ κ φ) :
    Console σ κ φ :=
  match outcome with
  | .error (.fatal reason) =>
    (c.log .warn ("'" ++ found.element.pattern ++ "' failed: " ++ reason ++
      ", closing session")).mapSession (·.close)
  | _ => c

/-- Run the words of a line at the session's node. -/
def dispatch (p : Program σ κ) (words : List String) (strict : Bool)
    (c : Console σ κ φ) : Outcome × Console σ κ φ :=
  let elements := p.registry.elements c.session.node
  match resolve elements words strict p.limits.arguments with
  | .error e => (.error e, c)
  | .ok found =>
    if found.element.spec.daemon ≠ 0 then (.ok .daemon, c)
    else
      let (outcome, c) := p.perform found c
      (outcome, closeIfFatal found outcome c)

/-- Run a typed line. Words may be abbreviated; a blank line and a comment
    succeed at once. -/
def execute (p : Program σ κ) (line : String) (c : Console σ κ φ) :
    Outcome × Console σ κ φ :=
  let line := Line.parse line
  if line.isEmpty then (.ok .success, c)
  else if isShortcut c.session.node line.first? then
    let saved := c.session.node
    let (outcome, c) := p.dispatch line.words.tail false (c.mapSession (·.setNode .enable))
    (outcome, c.mapSession (·.setNode saved))
  else p.dispatch line.words false c

/-- Run a line whose words are spelled out. -/
def executeStrict (p : Program σ κ) (line : String) (c : Console σ κ φ) :
    Outcome × Console σ κ φ :=
  let line := Line.parse line
  if line.isEmpty then (.ok .success, c) else p.dispatch line.words true c

-- ============================================================================
-- Help
-- ============================================================================

/-- The node whose commands a line being typed is about, and the line without
    the shortcut. A `do` under the cursor is a word like others. -/
def shortcutView (node : NodeId) (line : PartialLine) : NodeId × PartialLine :=
  if isShortcut node line.words.head? then (.enable, line.shifted) else (node, line)

/-- List what may follow a line being typed. -/
def describe (p : Program σ κ) (node : NodeId) (line : String) :
    Except CommandError (List HelpItem) :=
  let (node, line) := shortcutView node (PartialLine.parse line)
  RouterCli.describe (p.registry.elements node) line

/-- Complete the word under the cursor. -/
def complete (p : Program σ κ) (node : NodeId) (line : String) :
    Except CommandError Completion :=
  let (node, line) := shortcutView node (PartialLine.parse line)
  RouterCli.complete (p.registry.elements node) line

end RouterCli.Program
