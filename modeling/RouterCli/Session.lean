import RouterCli.Node

/-!
  RouterCli.Session

  One user's place: the node, the object that the node configures, and the
  levels to return to. Commands print into the session's output.
-/

namespace RouterCli

/-- A level to return to. -/
structure Frame (κ : Type) where
  node : NodeId
  context : Option κ
  /-- Its indentation in a configuration text, once known. -/
  indent : Option String
deriving DecidableEq, Repr

/-- A session. -/
structure Session (κ : Type) where
  node : NodeId
  context : Option κ := none
  /-- The levels to return to, the innermost first. -/
  parents : List (Frame κ) := []
  /-- How often a level was added or taken away. -/
  epoch : Nat := 0
  /-- The indentation of the current level, once known. -/
  indent : Option String := none
  output : String := ""
  lines : Option Nat := none
  closing : Bool := false
  /-- Wrong passwords in a row. -/
  authFailures : Nat := 0
deriving DecidableEq, Repr

namespace Session

variable {κ : Type}

-- ============================================================================
-- Node and context
-- ============================================================================

/-- Move to a node; the context stays. -/
def setNode (s : Session κ) (node : NodeId) : Session κ :=
  { s with node }

/-- Move to a node with the object it configures. -/
def enter (s : Session κ) (node : NodeId) (context : κ) : Session κ :=
  { s with node, context := some context }

/-- Forget the object. -/
def clearContext (s : Session κ) : Session κ :=
  { s with context := none }

-- ============================================================================
-- Levels
-- ============================================================================

/-- The current level as one to return to. -/
def frame (s : Session κ) : Frame κ :=
  { node := s.node, context := s.context, indent := s.indent }

/-- Add a level to return to. -/
def pushParent (s : Session κ) (f : Frame κ) : Session κ :=
  { s with parents := f :: s.parents, epoch := s.epoch + 1 }

/-- Return to a level. -/
def restore (s : Session κ) (f : Frame κ) : Session κ :=
  { s with node := f.node, context := f.context, indent := f.indent, epoch := s.epoch + 1 }

/-- Return to the innermost level, if there is one. -/
def popParent (s : Session κ) : Session κ :=
  match s.parents with
  | [] => s
  | f :: rest => { s.restore f with parents := rest }

/-- Return to one level after the other, up to the outermost. -/
def clearParents (s : Session κ) : Session κ :=
  { s.parents.foldl restore s with parents := [] }

/-- Record or forget the indentation of the current level. -/
def setIndent (s : Session κ) (indent : Option String) : Session κ :=
  { s with indent }

-- ============================================================================
-- Output and end
-- ============================================================================

/-- Print a text. -/
def print (s : Session κ) (text : String) : Session κ :=
  { s with output := s.output ++ text }

/-- Print a line. -/
def printLine (s : Session κ) (text : String) : Session κ :=
  s.print (text ++ "\n")

/-- The output, which is then empty. -/
def takeOutput (s : Session κ) : String × Session κ :=
  (s.output, { s with output := "" })

/-- Ask for the end of the session. -/
def close (s : Session κ) : Session κ :=
  { s with closing := true }

/-- Set the length of the screen. -/
def setLines (s : Session κ) (lines : Option Nat) : Session κ :=
  { s with lines }

/-- Count a wrong password. -/
def recordAuthFailure (s : Session κ) : Session κ :=
  { s with authFailures := s.authFailures + 1 }

/-- Forget the wrong passwords. -/
def resetAuthFailures (s : Session κ) : Session κ :=
  { s with authFailures := 0 }

end Session

end RouterCli
