/-
  RouterCli.Outcome

  How one command line ends: with a status, or with a graded error. What the
  command prints goes to the session's output and not into either.
-/

namespace RouterCli

/-- Why a line was not accepted or not finished. The first four come from
    resolving the line and never reach a handler. -/
inductive CommandError where
  | noMatch
  /-- The line begins a command and misses mandatory words. -/
  | incomplete
  /-- Several commands accept the line equally well. -/
  | ambiguous
  | tooManyArguments
  | invalidIndent
  | nothingToDo
  /-- A handler failed, and the session is to close. -/
  | fatal (reason : String)
deriving DecidableEq, Repr, Inhabited

namespace CommandError

/-- The words for an error. -/
def message : CommandError → String
  | noMatch => "unknown command"
  | incomplete => "command incomplete"
  | ambiguous => "ambiguous command"
  | tooManyArguments => "too many arguments"
  | invalidIndent => "invalid indentation"
  | nothingToDo => "nothing to do"
  | fatal reason => "fatal: " ++ reason

/-- What a terminal shows for an error; some have shown themselves already. -/
def complaint? : CommandError → Option String
  | noMatch => some "% Unknown command."
  | incomplete => some "% Command incomplete."
  | ambiguous => some "% Ambiguous command."
  | tooManyArguments => some "% Too many arguments."
  | invalidIndent | nothingToDo | fatal _ => none

end CommandError

/-- How a command that ran came out. -/
inductive Status where
  | success
  /-- It complained in its output. -/
  | warning
  /-- It belongs to another daemon and was not run here. -/
  | daemon
deriving DecidableEq, Repr, Inhabited

/-- The result of one command line. -/
abbrev Outcome := Except CommandError Status

namespace Outcome

/-- The replay of a configuration goes on after this outcome. -/
def isTolerated : Outcome → Bool
  | .ok .success | .ok .warning | .error .nothingToDo => true
  | _ => false

end Outcome

end RouterCli
