import RouterCli.Outcome
import RouterCli.Text.Blank

/-!
  RouterCli.Log.Severity

  The eight severities of a router's log, and the five coarser levels at which
  records are made. Several severities share a level.
-/

namespace RouterCli

/-- The level of a log record. -/
inductive LogLevel where
  | error
  | warn
  | info
  | debug
  | trace
deriving DecidableEq, Repr

namespace LogLevel

/-- Verbosity, least first. -/
def rank : LogLevel → Nat
  | error => 1
  | warn => 2
  | info => 3
  | debug => 4
  | trace => 5

end LogLevel

/-- Severity of a message, most severe first. -/
inductive Severity where
  | emergencies
  | alerts
  | critical
  | errors
  | warnings
  | notifications
  | informational
  | debugging
deriving DecidableEq, Repr, Inhabited

namespace Severity

/-- All severities, most severe first. -/
def all : List Severity :=
  [emergencies, alerts, critical, errors, warnings, notifications, informational, debugging]

/-- The keyword for a severity. -/
def name : Severity → String
  | emergencies => "emergencies"
  | alerts => "alerts"
  | critical => "critical"
  | errors => "errors"
  | warnings => "warnings"
  | notifications => "notifications"
  | informational => "informational"
  | debugging => "debugging"

instance : ToString Severity := ⟨name⟩

/-- Position, the most severe at zero. -/
def rank : Severity → Nat
  | emergencies => 0
  | alerts => 1
  | critical => 2
  | errors => 3
  | warnings => 4
  | notifications => 5
  | informational => 6
  | debugging => 7

/-- The level at which messages of a severity are recorded. -/
def level : Severity → LogLevel
  | emergencies | alerts | critical | errors => .error
  | warnings => .warn
  | notifications | informational => .info
  | debugging => .debug

/-- The severity under which a record is filed. -/
def ofLevel : LogLevel → Severity
  | .error => errors
  | .warn => warnings
  | .info => informational
  | .debug | .trace => debugging

/-- Read a severity from its name, or from the start of no other's name. -/
def parse (word : String) : Except CommandError Severity :=
  match all.find? (·.name == word) with
  | some s => .ok s
  | none =>
    if word.isEmpty then .error .noMatch
    else
      match all.filter (Text.startsWith ·.name word) with
      | [s] => .ok s
      | [] => .error .noMatch
      | _ => .error .ambiguous

end Severity

end RouterCli
