import RouterCli.Log.Severity
import RouterCli.Files.Path

/-!
  RouterCli.Log.Settings

  Where log messages go: to standard output, to a file, to both or nowhere.
  Each destination has a severity; `configLines` are the commands that bring
  the settings back.
-/

namespace RouterCli

/-- A log file. -/
structure LogFile where
  path : String
  /-- The least severe message it takes. -/
  severity : Severity
deriving DecidableEq, Repr

/-- Destinations and their severities. -/
structure LogSettings where
  /-- What a destination gets where none is given. -/
  default : Severity := .debugging
  stdout : Option Severity := none
  file : Option LogFile := none
  /-- Each message has its severity in front. -/
  recordPriority : Bool := false
deriving DecidableEq, Repr, Inhabited

namespace LogSettings

/-- The rank of the most verbose level that a destination takes; zero where
    there is none. -/
def verbosity (s : LogSettings) : Nat :=
  let rank := fun (severity : Severity) => severity.level.rank
  max ((s.stdout.map rank).getD 0) ((s.file.map fun f => rank f.severity).getD 0)

/-- Records of a level reach a destination. -/
def takes (s : LogSettings) (level : LogLevel) : Bool :=
  level.rank ≤ s.verbosity

/-- A new default, which open destinations take over. -/
def setDefault (s : LogSettings) (severity : Severity) : LogSettings :=
  { s with
    default := severity
    stdout := s.stdout.map fun _ => severity
    file := s.file.map fun f => { f with severity } }

/-- The end of a command that opens a destination: its severity, unless it is
    the default. -/
def severityWord (s : LogSettings) (severity : Severity) : String :=
  if severity = s.default then "" else " " ++ severity.name

/-- The commands that bring these settings back. The default comes first,
    since the commands behind it refer to it. -/
def configLines (s : LogSettings) : List String :=
  (if s.default = .debugging then []
    else ["! N.B. The 'log trap' command is deprecated.", "log trap " ++ s.default.name]) ++
  (match s.file with
    | some f => ["log file " ++ f.path ++ s.severityWord f.severity]
    | none => []) ++
  (match s.stdout with
    | some severity => ["log stdout" ++ s.severityWord severity]
    | none => []) ++
  (if s.recordPriority then ["log record-priority"] else [])

/-- The report on these settings. -/
def statusLines (s : LogSettings) (protocol : String) : List String :=
  [match s.stdout with
    | some severity => "Stdout logging: level " ++ severity.name
    | none => "Stdout logging: disabled",
    match s.file with
    | some f => "File logging: level " ++ f.severity.name ++ ", filename " ++ f.path
    | none => "File logging: disabled",
    "Protocol name: " ++ protocol,
    "Record priority: " ++ if s.recordPriority then "enabled" else "disabled"]

end LogSettings

/-- Lines, each with its line break. -/
def joinLines (lines : List String) : String :=
  String.join (lines.map (· ++ "\n"))

end RouterCli
