import RouterCli.Files.Store
import RouterCli.Log.Settings
import RouterCli.Password.Stored

/-!
  RouterCli.World

  What lies around a command line: files, the log of the process, its standard
  output and the supply of salts.
-/

namespace RouterCli

-- ============================================================================
-- The log of the process
-- ============================================================================

/-- An open log file. -/
structure OpenLog where
  /-- The path it was opened under. -/
  path : String
  handle : FileHandle
deriving DecidableEq, Repr

/-- The log of the process: its settings and its open file. -/
structure Logger where
  /-- The settings in force. -/
  settings : LogSettings := {}
  openFile : Option OpenLog := none
deriving DecidableEq, Repr, Inhabited

namespace Logger

/-- The line for a message of a severity. -/
def line (l : Logger) (severity : Severity) (text : String) : String :=
  (if l.settings.recordPriority then severity.name ++ ": " else "") ++ text ++ "\n"

/-- The open file has this very path. -/
def hasOpen (l : Logger) (path : Option String) : Bool :=
  l.openFile.map (Path.components ·.path) == path.map Path.components

end Logger

-- ============================================================================
-- The world
-- ============================================================================

/-- Files, log, standard output and salts. -/
structure World (φ : Type) where
  files : φ
  logger : Logger := {}
  stdout : String := ""
  salts : SaltSupply

namespace World

variable {φ : Type} [FileStore φ]

/-- Put log settings in force. The log file is opened anew only where its path
    is another; a file that cannot be opened leaves everything as it was. -/
def applyLog (w : World φ) (settings : LogSettings) : Except FileError (World φ) :=
  let wanted := settings.file.map (·.path)
  if w.logger.hasOpen wanted then .ok { w with logger := { w.logger with settings } }
  else
    match wanted with
    | none => .ok { w with logger := { settings, openFile := none } }
    | some path =>
      (FileStore.openAppend w.files path).map fun (handle, files) =>
        { w with files, logger := { settings, openFile := some { path, handle } } }

/-- Write a message to standard output, where its severity is let through. -/
def logToStdout (w : World φ) (severity : Severity) (line : String) : World φ :=
  match w.logger.settings.stdout with
  | some limit =>
    if severity.rank ≤ limit.rank then { w with stdout := w.stdout ++ line } else w
  | none => w

/-- Write a message to the log file, where its severity is let through. -/
def logToFile (w : World φ) (severity : Severity) (line : String) : World φ :=
  match w.logger.settings.file, w.logger.openFile with
  | some target, some file =>
    if severity.rank ≤ target.severity.rank then
      { w with files := FileStore.append w.files file.handle (Text.encode line) }
    else w
  | _, _ => w

/-- Make a log record. -/
def log (w : World φ) (level : LogLevel) (text : String) : World φ :=
  if w.logger.settings.takes level then
    let severity := Severity.ofLevel level
    let line := w.logger.line severity text
    (w.logToStdout severity line).logToFile severity line
  else w

/-- Encrypt a password under a fresh salt. -/
def encrypt (w : World φ) (password : String) : Except EncryptionError String × World φ :=
  let (result, salts) := StoredPassword.encrypt password w.salts
  (result, { w with salts })

end World

end RouterCli
