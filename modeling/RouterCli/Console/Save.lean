import RouterCli.Console.Basic

/-!
  RouterCli.Console.Save

  The running configuration as text, and its way into a file. The file is
  replaced through a fresh one beside it, and what it held before stays under
  its name with `.sav` behind.
-/

namespace RouterCli

-- ============================================================================
-- Errors
-- ============================================================================

/-- Which step of saving failed. -/
inductive SaveError where
  | noConfigFile
  | inconsistent
  | openFresh (path : String) (cause : FileError)
  | write (path : String) (cause : FileError)
  /-- The old backup could not be removed. -/
  | removeBackup (path : String) (cause : FileError)
  /-- The present file got no backup. -/
  | backup (path : String) (cause : FileError)
  | remove (path : String) (cause : FileError)
  /-- The fresh file did not get the name. -/
  | rename (path : String) (cause : FileError)
  | permissions (path : String) (cause : FileError)
deriving DecidableEq, Repr

namespace SaveError

/-- The file of the step that failed. -/
def path? : SaveError → Option String
  | noConfigFile | inconsistent => none
  | openFresh path _ | write path _ | removeBackup path _ | backup path _ | remove path _
  | rename path _ | permissions path _ => some path

/-- The words for an error. -/
def message : SaveError → String
  | noConfigFile => "no configuration file set"
  | inconsistent => "configuration is not consistent"
  | openFresh path cause => "can't open configuration file " ++ path ++ ": " ++ cause.message
  | write path cause => "can't write configuration file " ++ path ++ ": " ++ cause.message
  | removeBackup path cause =>
    "can't unlink backup configuration file " ++ path ++ ": " ++ cause.message
  | backup path cause =>
    "can't backup old configuration file " ++ path ++ ": " ++ cause.message
  | remove path cause => "can't unlink configuration file " ++ path ++ ": " ++ cause.message
  | rename path cause => "can't save configuration file " ++ path ++ ": " ++ cause.message
  | permissions path cause =>
    "can't chmod configuration file " ++ path ++ ": " ++ cause.message

end SaveError

-- ============================================================================
-- Replacing a file
-- ============================================================================

/-- The name that keeps the previous content of a file. -/
def backupPath (path : String) : String :=
  path ++ ".sav"

/-- The directory of a file. -/
def directoryOf (path : String) : String :=
  ((Path.parent? path).filter (· != "")).getD "."

/-- How the name of the fresh file begins. -/
def freshStart (path : String) : String :=
  (Path.fileName? path).getD "config" ++ "."

/-- What stands for the name of a fresh file that could not be made. -/
def freshPattern (path : String) : String :=
  Path.join (directoryOf path) (freshStart path ++ "XXXXXX")

/-- Steps on files, up to the first that fails. -/
abbrev Saving (φ : Type) := ExceptT SaveError (StateM φ)

section

variable {φ : Type} [FileStore φ]

/-- One step. If it fails the files stay as they are. -/
def saveStep (error : FileError → SaveError) (step : φ → Except FileError φ) :
    Saving φ Unit := do
  match step (← getThe φ) with
  | .ok files => set files
  | .error cause => throw (error cause)

/-- Remove a name, if it is there. -/
def removeOld (path : String) (files : φ) : Except FileError φ :=
  match FileStore.remove files path with
  | .error .notFound => .ok files
  | result => result

/-- Fill the fresh file, move what is there out of the way, and give the fresh
    file its name. -/
def moveIntoPlace (fresh path text : String) : Saving φ Unit := do
  saveStep (.write fresh) (FileStore.write · fresh (Text.encode text))
  let backup := backupPath path
  saveStep (.removeBackup backup) (removeOld backup)
  if FileStore.present (← getThe φ) path then
    saveStep (.backup backup) (FileStore.link · path backup)
    saveStep (.remove path) (FileStore.remove · path)
  saveStep (.rename path) (FileStore.link · fresh path)

/-- Take away the name of the fresh file. -/
def dropFresh (fresh : String) (files : φ) : φ :=
  (FileStore.remove files fresh).toOption.getD files

/-- The permission bits of a saved configuration. -/
def savedMode : Nat := 0o644

/-- Give a file new content. Whatever happens, the fresh file loses the name it
    was made under. -/
def replaceFile (path text : String) (files : φ) : Except SaveError Unit × φ :=
  match FileStore.createFresh files (directoryOf path) (freshStart path) with
  | .error cause => (.error (.openFresh (freshPattern path) cause), files)
  | .ok (fresh, files) =>
    match (moveIntoPlace fresh path text).run files with
    | (.error e, files) => (.error e, dropFresh fresh files)
    | (.ok (), files) =>
      (saveStep (.permissions path) (FileStore.setMode · path savedMode)).run
        (dropFresh fresh files)

end

-- ============================================================================
-- The running configuration
-- ============================================================================

namespace Program

variable {σ κ φ : Type}

/-- The configuration at one node, if there is any. The host's settings are
    those of the global configuration. -/
def configAt (p : Program σ κ) (host : Host) (app : σ) (node : NodeId) : Option String :=
  let settings := if node = .config then some host.configText else none
  match settings, p.application.configAt app node with
  | none, none => none
  | some a, none => some a
  | none, some b => some b
  | some a, some b => some (a ++ b)

/-- The configuration at every node that has a part in it, each part with a
    line of its own behind. -/
def configText (p : Program σ κ) (host : Host) (app : σ) : String :=
  String.join <|
    ((p.registry.nodes.filter (·.definition.writesConfig)).filterMap fun n =>
      p.configAt host app n.id).map (· ++ "!\n")

/-- The running configuration as it is printed. -/
def runningConfig (p : Program σ κ) (host : Host) (app : σ) : String :=
  "\nCurrent configuration:\n!\n" ++ p.configText host app ++ "end\n"

/-- The running configuration as it is saved. -/
def savedConfig (p : Program σ κ) (host : Host) (app : σ) : String :=
  "!\n! " ++ p.registry.app.name ++ " (" ++ p.registry.app.version ++
    ") configuration saved from vty\n!!\n" ++ p.configText host app

variable [FileStore φ]

/-- Save the running configuration to a file. -/
def saveTo (p : Program σ κ) (path : String) (c : Console σ κ φ) :
    Except SaveError Unit × Console σ κ φ :=
  let (result, files) := replaceFile path (p.savedConfig c.host c.app) c.world.files
  let c := { c with world := { c.world with files } }
  match result with
  | .ok () => (.ok (), c.log .info ("configuration saved to " ++ path))
  | .error e => (.error e, c.log .warn ("saving configuration failed: " ++ e.message))

/-- Save the running configuration to the host's file, and return its path. -/
def save (p : Program σ κ) (c : Console σ κ φ) :
    Except SaveError String × Console σ κ φ :=
  if !p.application.isConsistent c.app c.session then (.error .inconsistent, c)
  else
    match c.host.configFile with
    | none => (.error .noConfigFile, c)
    | some path =>
      let (result, c) := p.saveTo path c
      (result.map fun _ => path, c)

end Program

end RouterCli
