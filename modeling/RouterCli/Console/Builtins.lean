import RouterCli.Console.Navigation
import RouterCli.Console.Save

/-!
  RouterCli.Console.Builtins

  What the commands of the library do. A command that fails or warns has
  changed nothing but the session's output.
-/

namespace RouterCli

/-- The text of the command `help`. -/
def helpText : String :=
  joinLines
    ["This VTY provides advanced help features.  When you need help,",
      "anytime at the command line please press '?'.",
      "",
      "If nothing matches, the help list will be empty and you must backup",
      " until entering a '?' shows the available options.",
      "Two styles of help are provided:",
      "1. Full help is available when you are ready to enter a",
      "command argument (e.g. 'show ?') and describes each possible",
      "argument.",
      "2. Partial help is provided when an abbreviated argument is entered",
      "   and you want to know what arguments match the input",
      "   (e.g. 'show me?'.)",
      ""]

/-- The lines of a text, without their line breaks. A text that ends in a line
    break has no line behind it. -/
def textLines (cs : List Char) : List (List Char) :=
  let ps := Text.pieces (· == '\n') cs
  let ended := ps.dropLast.map fun l => if l.getLast? = some '\r' then l.dropLast else l
  ended ++ (ps.getLast?.filter (!·.isEmpty)).toList

/-- The first argument as a screen length. -/
def screenLength? (args : List String) : Option Nat :=
  args.head?.bind (Text.unsigned? 32)

/-- A word as a severity, or a value where there is no word. -/
def severityOr (word : Option String) (default : Severity) : Except CommandError Severity :=
  match word with
  | some w => Severity.parse w
  | none => .ok default

/-- What a typed password comes to. -/
inductive TypedSecret where
  | accepted (secret : Secret)
  | refused (complaint : String)
deriving DecidableEq, Repr

namespace Console

variable {σ κ φ : Type}

/-- The session moved, and the command done. -/
def move (c : Console σ κ φ) (f : Session κ → Session κ) : Outcome × Console σ κ φ :=
  (.ok .success, c.mapSession f)

/-- The host's settings changed, and the command done. -/
def set (c : Console σ κ φ) (f : Host → Host) : Outcome × Console σ κ φ :=
  (.ok .success, c.mapHost f)

/-- A complaint printed. -/
def warn (c : Console σ κ φ) (complaint : String) : Outcome × Console σ κ φ :=
  (.ok .warning, c.printLine complaint)

/-- The secret in the arguments of a password command: one word as it is typed,
    or the digit eight and a stored form. -/
def typedSecret (c : Console σ κ φ) (args : List String) : TypedSecret × Console σ κ φ :=
  match args with
  | [kind, stored] =>
    if kind = "8" then (.accepted (.encrypted stored), c)
    else (.refused "Unknown encryption type.", c)
  | _ =>
    let text := args.headD ""
    if !text.toList.head?.any Char.isAlphanum then
      (.refused "Please specify string starting with alphanumeric", c)
    else
      let (result, world) := c.host.secretFor text c.world
      let c := { c with world }
      match result with
      | .ok secret => (.accepted secret, c)
      | .error e => (.refused ("% " ++ e.message), c)

/-- Keep the secret in the arguments. -/
def setSecret (c : Console σ κ φ) (args : List String) (keep : Secret → Host → Host) :
    Outcome × Console σ κ φ :=
  match c.typedSecret args with
  | (.accepted secret, c) => c.set (keep secret)
  | (.refused complaint, c) => c.warn complaint

/-- Put a screen length somewhere. -/
def setLength (c : Console σ κ φ) (args : List String)
    (f : Option Nat → Console σ κ φ → Console σ κ φ) : Outcome × Console σ κ φ :=
  match screenLength? args with
  | some n => (.ok .success, f (some n) c)
  | none => (.error .noMatch, c)

/-- Keep passwords encrypted. -/
def encryptPasswords (c : Console σ κ φ) : Outcome × Console σ κ φ :=
  let (result, world) := c.host.enableEncryption c.world
  let c := { c with world }
  match result with
  | .ok host => (.ok .success, { c with host })
  | .error e => c.warn ("% " ++ e.message)

variable [FileStore φ]

/-- Put other log settings in force, and keep them with the host. -/
def setLogging (c : Console σ κ φ) (edit : LogSettings → LogSettings) :
    Outcome × Console σ κ φ :=
  let settings := edit c.host.logging
  match c.world.applyLog settings with
  | .ok world => ({ c with world } : Console σ κ φ).set fun h => { h with logging := settings }
  | .error _ => c.warn ("can't open logfile " ++ ((settings.file.map (·.path)).getD ""))

/-- Open a log destination at a severity, or at the default. -/
def setDestination (c : Console σ κ φ) (word : Option String)
    (edit : Severity → LogSettings → LogSettings) : Outcome × Console σ κ φ :=
  match severityOr word c.host.logging.default with
  | .ok severity => c.setLogging (edit severity)
  | .error e => (.error e, c)

/-- Print the saved configuration. -/
def showSaved (c : Console σ κ φ) : Outcome × Console σ κ φ :=
  let path := c.host.configFile.getD ""
  match FileStore.readText c.world.files path with
  | .ok text =>
    c.move fun s => (textLines text.toList).foldl (fun s l => s.printLine (String.ofList l)) s
  | .error _ => c.warn ("Can't open configuration file [" ++ path ++ "]")

end Console

namespace Program

variable {σ κ φ : Type} [FileStore φ]

/-- One level down; at the nodes that sessions start from, the end of the
    session. -/
def exit (p : Program σ κ) (c : Console σ κ φ) : Console σ κ φ :=
  if c.session.node ∈ [NodeId.auth, .view, .enable] then c.mapSession (·.close)
  else if c.session.node = .config then c.mapSession (·.setNode .enable)
  else if NodeId.config.value < c.session.node.value then c.mapSession (p.goParent c.app)
  else c

/-- Name and version of the program. -/
def versionLines (p : Program σ κ) : List String :=
  let app := p.registry.app
  (app.name ++ " " ++ app.version ++ " (" ++ app.name ++ ").") :: app.copyright.toList

/-- Save the running configuration, and say where. -/
def writeFile (p : Program σ κ) (c : Console σ κ φ) : Outcome × Console σ κ φ :=
  match p.save c with
  | (.ok path, c) => (.ok .success, c.printLine ("Configuration saved to " ++ path))
  | (.error .inconsistent, c) => c.warn "Configuration is not consistent"
  | (.error .noConfigFile, c) =>
    c.warn "Can't save to configuration file, no file configured."
  | (.error e, c) => c.warn ("% " ++ e.message)

/-- Carry out a command of the library. -/
def runBuiltin (p : Program σ κ) (command : Builtin) (args : List String)
    (c : Console σ κ φ) : Outcome × Console σ κ φ :=
  match command with
  | .showVersion => c.move (·.print (joinLines p.versionLines))
  | .list =>
    c.move (·.print (joinLines ((p.registry.list c.session.node).map ("  " ++ ·))))
  | .help => c.move (·.print helpText)
  | .echo => c.move (·.printLine (Text.unwords args))
  | .exit => (.ok .success, p.exit c)
  | .leave => (.ok .success, p.leaveConfig c)
  | .enable =>
    c.move (·.setNode (if c.host.requiresEnablePassword then .authEnable else .enable))
  | .disable => c.move fun s => if s.node = .enable then s.setNode .view else s
  | .configure => c.move (·.setNode .config)
  | .terminalLength => c.setLength args fun n => (·.mapSession (·.setLines n))
  | .noTerminalLength => c.move (·.setLines none)
  | .serviceTerminalLength =>
    c.setLength args fun n => (·.mapHost fun h => { h with lines := n })
  | .noServiceTerminalLength => c.set fun h => { h with lines := none }
  | .writeTerminal => c.move (·.print (p.runningConfig c.host c.app))
  | .writeFile => p.writeFile c
  | .showStartup => c.showSaved
  | .hostname =>
    let name := args.headD ""
    if name.toList.head?.any Char.isAlpha then c.set fun h => { h with name := some name }
    else c.warn "Please specify string starting with alphabet"
  | .noHostname => c.set fun h => { h with name := none }
  | .password => c.setSecret args fun secret h => { h with password := some secret }
  | .enablePassword => c.setSecret args fun secret h => { h with enable := some secret }
  | .noEnablePassword => c.set fun h => { h with enable := none }
  | .encryption => c.encryptPasswords
  | .noEncryption => c.set (·.disableEncryption)
  | .bannerDefault => c.set fun h => { h with banner := .default }
  | .bannerFile =>
    c.set fun h => { h with banner := (args.head?.map Banner.file).getD .default }
  | .noBanner => c.set fun h => { h with banner := .none }
  | .showLogging =>
    c.move (·.print (joinLines (c.host.logging.statusLines p.registry.app.name)))
  | .logMessage =>
    match args with
    | [] => (.error .noMatch, c)
    | word :: message =>
      match Severity.parse word with
      | .ok severity => (.ok .success, c.log severity.level (Text.unwords message))
      | .error e => (.error e, c)
  | .logStdout =>
    c.setDestination args.head? fun severity l => { l with stdout := some severity }
  | .noLogStdout => c.setLogging fun l => { l with stdout := none }
  | .logFile =>
    c.setDestination args[1]? fun severity l =>
      { l with file := some { path := args.headD "", severity } }
  | .noLogFile => c.setLogging fun l => { l with file := none }
  | .logTrap =>
    match args with
    | [] => (.error .noMatch, c)
    | word :: _ => c.setDestination (some word) fun severity l => l.setDefault severity
  | .noLogTrap => c.setLogging fun l => { l with default := .debugging }
  | .recordPriority => c.setLogging fun l => { l with recordPriority := true }
  | .noRecordPriority => c.setLogging fun l => { l with recordPriority := false }

end Program

end RouterCli
